import Mathlib.Logic.Basic

/-!
Contract: runs of a labelled transition relation.

Owns: the states a run of events reaches, the invariant rule with and without the
history of the run, and the value that its events gave last.

Does not own: any particular relation.
-/

namespace Ocfs2Coverage.Runs

variable {σ ε : Type*}

/-- The state behind a list of events. -/
inductive Run (step : σ → ε → σ → Prop) (start : σ) : List ε → σ → Prop where
  | nil : Run step start [] start
  | snoc {events : List ε} {s t : σ} {event : ε} :
      Run step start events s → step s event t → Run step start (events ++ [event]) t

variable {step : σ → ε → σ → Prop} {start s : σ} {events : List ε}

/-- What holds at the start and is kept by every step, given the events so far, holds
behind every run. -/
theorem Run.history (inv : List ε → σ → Prop) (run : Run step start events s)
    (init : inv [] start)
    (keeps : ∀ events s event t, inv events s → step s event t → inv (events ++ [event]) t) :
    inv events s := by
  induction run with
  | nil => exact init
  | snoc _ last inductionHypothesis => exact keeps _ _ _ _ inductionHypothesis last

/-- The same without the history. -/
theorem Run.invariant (inv : σ → Prop) (run : Run step start events s) (init : inv start)
    (keeps : ∀ s event t, inv s → step s event t → inv t) : inv s :=
  run.history (fun _ s => inv s) init fun _ s event t => keeps s event t

/-- The step that a run ends with. -/
theorem Run.last {event : ε} (run : Run step start (events ++ [event]) s) :
    ∃ t, Run step start events t ∧ step t event s := by
  generalize all : events ++ [event] = whole at run
  cases run with
  | nil => simp at all
  | snoc before last =>
      obtain ⟨rfl, same⟩ := List.append_inj' all rfl
      cases same
      exact ⟨_, before, last⟩

/-- The value that events gave last. -/
def latest {α : Type*} (gives : ε → Option α) (first : α) (events : List ε) : α :=
  events.foldl (fun last event => (gives event).getD last) first

@[simp] theorem latest_snoc {α : Type*} (gives : ε → Option α) (first : α) (events : List ε)
    (event : ε) :
    latest gives first (events ++ [event]) = (gives event).getD (latest gives first events) := by
  simp [latest]

end Ocfs2Coverage.Runs
