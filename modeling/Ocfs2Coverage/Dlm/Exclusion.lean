import Ocfs2Coverage.Dlm.Conversation

/-!
Contract: what clients of a lock resource may rely on together.

Owns: that their modes go together behind every run, and a run in which two clients
share the resource.

Does not own: how the invariant behind this is kept.
-/

namespace Ocfs2Coverage.Dlm

open Ocfs2Coverage.Runs
open Ocfs2Coverage.Sharing

variable {Lvb : Type} {owner : Node} {s : Cluster Lvb} {c d : Cookie}

/-- What the client of a lock may rely on, by the copy at its own node. -/
def Cluster.relies (s : Cluster Lvb) (c : Cookie) : Option Mode :=
  (s.own c).place.bind Place.relies

/-- A client gives up with its call what it does not need any more. -/
theorem Place.relies_le_held {place : Place} {t : Mode} (relies : t ∈ place.relies) :
    ∃ u ∈ place.held, t ≤ u := by
  obtain ⟨node, queue, type, convertType, unlockPending⟩ := place
  cases queue with
  | granted =>
      cases unlockPending with
      | false => exact ⟨t, relies, le_rfl⟩
      | true => cases relies
  | converting =>
      obtain rfl : min type (convertType.getD type) = t := Option.some.inj relies
      exact ⟨type, rfl, min_le_left ..⟩
  | blocked => cases relies

/-- No client relies on more than the owner lets its lock hold. -/
theorem Invariant.relies_le (inv : Invariant owner s) {t : Mode} (relies : t ∈ s.relies c) :
    ∃ u ∈ ((s.res owner).copy c).held, t ≤ u := by
  rw [held_eq]
  by_cases home : dlmGetLockCookieNode c = owner
  · rw [Cluster.relies, Cluster.own, home] at relies
    obtain ⟨place, here, relies⟩ := Option.bind_eq_some_iff.1 relies
    rw [here]
    exact Place.relies_le_held relies
  · obtain ⟨phase, conforms⟩ := inv.remote c home
    rw [Cluster.relies, conforms.here] at relies
    rw [conforms.there]
    exact phase.relies_le _ relies

/-- Both copies of a lock agree when nothing about it is under way. -/
theorem Invariant.agreed (inv : Invariant owner s) (quiet : ∀ k ∈ s.calls, k.1.cookie ≠ c)
    (noAst : c ∉ (s.res owner).pendingAsts) (noPast : ∀ past ∈ s.asts, past.cookie ≠ c) :
    (s.own c).place = ((s.res owner).copy c).place := by
  by_cases home : dlmGetLockCookieNode c = owner
  · rw [Cluster.own, home]
  obtain ⟨phase, conforms⟩ := inv.remote c home
  have errands : phase.errands = 0 := by
    rw [← conforms.errands, errandsOf]
    exact (Multiset.bind_congr fun k member => if_neg (quiet k member)).trans
      (Multiset.bind_zero _)
  have asts : phase.asts = 0 := by
    rw [← conforms.asts, Cluster.astCount, Multiset.countP_eq_zero.2 noPast]
    exact List.count_eq_zero.2 noAst
  rw [conforms.here, conforms.there]
  cases phase with
  | absent | queued t | idle t | waiting t u => rfl
  | given t | converted t u => cases asts
  | requested t | refused t | asked t u | turnedDown t u | cancelled t u | leaving t | left t =>
      exact absurd errands (Multiset.singleton_ne_zero _)

theorem Invariant.relied (inv : Invariant owner s) : Shared Mode.Compatible s.relies :=
  inv.shared.weaken sharingRule fun _ _ => inv.relies_le

section

variable [DlmLockCompatible] [Inhabited Lvb]

/-- Behind every run, the modes that two clients rely on go together: while one relies on
EX, no other relies on more than NL. -/
theorem clients_share {lvb : Lvb} {events : List (Event Lvb)}
    (run : Run (Step owner) (.start lvb) events s) (different : c ≠ d) {t u : Mode}
    (here : t ∈ s.relies c) (there : u ∈ s.relies d) : t.Compatible u :=
  (invariant_of_run run).relied c d different t here u there

/-- Behind every run, the node of a lock and the owner have the same queue, modes and pending
conversion for it, unless a message, an answer or an ast about it is under way. -/
theorem copies_agree {lvb : Lvb} {events : List (Event Lvb)}
    (run : Run (Step owner) (.start lvb) events s) (quiet : ∀ k ∈ s.calls, k.1.cookie ≠ c)
    (noAst : c ∉ (s.res owner).pendingAsts) (noPast : ∀ past ∈ s.asts, past.cookie ≠ c) :
    (s.own c).place = ((s.res owner).copy c).place :=
  (invariant_of_run run).agreed quiet noAst noPast

end

/-! ## Two readers -/

/-- The comparison as its comments describe it. -/
@[reducible] def modesCompatible : DlmLockCompatible where
  dlmLockCompatible held wanted :=
    wanted = .nl || held = some .nl || wanted = .pr && held = some .pr
  compatible_iff held wanted := by
    simp only [Mode.Compatible]
    cases held <;> cases wanted <;> decide

def plainFlags : LkmFlags := ⟨false, false, false, false, false⟩

/-- A client of the owner and one of node 1 read. -/
theorem twoReaders : ∃ events s, Run (@Step Nat modesCompatible _ 0) (.start 7) events s ∧
    (Mode.pr ∈ s.relies 1 ∧ Mode.pr ∈ s.relies (2 ^ 56 + 1)) ∧
      s.calls = 0 ∧ (s.res 0).pendingAsts = [] ∧ s.asts = 0 := by
  let compatible := modesCompatible
  have start : Run (@Step Nat modesCompatible _ 0) (.start 7) [] _ := .nil
  have locked := start.snoc (.lockOwner ⟨rfl, rfl⟩ (by decide) rfl
    (show dlmNewLock _ _ _ .pr plainFlags 0 = (_, _) from rfl) rfl)
  have granted := locked.snoc (.flushLocal rfl rfl rfl)
  have asked := granted.snoc (.lock (by decide) ⟨rfl, rfl⟩ (by decide) rfl
    (show dlmNewLock _ 1 _ .pr plainFlags 0 = (_, _) from rfl) rfl)
  have handled := asked.snoc
    (.handle (show _ = (Call.create 1 (2 ^ 56 + 1) .pr plainFlags, none) ::ₘ 0 from rfl) rfl)
  have flushed := handled.snoc (.flush rfl rfl)
  have arrived := flushed.snoc
    (.ast (show _ = (⟨1, 2 ^ 56 + 1, none⟩ : ProxyAst Nat) ::ₘ 0 from rfl) rfl)
  have returned := arrived.snoc
    (.return (show _ = (Call.create 1 (2 ^ 56 + 1) .pr plainFlags, some .normal) ::ₘ 0 from rfl) rfl)
  exact ⟨_, _, returned, ⟨by decide +kernel, by decide +kernel⟩, rfl, rfl, rfl⟩

theorem clients_share_readers : ∃ s : Cluster Nat, Mode.pr ∈ s.relies 1 ∧
    Mode.pr ∈ s.relies (2 ^ 56 + 1) ∧ Mode.pr.Compatible .pr := by
  let compatible := modesCompatible
  obtain ⟨events, s, run, ⟨here, there⟩, -⟩ := twoReaders
  exact ⟨s, here, there, clients_share run (by decide) here there⟩

theorem copies_agree_readers : ∃ s : Cluster Nat, Mode.pr ∈ s.relies (2 ^ 56 + 1) ∧
    (s.own (2 ^ 56 + 1)).place = ((s.res 0).copy (2 ^ 56 + 1)).place := by
  let compatible := modesCompatible
  obtain ⟨events, s, run, ⟨-, there⟩, calls, asts, past⟩ := twoReaders
  exact ⟨s, there, copies_agree run (by simp [calls]) (by simp [asts]) (by simp [past])⟩

end Ocfs2Coverage.Dlm
