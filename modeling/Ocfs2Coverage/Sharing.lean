import Mathlib.Order.Basic

/-!
Contract: holders that share something in modes.

Owns: assignments of modes to holders that go together, and the changes that keep
them together.

Does not own: the modes, who changes them.
-/

namespace Ocfs2Coverage.Sharing

variable {κ μ : Type*} [Preorder μ] {compatible : μ → μ → Prop}

/-- Whether two modes go together does not depend on who asked first, and a weaker
mode goes together with whatever a stronger one does. -/
structure SharingRule (compatible : μ → μ → Prop) : Prop where
  symm : ∀ {t u}, compatible t u → compatible u t
  weaken : ∀ {s t u}, s ≤ t → compatible t u → compatible s u

/-- The modes of different holders go together. -/
def Shared (compatible : μ → μ → Prop) (held : κ → Option μ) : Prop :=
  ∀ a b, a ≠ b → ∀ t ∈ held a, ∀ u ∈ held b, compatible t u

variable {held less : κ → Option μ}

/-- Holders may hold less. -/
theorem Shared.weaken (shared : Shared compatible held) (rule : SharingRule compatible)
    (weaker : ∀ a, ∀ t ∈ less a, ∃ u ∈ held a, t ≤ u) : Shared compatible less := by
  intro a b different t here u there
  obtain ⟨t', here', le⟩ := weaker a t here
  obtain ⟨u', there', le'⟩ := weaker b u there
  have both := rule.weaken le (shared a b different t' here' u' there')
  exact rule.symm (rule.weaken le' (rule.symm both))

/-- One holder may change to a mode that goes together with all others. -/
theorem Shared.change (shared : Shared compatible held) (rule : SharingRule compatible) (a : κ)
    (others : ∀ b, b ≠ a → ∀ t ∈ less b, ∃ u ∈ held b, t ≤ u)
    (fits : ∀ t ∈ less a, ∀ b, b ≠ a → ∀ u ∈ less b, compatible t u) :
    Shared compatible less := by
  intro b c different t here u there
  by_cases first : b = a
  · subst first
    exact fits t here c different.symm u there
  · by_cases second : c = a
    · subst second
      exact rule.symm (fits u there b first t here)
    · obtain ⟨t', here', le⟩ := others b first t here
      obtain ⟨u', there', le'⟩ := others c second u there
      have both := rule.weaken le (shared b c different t' here' u' there')
      exact rule.symm (rule.weaken le' (rule.symm both))

end Ocfs2Coverage.Sharing
