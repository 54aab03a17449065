import Mathlib.Data.Finset.Card

/-!
Contract: majorities with a tie broken by one chosen member.

Owns: when a part of a finite set outweighs the rest, that two such parts meet, and
that of two complementary parts exactly one outweighs the other.

Does not own: who belongs to a part, how the chosen member is found.
-/

namespace Ocfs2Coverage.Majority

variable {α : Type*} [DecidableEq α] {whole part other : Finset α} {chosen : α}

/-- More than half of the whole, or half of it with the chosen member. -/
def Outweighs (whole part : Finset α) (chosen : α) : Prop :=
  whole.card < 2 * part.card ∨ whole.card = 2 * part.card ∧ chosen ∈ part

/-- Two parts that outweigh the rest have a member in common. -/
theorem Outweighs.meet (first : Outweighs whole part chosen) (inside : part ⊆ whole)
    (second : Outweighs whole other chosen) (inside' : other ⊆ whole) :
    (part ∩ other).Nonempty := by
  by_contra apart
  rw [Finset.not_nonempty_iff_eq_empty] at apart
  have counts : (part ∪ other).card ≤ whole.card :=
    Finset.card_le_card (Finset.union_subset inside inside')
  rw [Finset.card_union_of_disjoint (Finset.disjoint_iff_inter_eq_empty.2 apart)] at counts
  rcases first with many | ⟨half, member⟩
  · rcases second with many' | ⟨half', -⟩ <;> omega
  · rcases second with many' | ⟨-, member'⟩
    · omega
    · have both : chosen ∈ part ∩ other := Finset.mem_inter.2 ⟨member, member'⟩
      rw [apart] at both
      exact absurd both (Finset.notMem_empty chosen)

/-- Of two complementary parts exactly one outweighs the other. -/
theorem outweighs_sdiff_iff (inside : part ⊆ whole) (member : chosen ∈ whole) :
    Outweighs whole (whole \ part) chosen ↔ ¬ Outweighs whole part chosen := by
  have rest : (whole \ part).card + part.card = whole.card :=
    Finset.card_sdiff_add_card_eq_card inside
  have either : chosen ∈ whole \ part ↔ chosen ∉ part := by
    rw [Finset.mem_sdiff]
    exact and_iff_right member
  simp only [Outweighs, either]
  by_cases here : chosen ∈ part
  · simp only [here, not_true, and_false, or_false, and_true]
    omega
  · simp only [here, not_false_eq_true, and_true, and_false, or_false]
    omega

end Ocfs2Coverage.Majority
