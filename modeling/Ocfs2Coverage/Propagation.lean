import Mathlib.Data.Set.Lattice
import Mathlib.Order.Bounds.Basic
import Mathlib.Tactic.Common

/-!
Contract: marks that spread through blocks and along a successor relation.

Owns: the two one-pass operators on sets of marked elements, their behaviour
under unions, the sets both leave unchanged, and the case in which one round of
block, successor, block already reaches the least such set: borders between
blocks that the successor relation crosses must not follow one another.

Does not own: what the elements, the blocks or the successors are.
-/

namespace Ocfs2Coverage.Propagation

variable {α β ι : Type*} (block : α → β) (next : α → α → Prop)

/-- Everything that shares a block with a marked element. -/
def blockClosure (marked : Set α) : Set α :=
  {x | ∃ y ∈ marked, block y = block x}

/-- The marked elements and their successors, one step. -/
def forwardStep (marked : Set α) : Set α :=
  {x | x ∈ marked ∨ ∃ y ∈ marked, next y x}

/-- Neither operator adds an element. -/
structure Closed (marked : Set α) : Prop where
  sameBlock : ∀ x y, x ∈ marked → block x = block y → y ∈ marked
  successor : ∀ x y, x ∈ marked → next x y → y ∈ marked

/-- A successor in another block. -/
def Crosses (x y : α) : Prop := next x y ∧ block x ≠ block y

/-! ## One pass -/

theorem subset_blockClosure (marked : Set α) : marked ⊆ blockClosure block marked :=
  fun x member => ⟨x, member, rfl⟩

theorem subset_forwardStep (marked : Set α) : marked ⊆ forwardStep next marked :=
  fun _ member => Or.inl member

theorem blockClosure_mono {small large : Set α} (included : small ⊆ large) :
    blockClosure block small ⊆ blockClosure block large :=
  fun _ ⟨y, member, same⟩ => ⟨y, included member, same⟩

theorem forwardStep_mono {small large : Set α} (included : small ⊆ large) :
    forwardStep next small ⊆ forwardStep next large := by
  intro x member
  cases member with
  | inl here => exact Or.inl (included here)
  | inr step =>
      obtain ⟨y, marked, follows⟩ := step
      exact Or.inr ⟨y, included marked, follows⟩

theorem blockClosure_iUnion (family : ι → Set α) :
    blockClosure block (⋃ i, family i) = ⋃ i, blockClosure block (family i) := by
  ext x
  rw [Set.mem_iUnion]
  constructor
  · intro ⟨y, member, same⟩
    obtain ⟨i, inside⟩ := Set.mem_iUnion.1 member
    exact ⟨i, y, inside, same⟩
  · intro ⟨i, y, inside, same⟩
    exact ⟨y, Set.mem_iUnion.2 ⟨i, inside⟩, same⟩

theorem forwardStep_iUnion (family : ι → Set α) :
    forwardStep next (⋃ i, family i) = ⋃ i, forwardStep next (family i) := by
  ext x
  rw [Set.mem_iUnion]
  constructor
  · intro member
    cases member with
    | inl here =>
        obtain ⟨i, inside⟩ := Set.mem_iUnion.1 here
        exact ⟨i, Or.inl inside⟩
    | inr step =>
        obtain ⟨y, marked, follows⟩ := step
        obtain ⟨i, inside⟩ := Set.mem_iUnion.1 marked
        exact ⟨i, Or.inr ⟨y, inside, follows⟩⟩
  · intro ⟨i, member⟩
    exact forwardStep_mono next (Set.subset_iUnion family i) member

/-! ## Closed sets -/

theorem Closed.blockClosure_eq {marked : Set α} (closed : Closed block next marked) :
    blockClosure block marked = marked := by
  apply Set.Subset.antisymm
  · intro x ⟨y, member, same⟩
    exact closed.sameBlock y x member same
  · exact subset_blockClosure block marked

theorem Closed.forwardStep_eq {marked : Set α} (closed : Closed block next marked) :
    forwardStep next marked = marked := by
  apply Set.Subset.antisymm
  · intro x member
    cases member with
    | inl here => exact here
    | inr step =>
        obtain ⟨y, marked, follows⟩ := step
        exact closed.successor y x marked follows
  · exact subset_forwardStep next marked

/-- Block then successor adds nothing exactly on closed sets. -/
theorem forwardStep_blockClosure_eq_iff (marked : Set α) :
    forwardStep next (blockClosure block marked) = marked ↔ Closed block next marked := by
  refine ⟨fun fixed => ?_, fun closed => ?_⟩
  · have blocks : blockClosure block marked ⊆ marked := by
      intro x member
      rw [← fixed]
      exact Or.inl member
    refine ⟨fun x y member same => blocks ⟨x, member, same⟩, fun x y member follows => ?_⟩
    rw [← fixed]
    exact Or.inr ⟨x, subset_blockClosure block marked member, follows⟩
  · rw [closed.blockClosure_eq, closed.forwardStep_eq]

/-! ## Sets left by one block pass and one step -/

/-- Every marked element has its whole block marked, or was reached over a border. -/
def Seeded (marked : Set α) : Prop :=
  ∀ x ∈ marked, (∀ y, block y = block x → y ∈ marked) ∨ ∃ a ∈ marked, Crosses block next a x

theorem Seeded.iUnion {family : ι → Set α} (seeded : ∀ i, Seeded block next (family i)) :
    Seeded block next (⋃ i, family i) := by
  intro x member
  rcases Set.mem_iUnion.1 member with ⟨i, inside⟩
  rcases seeded i x inside with whole | ⟨a, marked, crosses⟩
  · exact Or.inl fun y equal => Set.mem_iUnion.2 ⟨i, whole y equal⟩
  · exact Or.inr ⟨a, Set.mem_iUnion.2 ⟨i, marked⟩, crosses⟩

/-- A seeded set is closed exactly when a marked element before a border comes with
the whole block behind it. -/
theorem Seeded.closed_iff {marked : Set α} (seeded : Seeded block next marked) :
    Closed block next marked ↔
      ∀ a b, Crosses block next a b → a ∈ marked → ∀ c, block c = block b → c ∈ marked := by
  refine ⟨fun closed a b crosses member c same => ?_, fun behind => ?_⟩
  · exact closed.sameBlock b c (closed.successor a b member crosses.1) same.symm
  · have sameBlock : ∀ x y, x ∈ marked → block x = block y → y ∈ marked := by
      intro x y member same
      rcases seeded x member with whole | ⟨a, early, crosses⟩
      · exact whole y same.symm
      · exact behind a x crosses early y same.symm
    refine ⟨sameBlock, fun x y member follows => ?_⟩
    by_cases inside : block x = block y
    · exact sameBlock x y member inside
    · exact behind x y ⟨follows, inside⟩ member y rfl

/-! ## One round suffices -/

/-- When two crossed borders never enclose one block, one round of block,
successor, block reaches a closed set. -/
theorem closed_round (noChain : ∀ a b c d, Crosses block next a b → block b = block c →
      Crosses block next c d → False) (marked : Set α) :
    Closed block next (blockClosure block (forwardStep next (blockClosure block marked))) := by
  constructor
  · intro x y ⟨z, member, same⟩ equal
    exact ⟨z, member, same.trans equal⟩
  · intro c d ⟨b, member, same⟩ follows
    by_cases inside : block c = block d
    · exact ⟨b, member, same.trans inside⟩
    · refine ⟨d, ?_, rfl⟩
      cases member with
      | inl early =>
          obtain ⟨z, marked, equal⟩ := early
          exact Or.inr ⟨c, ⟨z, marked, equal.trans same⟩, follows⟩
      | inr step =>
          -- `b` was reached from `a`; the border between them is no crossed one.
          obtain ⟨a, early, reached⟩ := step
          have joined : block a = block b := by
            by_contra apart
            exact noChain a b c d ⟨reached, apart⟩ same ⟨follows, inside⟩
          obtain ⟨z, marked, equal⟩ := early
          exact Or.inr ⟨c, ⟨z, marked, equal.trans (joined.trans same)⟩, follows⟩

/-- The round is the least closed superset. -/
theorem round_isLeast (noChain : ∀ a b c d, Crosses block next a b → block b = block c →
      Crosses block next c d → False) (marked : Set α) :
    IsLeast {upper | marked ⊆ upper ∧ Closed block next upper}
      (blockClosure block (forwardStep next (blockClosure block marked))) := by
  refine ⟨⟨?_, closed_round block next noChain marked⟩, ?_⟩
  · intro x member
    exact subset_blockClosure block _
      (subset_forwardStep next _ (subset_blockClosure block _ member))
  · intro upper ⟨included, closed⟩
    calc blockClosure block (forwardStep next (blockClosure block marked))
        ⊆ blockClosure block (forwardStep next (blockClosure block upper)) :=
          blockClosure_mono block
            (forwardStep_mono next (blockClosure_mono block included))
      _ = upper := by
          rw [closed.blockClosure_eq, closed.forwardStep_eq, closed.blockClosure_eq]

end Ocfs2Coverage.Propagation
