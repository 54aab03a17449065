import Mathlib.Algebra.Order.Group.Defs
import Mathlib.Algebra.BigOperators.Group.List.Basic

/-!
Contract: a signed remainder handed from box to box.

Owns: how far the content of a box can go down and up, what a box absorbs of a
remainder, what is left behind any number of boxes, and when nothing is left.

Does not own: what the boxes hold, the order in which they are visited.
-/

namespace Ocfs2Coverage.Absorbing

variable {α : Type*} [AddCommGroup α] [LinearOrder α]

/-- How far the content of a box can go down and up. -/
structure Room (α : Type*) [Zero α] [LE α] where
  down : α
  up : α
  down_nonpos : down ≤ 0
  up_nonneg : 0 ≤ up

namespace Room

/-- What the box takes of a remainder: all of it, or as much as there is room for. -/
def absorbed (room : Room α) (rest : α) : α := max room.down (min room.up rest)

/-- What is handed on. -/
def left (room : Room α) (rest : α) : α := rest - room.absorbed rest

/-! ## One box -/

theorem down_le_absorbed (room : Room α) (rest : α) : room.down ≤ room.absorbed rest :=
  le_max_left _ _

theorem absorbed_le_up (room : Room α) (rest : α) : room.absorbed rest ≤ room.up :=
  max_le (room.down_nonpos.trans room.up_nonneg) (min_le_left _ _)

theorem absorbed_of_nonneg (room : Room α) {rest : α} (nonneg : 0 ≤ rest) :
    room.absorbed rest = min room.up rest :=
  max_eq_right (room.down_nonpos.trans (le_min room.up_nonneg nonneg))

theorem absorbed_of_nonpos (room : Room α) {rest : α} (nonpos : rest ≤ 0) :
    room.absorbed rest = max room.down rest := by
  simp only [absorbed]
  rw [min_eq_right (nonpos.trans room.up_nonneg)]

@[simp] theorem absorbed_zero (room : Room α) : room.absorbed 0 = 0 := by
  rw [room.absorbed_of_nonneg (le_refl 0), min_eq_right room.up_nonneg]

theorem left_of_below (room : Room α) {rest : α} (below : rest ≤ room.down) :
    room.left rest = rest - room.down := by
  simp only [left]
  rw [room.absorbed_of_nonpos (below.trans room.down_nonpos), max_eq_left below]

theorem left_of_above (room : Room α) {rest : α} (above : room.up ≤ rest) :
    room.left rest = rest - room.up := by
  simp only [left]
  rw [room.absorbed_of_nonneg (room.up_nonneg.trans above), min_eq_left above]

theorem left_of_within (room : Room α) {rest : α} (lower : room.down ≤ rest)
    (upper : rest ≤ room.up) : room.left rest = 0 := by
  simp only [left, absorbed]
  rw [min_eq_right upper, max_eq_right lower, sub_self]

/-- A remainder is absorbed whole exactly when there is room for it. -/
theorem left_eq_zero_iff (room : Room α) (rest : α) :
    room.left rest = 0 ↔ room.down ≤ rest ∧ rest ≤ room.up := by
  constructor
  · intro none
    have all : rest = room.absorbed rest := sub_eq_zero.1 none
    rw [all]
    exact ⟨room.down_le_absorbed rest, room.absorbed_le_up rest⟩
  · exact fun within => room.left_of_within within.1 within.2

/-! ## Boxes together -/

instance : Zero (Room α) := ⟨⟨0, 0, le_refl 0, le_refl 0⟩⟩

@[simp] theorem down_zero : (0 : Room α).down = 0 := rfl

@[simp] theorem up_zero : (0 : Room α).up = 0 := rfl

@[simp] theorem left_zero (rest : α) : (0 : Room α).left rest = rest := by
  rcases le_total rest 0 with below | above
  · rw [left_of_below _ below, down_zero, sub_zero]
  · rw [left_of_above _ above, up_zero, sub_zero]

variable [IsOrderedAddMonoid α]

instance : Add (Room α) :=
  ⟨fun room other => ⟨room.down + other.down, room.up + other.up,
    add_nonpos room.down_nonpos other.down_nonpos, add_nonneg room.up_nonneg other.up_nonneg⟩⟩

@[simp] theorem down_add (room other : Room α) : (room + other).down = room.down + other.down := rfl

@[simp] theorem up_add (room other : Room α) : (room + other).up = room.up + other.up := rfl

/-- Two boxes leave what one with the room of both leaves. -/
theorem left_add (room other : Room α) (rest : α) :
    (room + other).left rest = other.left (room.left rest) := by
  rcases le_total rest room.down with below | lower
  · -- The first box is emptied, and the rest is still at most zero.
    rw [room.left_of_below below]
    rcases le_total (rest - room.down) other.down with below' | lower'
    · have both : rest ≤ (room + other).down := sub_le_iff_le_add'.1 below'
      rw [other.left_of_below below', left_of_below _ both, down_add, sub_sub]
    · have nonpos : rest - room.down ≤ 0 := sub_nonpos.2 below
      rw [other.left_of_within lower' (nonpos.trans other.up_nonneg)]
      refine left_of_within _ (le_sub_iff_add_le'.1 lower') ?_
      exact (below.trans room.down_nonpos).trans (room + other).up_nonneg
  · rcases le_total rest room.up with upper | above
    · -- The first box absorbs all.
      rw [room.left_of_within lower upper, other.left_of_within other.down_nonpos other.up_nonneg]
      refine left_of_within _ ?_ ?_
      · exact (add_le_of_nonpos_right other.down_nonpos).trans lower
      · exact upper.trans (le_add_of_nonneg_right other.up_nonneg)
    · -- The first box is filled, and the rest is still at least zero.
      rw [room.left_of_above above]
      rcases le_total other.up (rest - room.up) with above' | upper'
      · have both : (room + other).up ≤ rest := le_sub_iff_add_le'.1 above'
        rw [other.left_of_above above', left_of_above _ both, up_add, sub_sub]
      · have nonneg : 0 ≤ rest - room.up := sub_nonneg.2 above
        rw [other.left_of_within (other.down_nonpos.trans nonneg) upper']
        refine left_of_within _ ?_ (sub_le_iff_le_add'.1 upper')
        exact (room + other).down_nonpos.trans (room.up_nonneg.trans above)

/-- Any number of boxes, one after another. -/
theorem foldl_left (rooms : List (Room α)) (rest : α) :
    rooms.foldl (fun rest room => room.left rest) rest = rooms.sum.left rest := by
  induction rooms generalizing rest with
  | nil => exact (left_zero rest).symm
  | cons room rooms inductionHypothesis =>
      rw [List.foldl_cons, inductionHypothesis, List.sum_cons, left_add]

theorem down_sum (rooms : List (Room α)) : rooms.sum.down = (rooms.map down).sum := by
  induction rooms with
  | nil => rfl
  | cons room rooms inductionHypothesis =>
      rw [List.sum_cons, down_add, inductionHypothesis, List.map_cons, List.sum_cons]

theorem up_sum (rooms : List (Room α)) : rooms.sum.up = (rooms.map up).sum := by
  induction rooms with
  | nil => rfl
  | cons room rooms inductionHypothesis =>
      rw [List.sum_cons, up_add, inductionHypothesis, List.map_cons, List.sum_cons]

/-- Nothing is left behind the boxes exactly when they have room for the remainder
together, whatever their order. -/
theorem foldl_left_eq_zero_iff (rooms : List (Room α)) (rest : α) :
    rooms.foldl (fun rest room => room.left rest) rest = 0 ↔
      (rooms.map down).sum ≤ rest ∧ rest ≤ (rooms.map up).sum := by
  rw [foldl_left, left_eq_zero_iff, down_sum, up_sum]

end Room

end Ocfs2Coverage.Absorbing
