import Mathlib.Data.Nat.Bitwise
import Mathlib.Data.List.Basic

/-!
Contract: correction of one flipped bit by the sum of the positions of the set bits.

Owns: the syndrome of a list of bits under any numbering of the bits, how it changes
with one bit and over consecutive hunks, and that the bit it points at is the flipped
one.

Does not own: which numbers are positions, how they are computed.
-/

namespace Ocfs2Coverage.Syndrome

variable (position : Nat → Nat)

/-- The positions of the set bits, added bit by bit, from the bit numbered `start` on. -/
def syndrome (start : Nat) : List Bool → Nat
  | [] => 0
  | bit :: bits => (if bit then position start else 0) ^^^ syndrome (start + 1) bits

/-- The bits with bit `i` flipped. -/
def flip (bits : List Bool) (i : Nat) : List Bool := bits.modify i (!·)

@[simp] theorem length_flip (bits : List Bool) (i : Nat) : (flip bits i).length = bits.length :=
  List.length_modify _ _ _

@[simp] theorem flip_flip (bits : List Bool) (i : Nat) : flip (flip bits i) i = bits := by
  apply List.ext_getElem
  · simp
  · intro j _ _
    simp only [flip, List.getElem_modify]
    by_cases here : i = j <;> simp [here]

theorem getElem_flip (bits : List Bool) (i j : Nat) (inside : j < (flip bits i).length)
    (inside' : j < bits.length) :
    (flip bits i)[j] = if i = j then !bits[j] else bits[j] := by
  simp only [flip, List.getElem_modify]

theorem flip_append_left {xs ys : List Bool} {i : Nat} (inside : i < xs.length) :
    flip (xs ++ ys) i = flip xs i ++ ys := by
  apply List.ext_getElem?
  intro j
  simp only [flip, List.getElem?_modify, List.getElem?_append, List.length_modify]
  grind

theorem flip_append_right {xs ys : List Bool} {i : Nat} (outside : xs.length ≤ i) :
    flip (xs ++ ys) i = xs ++ flip ys (i - xs.length) := by
  apply List.ext_getElem?
  intro j
  simp only [flip, List.getElem?_modify, List.getElem?_append]
  grind

/-! ## The syndrome -/

theorem syndrome_append (start : Nat) (xs ys : List Bool) :
    syndrome position start (xs ++ ys) =
      syndrome position start xs ^^^ syndrome position (start + xs.length) ys := by
  induction xs generalizing start with
  | nil => simp [syndrome]
  | cons bit xs inductionHypothesis =>
      simp only [List.cons_append, syndrome, inductionHypothesis, List.length_cons]
      rw [Nat.xor_assoc, Nat.add_right_comm, Nat.add_assoc]

/-- One bit more or less adds its position. -/
theorem syndrome_flip {bits : List Bool} {i : Nat} (inside : i < bits.length) (start : Nat) :
    syndrome position start (flip bits i) = syndrome position start bits ^^^ position (start + i) := by
  induction bits generalizing start i with
  | nil => cases inside
  | cons bit bits inductionHypothesis =>
      cases i with
      | zero =>
          cases bit <;> simp [flip, syndrome, Nat.xor_comm]
      | succ i =>
          have rest := inductionHypothesis (Nat.lt_of_succ_lt_succ inside) (start + 1)
          simp only [flip, List.modify_succ_cons, syndrome] at rest ⊢
          rw [rest, Nat.xor_assoc, Nat.add_right_comm, Nat.add_assoc]

/-! ## The correction -/

/-- The bits with the one flipped that has the given position. -/
def correct (start fix : Nat) : List Bool → List Bool
  | [] => []
  | bit :: bits =>
      if position start = fix then (!bit) :: bits else bit :: correct (start + 1) fix bits

variable {position}

theorem correct_eq_self {start fix : Nat} {bits : List Bool}
    (nowhere : ∀ i < bits.length, position (start + i) ≠ fix) :
    correct position start fix bits = bits := by
  induction bits generalizing start with
  | nil => rfl
  | cons bit bits inductionHypothesis =>
      have first : position start ≠ fix := nowhere 0 (Nat.succ_pos _)
      simp only [correct]
      rw [if_neg first, inductionHypothesis]
      intro i inside
      rw [Nat.add_right_comm, Nat.add_assoc]
      exact nowhere (i + 1) (Nat.succ_lt_succ inside)

theorem correct_eq_flip (injective : Function.Injective position) {start i : Nat}
    {bits : List Bool} (inside : i < bits.length) :
    correct position start (position (start + i)) bits = flip bits i := by
  induction bits generalizing start i with
  | nil => cases inside
  | cons bit bits inductionHypothesis =>
      simp only [correct]
      cases i with
      | zero =>
          rw [Nat.add_zero, if_pos rfl]
          rfl
      | succ i =>
          have later : position start ≠ position (start + (i + 1)) := fun same => by
            have numbers := injective same
            omega
          have shift : start + (i + 1) = start + 1 + i := by omega
          rw [if_neg later, shift, inductionHypothesis (Nat.lt_of_succ_lt_succ inside)]
          rfl

/-- Consecutive hunks are corrected one by one, as at most one of them has the bit. -/
theorem correct_append (injective : Function.Injective position) (start fix : Nat)
    (xs ys : List Bool) :
    correct position start fix (xs ++ ys) =
      correct position start fix xs ++ correct position (start + xs.length) fix ys := by
  by_cases here : ∃ i < (xs ++ ys).length, position (start + i) = fix
  · obtain ⟨i, inside, rfl⟩ := here
    rw [correct_eq_flip injective inside]
    by_cases left : i < xs.length
    · have nowhere : ∀ j < ys.length, position (start + xs.length + j) ≠ position (start + i) := by
        intro j _ same
        have numbers := injective same
        omega
      rw [flip_append_left left, correct_eq_flip injective left, correct_eq_self nowhere]
    · have nowhere : ∀ j < xs.length, position (start + j) ≠ position (start + i) := by
        intro j inside same
        have numbers := injective same
        omega
      have right : i - xs.length < ys.length := by
        rw [List.length_append] at inside
        omega
      have shift : start + i = start + xs.length + (i - xs.length) := by omega
      rw [flip_append_right (Nat.le_of_not_lt left), correct_eq_self nowhere, shift,
        correct_eq_flip injective right]
  · simp only [not_exists, not_and] at here
    rw [correct_eq_self here, correct_eq_self fun i inside => here i ?_,
      correct_eq_self fun i inside => ?_]
    · rw [Nat.add_assoc]
      exact here (xs.length + i) (by rw [List.length_append]; omega)
    · rw [List.length_append]
      omega

/-- The difference of the syndromes undoes the flip of one bit. -/
theorem correct_flip (injective : Function.Injective position) {start i : Nat} {bits : List Bool}
    (inside : i < bits.length) :
    correct position start (syndrome position start (flip bits i) ^^^ syndrome position start bits)
      (flip bits i) = bits := by
  have fix : syndrome position start (flip bits i) ^^^ syndrome position start bits =
      position (start + i) := by
    rw [syndrome_flip position inside, Nat.xor_comm, ← Nat.xor_assoc, Nat.xor_self, Nat.zero_xor]
  rw [fix, correct_eq_flip injective (by rwa [length_flip]), flip_flip]

end Ocfs2Coverage.Syndrome
