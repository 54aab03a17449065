import Mathlib.Algebra.BigOperators.Ring.Finset
import Mathlib.Data.List.Forall2
import Mathlib.Data.List.GetD
import Ocfs2Coverage.Absorbing
import Ocfs2Coverage.Profiles.Synthetic

/-!
Contract: the quota split of `apply_line_hits` is exact.

Owns: the correction loop on any rounded shares and in any order of the files, as
a remainder that the files absorb one after another.

Does not own: which lines of a file its quota covers.
-/

namespace Ocfs2Coverage.Profiles

open Ocfs2Coverage.Python
open Ocfs2Coverage.Hits
open Ocfs2Coverage.Absorbing

/-- The quotas before the correction, from shares that may be any integers. -/
def clampShares (sizes : List Nat) (shares : List Int) : List Int :=
  sizes.zipWith (fun (n : Nat) share => min (n : Int) (max 0 share)) shares

/-- The correction loop from some quotas, with the files in some order. -/
def correctQuotas (sizes : List Nat) (quotas : List Int) (nCover : Int) (order : List Nat) :
    QuotaState :=
  let slack := sizes.zipWith (fun (n : Nat) q => (n : Int) - q) quotas
  order.foldl (quotaStep slack) ⟨quotas, nCover - quotas.sum⟩

/-- A quota for every file, between zero and its size; together they make up the
wanted number of lines. -/
structure ExactSplit (sizes : List Nat) (nCover : Int) (quotas : List Int) : Prop where
  bounds : List.Forall₂ (fun (n : Nat) (q : Int) => 0 ≤ q ∧ q ≤ n) sizes quotas
  total : quotas.sum = nCover

/-! ## Quotas within the sizes -/

/-- A quota for every file, between zero and its size. -/
structure Split (sizes : List Nat) where
  quotas : List Int
  length_quotas : quotas.length = sizes.length
  nonneg : ∀ i, 0 ≤ quotas.getD i 0
  fits : ∀ i, quotas.getD i 0 ≤ (sizes.getD i 0 : Int)

theorem getD_set (xs : List Int) (i j : Nat) (x : Int) :
    (xs.set i x).getD j 0 = if i = j ∧ i < xs.length then x else xs.getD j 0 := by
  rw [List.getD_eq_getElem?_getD, List.getD_eq_getElem?_getD, List.getElem?_set]
  by_cases here : i = j
  · subst here
    by_cases inside : i < xs.length
    · simp [inside]
    · simp [inside]
  · simp [here]

theorem getD_zipWith {sizes : List Nat} {xs : List Int} (f : Nat → Int → Int) (zero : f 0 0 = 0)
    (same : xs.length = sizes.length) (i : Nat) :
    (sizes.zipWith f xs).getD i 0 = f (sizes.getD i 0) (xs.getD i 0) := by
  rw [List.getD_eq_getElem?_getD, List.getD_eq_getElem?_getD, List.getD_eq_getElem?_getD,
    List.getElem?_zipWith]
  by_cases inside : i < sizes.length
  · rw [List.getElem?_eq_getElem inside, List.getElem?_eq_getElem (same ▸ inside)]
    rfl
  · rw [List.getElem?_eq_none (by omega), List.getElem?_eq_none (by omega)]
    exact zero.symm

theorem range_map_getD {α : Type} (xs : List α) (d : α) :
    (List.range xs.length).map (fun i => xs.getD i d) = xs := by
  apply List.ext_getElem
  · simp
  · intro i _ inside
    rw [List.getElem_map, List.getElem_range, List.getD_eq_getElem _ _ inside]

theorem set_getD (xs : List Int) (i : Nat) : xs.set i (xs.getD i 0) = xs := by
  by_cases inside : i < xs.length
  · rw [List.getD_eq_getElem _ _ inside, List.set_getElem_self]
  · exact List.set_eq_of_length_le (by omega)

namespace Split

variable {sizes : List Nat}

/-- The quotas before the correction. -/
def ofShares (shares : List Int) (same : shares.length = sizes.length) : Split sizes where
  quotas := clampShares sizes shares
  length_quotas := by
    simp only [clampShares]
    rw [List.length_zipWith, same, Nat.min_self]
  nonneg := by
    intro i
    simp only [clampShares]
    rw [getD_zipWith _ (by simp) same]
    omega
  fits := by
    intro i
    simp only [clampShares]
    rw [getD_zipWith _ (by simp) same]
    exact min_le_left _ _

theorem forall₂ (s : Split sizes) :
    List.Forall₂ (fun (n : Nat) (q : Int) => 0 ≤ q ∧ q ≤ n) sizes s.quotas := by
  rw [List.forall₂_iff_get]
  refine ⟨s.length_quotas.symm, fun i inside inside' => ?_⟩
  have lower := s.nonneg i
  have upper := s.fits i
  rw [List.getD_eq_getElem _ _ inside'] at lower upper
  rw [List.getD_eq_getElem _ _ inside] at upper
  exact ⟨lower, upper⟩

/-- A quota can fall to zero and rise to the size of its file. -/
def room (s : Split sizes) (i : Nat) : Room Int where
  down := -s.quotas.getD i 0
  up := sizes.getD i 0 - s.quotas.getD i 0
  down_nonpos := by
    have lower := s.nonneg i
    omega
  up_nonneg := by
    have upper := s.fits i
    omega

/-- One file absorbs what it can of the remainder. -/
def move (s : Split sizes) (i : Nat) (rest : Int) : Split sizes where
  quotas := s.quotas.set i (s.quotas.getD i 0 + (s.room i).absorbed rest)
  length_quotas := by
    rw [List.length_set]
    exact s.length_quotas
  nonneg := by
    intro j
    rw [getD_set]
    split
    · have lower : -s.quotas.getD i 0 ≤ (s.room i).absorbed rest := (s.room i).down_le_absorbed rest
      omega
    · exact s.nonneg j
  fits := by
    intro j
    rw [getD_set]
    split
    · next here =>
        have upper : (s.room i).absorbed rest ≤ sizes.getD i 0 - s.quotas.getD i 0 :=
          (s.room i).absorbed_le_up rest
        rw [← here.1]
        omega
    · exact s.fits j

/-- The files visited so far do not change the room of another one. -/
theorem room_move {i j : Nat} (other : i ≠ j) (s : Split sizes) (rest : Int) :
    (s.move i rest).room j = s.room j := by
  have same : (s.move i rest).quotas.getD j 0 = s.quotas.getD j 0 := by
    simp only [move]
    rw [getD_set, if_neg fun both => other both.1]
  simp only [room, same]

/-- What a file absorbs is in the sum. -/
theorem sum_move {i : Nat} (inside : i < sizes.length) (s : Split sizes) (rest : Int) :
    (s.move i rest).quotas.sum = s.quotas.sum + (s.room i).absorbed rest := by
  have here : i < s.quotas.length := by
    rw [s.length_quotas]
    exact inside
  simp only [move]
  rw [List.sum_set', dif_pos here, List.getD_eq_getElem _ _ here]
  omega

/-! ## The pass over the files -/

/-- The quotas and the remainder behind one more file. -/
def visit (st : Split sizes × Int) (i : Nat) : Split sizes × Int :=
  (st.1.move i st.2, (st.1.room i).left st.2)

theorem sum_visit {order : List Nat} (inside : ∀ i ∈ order, i < sizes.length)
    (st : Split sizes × Int) :
    (order.foldl visit st).1.quotas.sum + (order.foldl visit st).2 = st.1.quotas.sum + st.2 := by
  induction order generalizing st with
  | nil => rfl
  | cons i order inductionHypothesis =>
      rw [List.forall_mem_cons] at inside
      have step : (visit st i).1.quotas.sum + (visit st i).2 = st.1.quotas.sum + st.2 := by
        simp only [visit, Room.left]
        rw [sum_move inside.1]
        omega
      rw [List.foldl_cons, inductionHypothesis inside.2, step]

/-- Visited once each, the files absorb the remainder as their first rooms do. -/
theorem rest_visit {order : List Nat} (distinct : order.Nodup) (s : Split sizes) (rest : Int) :
    (order.foldl visit (s, rest)).2 =
      (order.map s.room).foldl (fun rest room => room.left rest) rest := by
  induction order generalizing s rest with
  | nil => rfl
  | cons i order inductionHypothesis =>
      rw [List.nodup_cons] at distinct
      have later : order.map (s.move i rest).room = order.map s.room := by
        apply List.map_congr_left
        intro j listed
        apply room_move
        rintro rfl
        exact distinct.1 listed
      rw [List.foldl_cons, List.map_cons, List.foldl_cons]
      exact (inductionHypothesis distinct.2 (s.move i rest) _).trans (by rw [later])

/-- The rooms of all files, in any order. -/
theorem sum_room (s : Split sizes) {order : List Nat}
    (visits : order.Perm (List.range sizes.length)) :
    ((order.map s.room).map Room.down).sum = -s.quotas.sum ∧
      ((order.map s.room).map Room.up).sum = sizes.sum - s.quotas.sum := by
  have quotas : (order.map fun i => s.quotas.getD i 0).sum = s.quotas.sum := by
    rw [(visits.map _).sum_eq, ← s.length_quotas, range_map_getD]
  have whole : (order.map fun i => (sizes.getD i 0 : Int)).sum = sizes.sum := by
    have cast : (order.map fun i => (sizes.getD i 0 : Int)) =
        (order.map fun i => sizes.getD i 0).map Nat.cast := by
      rw [List.map_map]
      rfl
    rw [cast, ← Nat.cast_list_sum, (visits.map _).sum_eq, range_map_getD]
  rw [List.map_map, List.map_map]
  constructor
  · rw [← quotas, List.sum_neg, List.map_map]
    rfl
  · have each : (order.map fun i => (sizes.getD i 0 : Int)) =
        order.map fun i => (s.room i).up + s.quotas.getD i 0 := by
      apply List.map_congr_left
      intro i _
      show _ = (sizes.getD i 0 : Int) - s.quotas.getD i 0 + s.quotas.getD i 0
      omega
    rw [each, List.sum_map_add, quotas] at whole
    show (order.map fun i => (s.room i).up).sum = _
    omega

end Split

/-! ## The correction loop -/

/-- One round of the loop, where the slack of the file is still right. -/
theorem quotaStep_eq {sizes : List Nat} {slack : List Int} {i : Nat} (s : Split sizes) (rest : Int)
    (fresh : slack.getD i 0 = (s.room i).up) :
    quotaStep slack ⟨s.quotas, rest⟩ i =
      ⟨(Split.visit (s, rest) i).1.quotas, (Split.visit (s, rest) i).2⟩ := by
  have keeps : s.quotas.set i (s.quotas.getD i 0 + 0) = s.quotas := by
    rw [add_zero]
    exact set_getD s.quotas i
  simp only [quotaStep, Split.visit, Split.move, Room.left]
  split
  · next done =>
      rw [done, Room.absorbed_zero, keeps, sub_zero]
  · next more =>
      split
      · next up =>
          rw [fresh, (s.room i).absorbed_of_nonneg up.le, min_comm]
      · next down =>
          have below : rest ≤ 0 := by omega
          have room : (s.room i).down = -s.quotas.getD i 0 := rfl
          rw [(s.room i).absorbed_of_nonpos below, room]
          split
          · next some =>
              have give : max (-s.quotas.getD i 0) rest = -min (-rest) (s.quotas.getD i 0) := by
                omega
              rw [give, sub_neg_eq_add, ← sub_eq_add_neg]
          · next none =>
              have empty := s.nonneg i
              have nothing : max (-s.quotas.getD i 0) rest = 0 := by omega
              rw [nothing, keeps, sub_zero]

/-- The loop, over files that were not visited yet. -/
theorem foldl_quotaStep {sizes : List Nat} {slack : List Int} {order : List Nat}
    (distinct : order.Nodup) (s : Split sizes) (rest : Int)
    (fresh : ∀ i ∈ order, slack.getD i 0 = (s.room i).up) :
    order.foldl (quotaStep slack) ⟨s.quotas, rest⟩ =
      ⟨(order.foldl Split.visit (s, rest)).1.quotas, (order.foldl Split.visit (s, rest)).2⟩ := by
  induction order generalizing s rest with
  | nil => rfl
  | cons i order inductionHypothesis =>
      rw [List.nodup_cons] at distinct
      rw [List.forall_mem_cons] at fresh
      rw [List.foldl_cons, quotaStep_eq s rest fresh.1, List.foldl_cons]
      apply inductionHypothesis distinct.2
      intro j listed
      have other : i ≠ j := by
        rintro rfl
        exact distinct.1 listed
      rw [fresh.2 j listed]
      exact congrArg Room.up (s.room_move other rest).symm

/-- The correction makes any split exact: the files have room for the remainder
together, in whatever order they are visited. -/
theorem correctQuotas_exact {sizes : List Nat} (s : Split sizes) {nCover : Int}
    (lower : 0 ≤ nCover) (upper : nCover ≤ sizes.sum) {order : List Nat}
    (visits : order.Perm (List.range sizes.length)) :
    ExactSplit sizes nCover (correctQuotas sizes s.quotas nCover order).quotas := by
  have distinct : order.Nodup := visits.nodup_iff.2 List.nodup_range
  have inside : ∀ i ∈ order, i < sizes.length :=
    fun i listed => List.mem_range.1 (visits.mem_iff.1 listed)
  have run : correctQuotas sizes s.quotas nCover order =
      ⟨(order.foldl Split.visit (s, nCover - s.quotas.sum)).1.quotas,
        (order.foldl Split.visit (s, nCover - s.quotas.sum)).2⟩ := by
    apply foldl_quotaStep distinct
    intro i _
    exact getD_zipWith _ (by simp) s.length_quotas i
  have absorbed : (order.foldl Split.visit (s, nCover - s.quotas.sum)).2 = 0 := by
    have rooms := s.sum_room visits
    rw [Split.rest_visit distinct, Room.foldl_left_eq_zero_iff, rooms.1, rooms.2]
    omega
  have total := Split.sum_visit inside (s, nCover - s.quotas.sum)
  rw [run]
  refine ⟨Split.forall₂ _, ?_⟩
  calc _ = (order.foldl Split.visit (s, nCover - s.quotas.sum)).1.quotas.sum + 0 := (add_zero _).symm
    _ = s.quotas.sum + (nCover - s.quotas.sum) := by rw [← absorbed, total]
    _ = nCover := by omega

/-! ## The code's split -/

/-- The sizes as the integers that the shares and the slack are computed with. -/
theorem cast_sizes (sizes : List Nat) :
    (do
      let n ← sizes
      pure (n : Int)) = sizes.map Nat.cast := by
  induction sizes with
  | nil => rfl
  | cons n sizes inductionHypothesis => exact congrArg ((n : Int) :: ·) inductionHypothesis

section Code

variable [Runtime]

/-- `int(round(d * scale))` for every file. -/
def roundedShares (sizes : List Nat) (weights : List Runtime.Float) (nCover : Int) : List Int :=
  let desired := sizes.zipWith (fun (n : Nat) w => FloatOps.mul w (FloatOps.ofInt n)) weights
  let sum := FloatOps.sum desired
  let sdes := if FloatOps.eq sum (FloatOps.lit 0) then FloatOps.lit 1 else sum
  let scale := FloatOps.div (FloatOps.ofInt nCover) sdes
  desired.map fun d => FloatOps.round (FloatOps.mul d scale)

theorem length_roundedShares {sizes : List Nat} {weights : List Runtime.Float}
    (same : weights.length = sizes.length) (nCover : Int) :
    (roundedShares sizes weights nCover).length = sizes.length := by
  simp only [roundedShares]
  rw [List.length_map, List.length_zipWith, same, Nat.min_self]

theorem initialQuotas_eq (sizes : List Nat) (weights : List Runtime.Float) (nCover : Int) :
    initialQuotas sizes weights nCover =
      clampShares sizes (roundedShares sizes weights nCover) := by
  simp only [initialQuotas, clampShares, roundedShares]
  rw [cast_sizes, List.zipWith_map_left, List.zipWith_map_left, List.zipWith_map_right]

/-- The files as the code visits them. -/
def splitOrder (sizes : List Nat) (weights : List Runtime.Float) (nCover : Int) : List Nat :=
  quotaOrder weights (sizes.zipWith (fun (n : Nat) q => (n : Int) - q)
    (initialQuotas sizes weights nCover))

theorem splitQuotas_eq (sizes : List Nat) (weights : List Runtime.Float) (nCover : Int) :
    splitQuotas sizes weights nCover =
      (correctQuotas sizes (initialQuotas sizes weights nCover) nCover
        (splitOrder sizes weights nCover)).quotas := by
  simp only [splitQuotas, correctQuotas, splitOrder]
  rw [cast_sizes, List.zipWith_map_left]

/-- Every file is visited once. -/
theorem splitOrder_perm {sizes : List Nat} {weights : List Runtime.Float}
    (same : weights.length = sizes.length) (nCover : Int) :
    (splitOrder sizes weights nCover).Perm (List.range sizes.length) := by
  have length : (sizes.zipWith (fun (n : Nat) q => (n : Int) - q)
      (initialQuotas sizes weights nCover)).length = sizes.length := by
    rw [initialQuotas_eq]
    simp [clampShares, length_roundedShares same]
  simp only [splitOrder, quotaOrder]
  rw [length]
  exact sortByKey_perm _ _

/-- For any files, weights and target, the quotas are between zero and the sizes of the
files and make up the wanted number of lines, which is between zero and the number of
all lines; and so they are for any integers as rounded shares, any such number and any
order of the files. -/
theorem splitQuotas_exact (files : List CoverageFile) (weights : List Runtime.Float)
    (same : weights.length = files.length) (targetPct : Runtime.Float) :
    (0 ≤ wantedLines (scoreTotal files) targetPct ∧
        wantedLines (scoreTotal files) targetPct ≤ scoreTotal files) ∧
      ExactSplit (files.map fileTotal) (wantedLines (scoreTotal files) targetPct)
        (splitQuotas (files.map fileTotal) weights (wantedLines (scoreTotal files) targetPct)) ∧
      ∀ (shares : List Int) (nCover : Int) (order : List Nat), shares.length = files.length →
        0 ≤ nCover → nCover ≤ scoreTotal files → order.Perm (List.range files.length) →
          ExactSplit (files.map fileTotal) nCover (correctQuotas (files.map fileTotal)
            (clampShares (files.map fileTotal) shares) nCover order).quotas := by
  have bounds := wantedLines_bounds (scoreTotal files) targetPct
  have length : (files.map fileTotal).length = files.length := List.length_map _
  have any : ∀ (shares : List Int) (nCover : Int) (order : List Nat),
      shares.length = files.length → 0 ≤ nCover → nCover ≤ scoreTotal files →
        order.Perm (List.range files.length) →
          ExactSplit (files.map fileTotal) nCover (correctQuotas (files.map fileTotal)
            (clampShares (files.map fileTotal) shares) nCover order).quotas := by
    intro shares nCover order one lower upper visits
    rw [← length] at one visits
    exact correctQuotas_exact (Split.ofShares shares one) lower upper visits
  refine ⟨bounds, ?_, any⟩
  have one := length_roundedShares (same.trans length.symm) (wantedLines (scoreTotal files) targetPct)
  have visits := splitOrder_perm (same.trans length.symm) (wantedLines (scoreTotal files) targetPct)
  rw [splitQuotas_eq, initialQuotas_eq]
  rw [length] at one visits
  exact any _ _ _ one bounds.1 bounds.2 visits

/-- Shares that cover too much or too little, in an order of their own. -/
example : (correctQuotas [3, 0, 2] (clampShares [3, 0, 2] [9, 4, -1]) 4 [2, 0, 1]).quotas =
    [3, 0, 1] := by decide

end Code

section Sample

attribute [local instance] sampleRuntime

def assignments : CoverageFile where
  source := parsedFile "a.c".toList "a = 1;\nb = 2;\n".toList
  hits := ∅

def emptyFile : CoverageFile where
  source := parsedFile "b.c".toList []
  hits := ∅

theorem splitQuotas_exact_assignments :
    ExactSplit ([assignments, emptyFile].map fileTotal)
        (wantedLines (scoreTotal [assignments, emptyFile]) (50 : ℚ))
        (splitQuotas ([assignments, emptyFile].map fileTotal) [(3 / 4 : ℚ), (9 / 10 : ℚ)]
          (wantedLines (scoreTotal [assignments, emptyFile]) (50 : ℚ))) ∧
      ExactSplit ([assignments, emptyFile].map fileTotal) 1
        (correctQuotas ([assignments, emptyFile].map fileTotal)
          (clampShares ([assignments, emptyFile].map fileTotal) [5, 3]) 1 [1, 0]).quotas := by
  have split := splitQuotas_exact [assignments, emptyFile] [(3 / 4 : ℚ), (9 / 10 : ℚ)] rfl (50 : ℚ)
  exact ⟨split.2.1, split.2.2 [5, 3] 1 [1, 0] rfl (by decide) (by decide +kernel) (by decide)⟩

end Sample

end Ocfs2Coverage.Profiles
