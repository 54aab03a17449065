import Mathlib.Data.List.Nodup
import Mathlib.Data.Nat.Bitwise
import Mathlib.Order.Monotone.Basic
import Ocfs2Coverage.Syndrome

/-!
Contract: the Hamming code of `blockcheck.c`.

Owns: the number of a data bit in the code, the encoder and the fix of one bit, both
over hunks, as the syndrome and the correction under that numbering.

Does not own: checksums, what is stored in a block.
-/

namespace Ocfs2Coverage.Driver

open Ocfs2Coverage.Syndrome

/-! ## The code

A buffer is the list of its bits in the order of `ocfs2_test_bit`. Numbers of bits stay
far below `2 ^ 32`, so they are natural numbers. -/

/-- The loop of `calc_code_bit`: bump the bit for every power of two below it. -/
def bumpCodeBit (b p : Nat) : Nat × Nat :=
  if 2 ^ p < b + 1 then bumpCodeBit (b + 1) (p + 1) else (b, p)
termination_by b + 1 - 2 * p
decreasing_by
  have double : 2 * p ≤ 2 ^ p ∨ p = 0 := by
    cases p with
    | zero => exact .inr rfl
    | succ p =>
        have low : p < 2 ^ p := Nat.lt_two_pow_self
        rw [pow_succ]
        omega
  rcases double with double | rfl
  · omega
  · rw [pow_zero] at *
    omega

/-- `calc_code_bit`: the bit in the code, and the number of parity bits below it for the
caller who keeps track of it. -/
def calcCodeBit (i pCache : Nat) : Nat × Nat := bumpCodeBit (i + 1 + pCache) pCache

/-- `hweight32`. -/
def hweight32 (w : Nat) : Nat := (List.range 32).countP w.testBit

/-- The loop of `ocfs2_hamming_encode` over the bits of a hunk. -/
def hammingLoop (parity nr p : Nat) : List Bool → Nat
  | [] => parity
  | bit :: data =>
      if bit then
        let code := calcCodeBit nr p
        hammingLoop (parity ^^^ code.1) (nr + 1) code.2 data
      else hammingLoop parity (nr + 1) p data

def ocfs2HammingEncode (parity : Nat) (data : List Bool) (nr : Nat) : Nat :=
  hammingLoop parity nr 0 data

def ocfs2HammingEncodeBlock (data : List Bool) : Nat := ocfs2HammingEncode 0 data 0

/-- `while (hweight32(b) == 1) b++;`, at most so many times. -/
def skipParity : Nat → Nat → Nat
  | 0, b => b
  | times + 1, b => if hweight32 b = 1 then skipParity times (b + 1) else b

/-- The loop of `ocfs2_hamming_fix`; of 32 bits no more than 32 numbers are parity bits. -/
def hammingFixLoop (fix b : Nat) : List Bool → List Bool
  | [] => []
  | bit :: data =>
      let b := skipParity 32 b
      if b = fix then (!bit) :: data else bit :: hammingFixLoop fix (b + 1) data

def ocfs2HammingFix (data : List Bool) (nr fix : Nat) : List Bool :=
  if hweight32 fix = 1 then data
  else if (calcCodeBit (nr + data.length) 0).1 ≤ fix then data
  else
    let b := (calcCodeBit nr 0).1
    if fix < b then data else hammingFixLoop fix b data

def ocfs2HammingFixBlock (data : List Bool) (fix : Nat) : List Bool := ocfs2HammingFix data 0 fix

/-! ## The number of a bit -/

/-- The number of parity bits below data bit `i`, as the loop finds it. -/
structure ParityBits (i p : Nat) : Prop where
  below : ∀ q < p, 2 ^ q < i + 2 + q
  enough : i + 2 + p ≤ 2 ^ p

theorem ParityBits.unique {i p q : Nat} (first : ParityBits i p) (second : ParityBits i q) :
    p = q := by
  rcases Nat.lt_trichotomy p q with less | same | more
  · have low := second.below p less
    have high := first.enough
    omega
  · exact same
  · have low := first.below q more
    have high := second.enough
    omega

theorem bumpCodeBit_spec {i b p : Nat} (start : b = i + 1 + p) (below : ∀ q < p, 2 ^ q < i + 2 + q) :
    ParityBits i (bumpCodeBit b p).2 ∧ (bumpCodeBit b p).1 = i + 1 + (bumpCodeBit b p).2 := by
  fun_induction bumpCodeBit b p with
  | case1 b p more inductionHypothesis =>
      apply inductionHypothesis (by omega)
      intro q less
      rcases Nat.lt_succ_iff_lt_or_eq.1 less with less | rfl
      · exact below q less
      · omega
  | case2 b p done =>
      have enough : i + 2 + p ≤ 2 ^ p := by omega
      exact ⟨⟨below, enough⟩, start⟩

/-- The bit in the code of data bit `i`. -/
def codeBit (i : Nat) : Nat := (calcCodeBit i 0).1

theorem exists_parityBits (i : Nat) : ∃ p, ParityBits i p ∧ codeBit i = i + 1 + p :=
  ⟨_, bumpCodeBit_spec rfl fun _ less => absurd less (Nat.not_lt_zero _)⟩

/-- With the number of parity bits of an earlier bit the loop finds the same. -/
theorem calcCodeBit_of_cache {i p : Nat} (below : ∀ q < p, 2 ^ q < i + 2 + q) :
    (calcCodeBit i p).1 = codeBit i ∧ ParityBits i (calcCodeBit i p).2 := by
  obtain ⟨bits, code⟩ := bumpCodeBit_spec (b := i + 1 + p) rfl below
  obtain ⟨q, bits', code'⟩ := exists_parityBits i
  refine ⟨?_, bits⟩
  rw [code', bits'.unique bits]
  exact code

theorem ParityBits.pos {i p : Nat} (bits : ParityBits i p) : 0 < p := by
  by_contra none
  obtain rfl : p = 0 := by omega
  have enough := bits.enough
  rw [pow_zero] at enough
  omega

/-- The bit lies strictly between two powers of two. -/
theorem ParityBits.between {i p : Nat} (bits : ParityBits i p) :
    2 ^ (p - 1) < i + 1 + p ∧ i + 1 + p < 2 ^ p := by
  have some := bits.pos
  have low := bits.below (p - 1) (by omega)
  have high := bits.enough
  omega

theorem ne_two_pow {n p : Nat} (above : 2 ^ (p - 1) < n) (below : n < 2 ^ p) (k : Nat) :
    n ≠ 2 ^ k := by
  rintro rfl
  have less : k < p := (Nat.pow_lt_pow_iff_right (by decide)).1 below
  have more : p - 1 < k := (Nat.pow_lt_pow_iff_right (by decide)).1 above
  omega

theorem codeBit_ne_two_pow (i k : Nat) : codeBit i ≠ 2 ^ k := by
  obtain ⟨p, bits, code⟩ := exists_parityBits i
  rw [code]
  exact ne_two_pow bits.between.1 bits.between.2 k

/-- Behind a bit comes the next one, or a parity bit and then the next one. -/
theorem codeBit_succ (i : Nat) :
    (codeBit (i + 1) = codeBit i + 1 ∧ ∀ k, codeBit i + 1 ≠ 2 ^ k) ∨
      (codeBit (i + 1) = codeBit i + 2 ∧ ∃ k, codeBit i + 1 = 2 ^ k) := by
  obtain ⟨p, bits, code⟩ := exists_parityBits i
  obtain ⟨q, bits', code'⟩ := exists_parityBits (i + 1)
  have range := bits.between
  have earlier : ∀ k < p, 2 ^ k < i + 1 + 2 + k := fun k less => by
    have low := bits.below k less
    omega
  rcases Nat.lt_or_ge (i + 2 + p) (2 ^ p) with more | last
  · -- There is room for one more bit before the next power of two.
    have same : q = p := bits'.unique ⟨earlier, by omega⟩
    left
    refine ⟨by omega, ?_⟩
    rw [code]
    exact ne_two_pow (p := p) (by omega) (by omega)
  · -- The bit is the last one before it.
    have full : i + 2 + p = 2 ^ p := Nat.le_antisymm bits.enough last
    have next : q = p + 1 := by
      refine bits'.unique ⟨fun k less => ?_, ?_⟩
      · rcases Nat.lt_succ_iff_lt_or_eq.1 less with less | rfl
        · exact earlier k less
        · omega
      · rw [pow_succ]
        omega
    right
    exact ⟨by omega, p, by omega⟩

theorem codeBit_strictMono : StrictMono codeBit :=
  strictMono_nat_of_lt_succ fun i => by
    rcases codeBit_succ i with next | next <;> omega

theorem three_le_codeBit (i : Nat) : 3 ≤ codeBit i := by
  have first : codeBit 0 = 3 := by
    simp [codeBit, calcCodeBit, bumpCodeBit]
  rw [← first]
  exact codeBit_strictMono.monotone (Nat.zero_le i)

/-- So many data bits fit below a power of two. -/
theorem codeBit_lt {i k : Nat} (fits : i + 2 + k ≤ 2 ^ k) : codeBit i < 2 ^ k := by
  obtain ⟨p, bits, code⟩ := exists_parityBits i
  have few : p ≤ k := by
    by_contra more
    have low := bits.below k (by omega)
    omega
  have most : i + 1 + k < 2 ^ k := by omega
  omega

/-! ## The weight of a number -/

theorem testBit_of_small {b j : Nat} (small : b < 2 ^ 32) (high : 32 ≤ j) : b.testBit j = false :=
  Nat.testBit_lt_two_pow (small.trans_le (Nat.pow_le_pow_right (by decide) high))

theorem hweight32_eq_one_iff {b : Nat} (small : b < 2 ^ 32) :
    hweight32 b = 1 ↔ ∃ k, b = 2 ^ k := by
  simp only [hweight32, List.countP_eq_length_filter]
  constructor
  · intro one
    obtain ⟨k, single⟩ := List.length_eq_one_iff.1 one
    refine ⟨k, Nat.eq_of_testBit_eq fun j => ?_⟩
    have listed : j < 32 ∧ b.testBit j = true ↔ j = k := by
      rw [← List.mem_range, ← List.mem_filter, single, List.mem_singleton]
    rw [Nat.testBit_two_pow]
    by_cases low : j < 32
    · rw [Bool.eq_iff_iff, decide_eq_true_eq, eq_comm (a := k)]
      exact (and_iff_right low).symm.trans listed
    · have other : k ≠ j := fun same => low (listed.2 same.symm).1
      rw [testBit_of_small small (Nat.le_of_not_lt low), decide_eq_false other]
  · rintro ⟨k, rfl⟩
    have low : k < 32 := (Nat.pow_lt_pow_iff_right (by decide)).1 small
    have single : (List.range 32).filter (2 ^ k).testBit = [k] := by
      have bits : (2 ^ k).testBit = fun j => decide (j = k) := by
        funext j
        rw [Nat.testBit_two_pow]
        exact decide_eq_decide.2 eq_comm
      rw [bits, List.filter_eq, List.count_eq_one_of_mem List.nodup_range (List.mem_range.2 low)]
      rfl
    rw [single]
    rfl

/-- Above 2 no two powers of two are adjacent, so the loop skips one bit at most. -/
theorem skipParity_eq {b : Nat} (some : 3 ≤ b) (small : b + 1 < 2 ^ 32) :
    ((∀ k, b ≠ 2 ^ k) → skipParity 32 b = b) ∧ ((∃ k, b = 2 ^ k) → skipParity 32 b = b + 1) := by
  have here := hweight32_eq_one_iff (b := b) (by omega)
  have next := hweight32_eq_one_iff small
  constructor
  · intro data
    have heavy : hweight32 b ≠ 1 := fun one => by
      obtain ⟨k, power⟩ := here.1 one
      exact data k power
    simp only [skipParity, if_neg heavy]
  · rintro ⟨k, rfl⟩
    have heavy : hweight32 (2 ^ k + 1) ≠ 1 := fun one => by
      obtain ⟨j, power⟩ := next.1 one
      have wide : 2 ^ (k + 1) = 2 ^ k * 2 := pow_succ 2 k
      exact ne_two_pow (p := k + 1) (by simp) (by omega) j power
    simp only [skipParity, if_pos (here.2 ⟨k, rfl⟩), if_neg heavy]

/-! ## Encoding and fixing -/

theorem hammingLoop_eq {p nr : Nat} (below : ∀ q < p, 2 ^ q < nr + 2 + q) (parity : Nat)
    (data : List Bool) : hammingLoop parity nr p data = parity ^^^ syndrome codeBit nr data := by
  induction data generalizing parity nr p with
  | nil => simp [hammingLoop, syndrome]
  | cons bit data inductionHypothesis =>
      obtain ⟨code, bits⟩ := calcCodeBit_of_cache below
      cases bit with
      | false =>
          have later : ∀ q < p, 2 ^ q < nr + 1 + 2 + q := fun q less => by
            have low := below q less
            omega
          simp [hammingLoop, syndrome, inductionHypothesis later]
      | true =>
          have later : ∀ q < (calcCodeBit nr p).2, 2 ^ q < nr + 1 + 2 + q := fun q less => by
            have low := bits.below q less
            omega
          simp only [hammingLoop, syndrome, if_true]
          rw [inductionHypothesis later, code, Nat.xor_assoc]

/-- The encoder adds the positions of the set bits. -/
theorem ocfs2HammingEncode_eq (parity : Nat) (data : List Bool) (nr : Nat) :
    ocfs2HammingEncode parity data nr = parity ^^^ syndrome codeBit nr data :=
  hammingLoop_eq (fun _ less => absurd less (Nat.not_lt_zero _)) parity data

theorem ocfs2HammingEncodeBlock_eq (data : List Bool) :
    ocfs2HammingEncodeBlock data = syndrome codeBit 0 data := by
  simp only [ocfs2HammingEncodeBlock]
  rw [ocfs2HammingEncode_eq, Nat.zero_xor]

theorem hammingFixLoop_eq {nr b : Nat} {data : List Bool} (fix : Nat)
    (small : codeBit (nr + data.length) < 2 ^ 32)
    (next : data ≠ [] → skipParity 32 b = codeBit nr) :
    hammingFixLoop fix b data = correct codeBit nr fix data := by
  induction data generalizing nr b with
  | nil => rfl
  | cons bit data inductionHypothesis =>
      rw [List.length_cons, ← Nat.add_assoc, Nat.add_right_comm] at small
      simp only [hammingFixLoop, correct]
      rw [next (List.cons_ne_nil _ _), inductionHypothesis small fun some => ?_]
      have length : 0 < data.length := List.length_pos_of_ne_nil some
      have three := three_le_codeBit nr
      have high : codeBit (nr + 1) < codeBit (nr + 1 + data.length) :=
        codeBit_strictMono (by omega)
      rcases codeBit_succ nr with ⟨code, ordinary⟩ | ⟨code, parity⟩
      · rw [code]
        exact (skipParity_eq (by omega) (by omega)).1 ordinary
      · rw [code]
        exact (skipParity_eq (by omega) (by omega)).2 parity

@[simp] theorem length_ocfs2HammingFix (data : List Bool) (nr fix : Nat) :
    (ocfs2HammingFix data nr fix).length = data.length := by
  have loop : ∀ (data : List Bool) (b : Nat), (hammingFixLoop fix b data).length = data.length := by
    intro data
    induction data with
    | nil => exact fun _ => rfl
    | cons bit data inductionHypothesis =>
        intro b
        simp only [hammingFixLoop]
        split
        · rfl
        · rw [List.length_cons, inductionHypothesis, List.length_cons]
  simp only [ocfs2HammingFix]
  split
  · rfl
  · split
    · rfl
    · split
      · rfl
      · exact loop data _

/-- The fix flips the bit with the given position and nothing else. -/
theorem ocfs2HammingFix_eq {data : List Bool} {nr fix : Nat}
    (small : codeBit (nr + data.length) < 2 ^ 32) (small' : fix < 2 ^ 32) :
    ocfs2HammingFix data nr fix = correct codeBit nr fix data := by
  simp only [ocfs2HammingFix]
  split
  · next parity =>
      obtain ⟨k, rfl⟩ := (hweight32_eq_one_iff small').1 parity
      exact (correct_eq_self fun i _ => codeBit_ne_two_pow (nr + i) k).symm
  · split
    · next behind =>
        refine (correct_eq_self fun i inside same => ?_).symm
        have less : codeBit (nr + i) < codeBit (nr + data.length) :=
          codeBit_strictMono (by omega)
        have behind : codeBit (nr + data.length) ≤ fix := behind
        omega
    · split
      · next before =>
          refine (correct_eq_self fun i _ same => ?_).symm
          have more : codeBit nr ≤ codeBit (nr + i) :=
            codeBit_strictMono.monotone (Nat.le_add_right _ _)
          have before : fix < codeBit nr := before
          omega
      · refine hammingFixLoop_eq fix small fun some => ?_
        have length : 0 < data.length := List.length_pos_of_ne_nil some
        have less : codeBit nr < codeBit (nr + data.length) := codeBit_strictMono (by omega)
        exact (skipParity_eq (three_le_codeBit nr) (by omega)).1 (codeBit_ne_two_pow nr)

/-- The check bits of so much data have `k` bits. -/
theorem syndrome_codeBit_lt {data : List Bool} {k nr : Nat}
    (fits : nr + data.length + 1 + k ≤ 2 ^ k) : syndrome codeBit nr data < 2 ^ k := by
  induction data generalizing nr with
  | nil => exact Nat.two_pow_pos k
  | cons bit data inductionHypothesis =>
      rw [List.length_cons] at fits
      simp only [syndrome]
      refine Nat.xor_lt_two_pow ?_ (inductionHypothesis (by omega))
      split
      · exact codeBit_lt (by omega)
      · exact Nat.two_pow_pos k

end Ocfs2Coverage.Driver
