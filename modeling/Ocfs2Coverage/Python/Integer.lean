import Ocfs2Coverage.Python.Text

/-!
Contract: `int(s)` and `str(n)` of the Python runtime.

Owns: the grammar `int` accepts (surrounding whitespace, a sign, digits with
single underscores between them, decimal digits of any script), the decimal
rendering, and the round trip from an integer through its rendering.

The optional limit on the number of digits of a conversion is off.
-/

namespace Ocfs2Coverage.Python

variable [UnicodeData]

/-! ## Reading -/

/-- The value of one decimal digit. -/
def decimalValue (c : Char) : Option Nat :=
  if c.val < 128 then
    if c.isDigit then some (c.toNat - '0'.toNat) else none
  else (UnicodeData.decimal c).map Fin.val

/-- Digits with single underscores between them, after the digits of `acc`. -/
def digitsValue (acc : Nat) : Str → Option Nat
  | [] => some acc
  | '_' :: c :: rest =>
      match decimalValue c with
      | some digit => digitsValue (10 * acc + digit) rest
      | none => none
  | c :: rest =>
      match decimalValue c with
      | some digit => digitsValue (10 * acc + digit) rest
      | none => none

/-- An unsigned literal starts with a digit. -/
def natOfStr : Str → Option Nat
  | [] => none
  | c :: rest =>
      match decimalValue c with
      | some digit => digitsValue digit rest
      | none => none

/-- `int(s)`; `none` is a `ValueError`. -/
def intOfStr (s : Str) : Option Int :=
  match strip s with
  | '+' :: digits => (natOfStr digits).map fun n => (n : Int)
  | '-' :: digits => (natOfStr digits).map fun n => -(n : Int)
  | digits => (natOfStr digits).map fun n => (n : Int)

/-! ## Writing -/

def strOfNat (n : Nat) : Str := Nat.toDigits 10 n

/-- `str(n)`. -/
def strOfInt : Int → Str
  | .ofNat n => strOfNat n
  | .negSucc n => '-' :: strOfNat (n + 1)

/-! ## Round trip -/

theorem decimalValue_of_isDigit {c : Char} (digit : c.isDigit = true) :
    decimalValue c = some (c.toNat - '0'.toNat) := by
  have ascii : c.val < 128 := by
    simp only [Char.isDigit, Bool.and_eq_true, decide_eq_true_eq] at digit
    have upper : c.val ≤ 57 := digit.2
    exact UInt32.lt_of_le_of_lt upper (by decide)
  simp [decimalValue, ascii, digit]

omit [UnicodeData] in
theorem isDigit_of_mem_strOfNat {n : Nat} {c : Char} (member : c ∈ strOfNat n) :
    c.isDigit = true :=
  Nat.isDigit_of_mem_toDigits (by decide) (by decide) member

omit [UnicodeData] in
theorem notMem_strOfNat {c : Char} (other : c.isDigit = false) (n : Nat) : c ∉ strOfNat n := by
  intro member
  rw [isDigit_of_mem_strOfNat member] at other
  cases other

omit [UnicodeData] in
private theorem isDigit_plain {c : Char} (digit : c.isDigit = true) :
    c ≠ '_' ∧ c ≠ '+' ∧ c ≠ '-' := by
  refine ⟨?_, ?_, ?_⟩ <;> rintro rfl <;> exact absurd digit (by decide)

omit [UnicodeData] in
theorem isSpace_of_isDigit {c : Char} (digit : c.isDigit = true) : isSpace c = false := by
  have noDigit : ∀ d ∈ spaceChars, d.isDigit = false := by decide
  by_contra space
  have member : c ∈ spaceChars := by simpa [isSpace] using space
  simp [noDigit c member] at digit

theorem digitsValue_of_isDigit (acc : Nat) (s : Str) (digits : ∀ c ∈ s, c.isDigit = true) :
    digitsValue acc s = some (Nat.ofDigitChars 10 s acc) := by
  induction s generalizing acc with
  | nil => simp [digitsValue]
  | cons c rest inductionHypothesis =>
      have head := digits c (by simp)
      have tail := inductionHypothesis (10 * acc + (c.toNat - '0'.toNat))
        fun d member => digits d (by simp [member])
      rw [digitsValue]
      · rw [decimalValue_of_isDigit head, Nat.ofDigitChars_cons]
        exact tail
      · intro d r equal
        exact absurd equal (isDigit_plain head).1

theorem natOfStr_strOfNat (n : Nat) : natOfStr (strOfNat n) = some n := by
  have digits : ∀ c ∈ strOfNat n, c.isDigit = true := fun c => isDigit_of_mem_strOfNat
  have value : Nat.ofDigitChars 10 (strOfNat n) 0 = n := Nat.ofDigitChars_ten_toDigits
  cases shape : strOfNat n with
  | nil => exact absurd shape Nat.toDigits_ne_nil
  | cons c rest =>
      rw [shape] at digits value
      rw [Nat.ofDigitChars_cons, Nat.mul_zero, Nat.zero_add] at value
      rw [natOfStr, decimalValue_of_isDigit (digits c (by simp))]
      simp only
      rw [digitsValue_of_isDigit _ rest fun d member => digits d (by simp [member]), value]

omit [UnicodeData] in
theorem strip_of_noSpace {s : Str} (plain : ∀ c ∈ s, isSpace c = false) : strip s = s := by
  simp only [strip]
  have front : s.dropWhile isSpace = s := by
    cases s with
    | nil => rfl
    | cons c rest => simp [plain c (by simp)]
  rw [front, List.rdropWhile_eq_self_iff]
  intro nonempty
  simp [plain _ (List.getLast_mem nonempty)]

theorem intOfStr_strOfInt (n : Int) : intOfStr (strOfInt n) = some n := by
  have plain : ∀ m : Nat, ∀ c ∈ strOfNat m, isSpace c = false :=
    fun m c member => isSpace_of_isDigit (isDigit_of_mem_strOfNat member)
  cases n with
  | ofNat m =>
      rw [intOfStr, strOfInt, strip_of_noSpace (plain m)]
      split
      · next digits shape =>
          have sign : '+'.isDigit = true := isDigit_of_mem_strOfNat (by rw [shape]; simp)
          exact absurd sign (by decide)
      · next digits shape =>
          have sign : '-'.isDigit = true := isDigit_of_mem_strOfNat (by rw [shape]; simp)
          exact absurd sign (by decide)
      · simp [natOfStr_strOfNat]
  | negSucc m =>
      have signed : ∀ c ∈ '-' :: strOfNat (m + 1), isSpace c = false := by
        intro c member
        rcases List.mem_cons.1 member with rfl | member
        · decide
        · exact plain (m + 1) c member
      rw [intOfStr, strOfInt, strip_of_noSpace signed]
      simp [natOfStr_strOfNat, Int.negSucc_eq]

end Ocfs2Coverage.Python
