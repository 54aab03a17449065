import Mathlib.Data.Rat.Floor
import Ocfs2Coverage.Python.Integer

/-!
Contract: the parts of the Python runtime the program uses without defining them.

Owns: floating-point arithmetic and SHA-256 as parameters, an exact arithmetic
that can take the place of the former, and the integer read from the first
bytes of a digest.

No law is assumed: what is proved holds for every arithmetic and every hash.
-/

namespace Ocfs2Coverage.Python

/-- The operations on `float` values the program performs. -/
class FloatOps (F : Type) where
  /-- A literal, given by the rational number it denotes. -/
  lit : ℚ → F
  ofInt : Int → F
  neg : F → F
  add : F → F → F
  mul : F → F → F
  div : F → F → F
  lt : F → F → Bool
  eq : F → F → Bool
  /-- The built-in `sum`. -/
  sum : List F → F
  /-- `int(round(x))`. -/
  round : F → Int
  /-- `round(x, 2)`. -/
  round2 : F → F
  /-- `int(x)`; `none` for an infinity or a NaN. -/
  trunc : F → Option Int
  /-- `float(s)`. -/
  ofStr : Str → Option F

/-- The runtime: its Unicode database, its floats and `hashlib.sha256(...).digest()`. -/
class Runtime extends UnicodeData where
  Float : Type
  ops : FloatOps Float
  sha256 : Str → List UInt8

attribute [reducible, instance] Runtime.ops

namespace FloatOps

variable {F : Type} [FloatOps F]

/-- `min(x, y)`: the first argument unless the second is smaller. -/
def min (x y : F) : F := if lt y x then y else x

/-- `max(x, y)`: the first argument unless the second is larger. -/
def max (x y : F) : F := if lt x y then y else x

/-- `n * x` with an integer `n`. -/
def scale (n : Int) (x : F) : F := mul (ofInt n) x

end FloatOps

/-! ## Exact arithmetic -/

/-- Round half to even. -/
def roundHalfEven (q : ℚ) : Int :=
  let below := ⌊q⌋
  if q - below < 1 / 2 then below
  else if q - below = 1 / 2 then if below % 2 = 0 then below else below + 1
  else below + 1

/-- A decimal literal without an exponent. -/
def ratOfStr [UnicodeData] (s : Str) : Option ℚ :=
  let whole := s.takeWhile (· != '.')
  let fraction := (s.dropWhile (· != '.')).drop 1
  match intOfStr whole, natOfStr ('0' :: fraction) with
  | some n, some m =>
      let part : ℚ := m / 10 ^ fraction.length
      some (if startswith (strip whole) "-".toList then n - part else n + part)
  | _, _ => none

/-- Floats without rounding error. -/
@[reducible] def exactOps [UnicodeData] : FloatOps ℚ where
  lit := id
  ofInt := fun n => n
  neg := fun x => -x
  add := fun x y => x + y
  mul := fun x y => x * y
  div := fun x y => x / y
  lt := fun x y => decide (x < y)
  eq := fun x y => decide (x = y)
  sum := fun values => values.foldl (fun total x => total + x) 0
  round := roundHalfEven
  round2 := fun x => roundHalfEven (x * 100) / 100
  trunc := fun x => some (if x < 0 then -⌊-x⌋ else ⌊x⌋)
  ofStr := ratOfStr


/-! ## Digests -/

/-- `int.from_bytes(digest[:count], "big")`. -/
def leadingBytes (count : Nat) (digest : List UInt8) : Nat :=
  (digest.take count).foldl (fun value byte => 256 * value + byte.toNat) 0

/-- The `count` bytes of a number, the most significant one first. -/
def toBytes : Nat → Nat → List UInt8
  | 0, _ => []
  | count + 1, n => UInt8.ofNat (n / 256 ^ count) :: toBytes count n

/-- Exact floats, ASCII text and the digests of a table. -/
@[reducible] def tableRuntime (digests : List (Str × Nat)) : Runtime :=
  { asciiUnicode with
    Float := ℚ
    ops := @exactOps asciiUnicode
    sha256 := fun text => toBytes 32 ((digests.lookup text).getD 0) }

end Ocfs2Coverage.Python
