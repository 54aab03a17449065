import Ocfs2Coverage.Python.Dict
import Ocfs2Coverage.Python.Runtime

/-!
Contract: the documents the program exchanges through `json`.

Owns: the values `json.loads` returns, their truth value, and `int` and `float`
of them.

Does not own: the layout of a document as text, which the standard library
writes and reads back. A dictionary key is stored as a string.
-/

namespace Ocfs2Coverage.Report

open Ocfs2Coverage.Python

inductive Json (F : Type) where
  | null
  | bool (value : Bool)
  | int (value : Int)
  | float (value : F)
  | str (value : Str)
  | arr (values : List (Json F))
  | obj (fields : List (Str × Json F))

namespace Json

section Values

variable [Runtime]

/-- A document over the floats of the runtime. -/
abbrev Doc : Type := Json Runtime.Float

/-- A decoded object; a repeated key keeps its last value. -/
def asDict : Doc → Option (Dict Str Doc)
  | .obj fields => some (Dict.ofItems fields)
  | _ => none

/-- `bool(v)`. -/
def truth : Doc → Bool
  | .null => false
  | .bool value => value
  | .int value => value != 0
  | .float value => !FloatOps.eq value (FloatOps.lit 0)
  | .str value => !value.isEmpty
  | .arr values => !values.isEmpty
  | .obj fields => !fields.isEmpty

/-- `int(v)`; `none` is an exception. -/
def toInt : Doc → Option Int
  | .bool value => some (if value then 1 else 0)
  | .int value => some value
  | .float value => FloatOps.trunc value
  | .str value => intOfStr value
  | _ => none

/-- `float(v)`; `none` is an exception. -/
def toFloat : Doc → Option Runtime.Float
  | .bool value => some (FloatOps.ofInt (if value then 1 else 0))
  | .int value => some (FloatOps.ofInt value)
  | .float value => some value
  | .str value => FloatOps.ofStr value
  | _ => none

/-- `data.get(key) or default`. -/
def getOr (data : Dict Str Doc) (key : Str) (default : Doc) : Doc :=
  match data.get? key with
  | some value => if value.truth then value else default
  | none => default

/-- A line table, its keys turned into strings. -/
def ofHits (hits : Dict Int Int) : Doc :=
  .obj (hits.items.map fun item => (strOfInt item.1, .int item.2))

/-- The pairs `int(k), int(v)` of an object. -/
def intItems : List (Str × Doc) → Option (List (Int × Int))
  | [] => some []
  | item :: rest =>
      match intOfStr item.1, toInt item.2, intItems rest with
      | some line, some count, some items => some ((line, count) :: items)
      | _, _, _ => none

/-- `{int(k): int(v) for k, v in hits.items()}`. -/
def toHits (fields : Dict Str Doc) : Option (Dict Int Int) :=
  (intItems fields.items).map Dict.ofItems

theorem intItems_ofHits (items : List (Int × Int)) :
    intItems (items.map fun item => (strOfInt item.1, Json.int item.2)) = some items := by
  induction items with
  | nil => rfl
  | cons item rest inductionHypothesis =>
      rw [List.map_cons, intItems, inductionHypothesis, intOfStr_strOfInt]
      rfl

theorem strOfInt_injective : Function.Injective strOfInt := by
  intro left right equal
  have read := congrArg intOfStr equal
  rw [intOfStr_strOfInt, intOfStr_strOfInt, Option.some.injEq] at read
  exact read

/-- A line table is read back as it was written. -/
theorem toHits_ofHits (hits : Dict Int Int) :
    ∃ fields, asDict (ofHits hits) = some fields ∧ toHits fields = some hits := by
  refine ⟨_, rfl, ?_⟩
  have distinct : ((hits.items.map fun item =>
      (strOfInt item.1, (Json.int item.2 : Doc))).map Prod.fst).Nodup := by
    rw [List.map_map]
    have keys := hits.nodup.map strOfInt_injective
    rw [List.map_map] at keys
    exact keys
  simp only [toHits]
  rw [Dict.items_ofItems distinct, intItems_ofHits, Option.map_some, Option.some.injEq]
  apply Dict.ext
  exact Dict.items_ofItems hits.nodup

end Values

end Json

end Ocfs2Coverage.Report
