import Ocfs2Coverage.Hits.Smoothing

/-!
Contract: reading a tracefile and finding the record of a source file.

Owns: `parse_lcov`, `match_lcov_file` and `_rel_from_sf`.

Does not own: writing tracefiles, merging.
-/

namespace Ocfs2Coverage.Trace

open Ocfs2Coverage.Python
open Ocfs2Coverage.Hits

/-- A text file: its text, decoded with replacement, and its size in bytes. -/
structure TextFile where
  text : Str
  size : Nat
deriving DecidableEq, Repr

/-- The number of bytes of a text in UTF-8. -/
def utf8Size (text : Str) : Nat := (text.map Char.utf8Size).sum

/-- `write_text(text, encoding="utf-8")`. -/
def TextFile.write (text : Str) : TextFile := ⟨text, utf8Size text⟩

/-! ## `parse_lcov` -/

section Parsing

variable [UnicodeData]

/-- The variables of the loop of `parse_lcov`. -/
structure ParseState where
  data : Dict Str LineHits
  current : Option Str

/-- `ln, hits = fields.split(",")[:2]`; `none` is the `ValueError` of one field. -/
def firstTwoFields (fields : Str) : Option (Str × Str) :=
  match fields.dropWhile (· != ',') with
  | [] => none
  | _ :: rest => some (fields.takeWhile (· != ','), rest.takeWhile (· != ','))

/-- `data[current][int(ln)] = int(hits)`. Python evaluates `int(hits)`, then
`data[current]`, which creates the entry, then `int(ln)`. -/
def addCount (data : Dict Str LineHits) (current fields : Str) : Dict Str LineHits :=
  match firstTwoFields fields with
  | none => data
  | some (ln, hits) =>
      match intOfStr hits with
      | none => data
      | some count =>
          match intOfStr ln with
          | none => data.set current (data.get current ∅)
          | some line => data.set current ((data.get current ∅).set line count)

/-- One line of the trace. -/
def parseLine (st : ParseState) (line : Str) : ParseState :=
  if startswith line "SF:".toList then
    { st with current := some (replaceChar '\\' '/' (line.drop 3)) }
  else if startswith line "DA:".toList && st.current.any (!·.isEmpty) then
    { st with data := addCount st.data (st.current.getD []) (line.drop 3) }
  else if startswith line "end_of_record".toList then
    { st with current := none }
  else st

/-- The loop of `parse_lcov`. -/
def parseLines (lines : List Str) : Dict Str LineHits :=
  (lines.foldl parseLine ⟨∅, none⟩).data

/-- `parse_lcov`; a missing file is `none`. -/
def parseLcov : Option TextFile → Dict Str LineHits
  | none => ∅
  | some file => if file.size < 64 then ∅ else parseLines (splitlines file.text)

end Parsing

/-- The first two fields; more fields may follow. -/
theorem firstTwoFields_eq {left right more : Str} (noComma : ',' ∉ left) (noComma' : ',' ∉ right)
    (ends : ∀ c ∈ more.head?, c = ',') :
    firstTwoFields (left ++ ',' :: (right ++ more)) = some (left, right) := by
  have pass : ∀ {s : Str}, ',' ∉ s → ∀ c ∈ s, (c != ',') = true := by
    intro s absent c member
    have different : c ≠ ',' := fun equal => absent (equal ▸ member)
    simpa using different
  have rest : (left ++ ',' :: (right ++ more)).dropWhile (· != ',') = ',' :: (right ++ more) := by
    rw [List.dropWhile_append_of_pos (pass noComma)]
    simp
  have first : (left ++ ',' :: (right ++ more)).takeWhile (· != ',') = left := by
    rw [List.takeWhile_append_of_pos (pass noComma)]
    simp
  have second : (right ++ more).takeWhile (· != ',') = right := by
    rw [List.takeWhile_append_of_pos (pass noComma')]
    cases more with
    | nil => simp
    | cons c more =>
        rw [ends c rfl]
        simp
  simp only [firstTwoFields]
  rw [rest, first]
  simp only [second]

/-! ## `match_lcov_file` -/

/-- `key.endswith("/" + rel) or key.endswith(rel)`. -/
def keyMatches (rel key : Str) : Bool := endswith key ('/' :: rel) || endswith key rel

/-- `match_lcov_file`: the first record whose path matches. -/
def matchLcovFile (rel : Str) (lcov : Dict Str LineHits) : Option LineHits :=
  (lcov.items.find? fun item => keyMatches rel item.1).map Prod.snd

/-- The first test implies the second: only the suffix decides. -/
theorem keyMatches_eq (rel key : Str) : keyMatches rel key = endswith key rel := by
  simp only [keyMatches]
  rw [Bool.or_eq_right_iff_imp]
  intro withSlash
  rw [endswith_iff] at withSlash ⊢
  exact (List.suffix_cons '/' rel).trans withSlash

/-! ## `_rel_from_sf` -/

/-- What follows the first occurrence of the first marker found, else the file name. -/
def relFromMarkers (s : Str) : List Str → Str
  | [] => afterLast '/' s
  | marker :: rest =>
      match splitOnce marker s with
      | some parts => parts.2
      | none => relFromMarkers s rest

/-- `_rel_from_sf`. -/
def relFromSf (sf : Str) : Str :=
  relFromMarkers (replaceChar '\\' '/' sf)
    ["/ocfs2_src/".toList, "/fs/ocfs2/".toList, "/ocfs2/".toList]

end Ocfs2Coverage.Trace
