import Mathlib.Data.List.DropRight
import Mathlib.Data.List.Infix
import Mathlib.Tactic.Common

/-!
Contract: the string operations of the Python runtime, over lists of characters.

Owns: whitespace and word characters, `strip`, `splitlines`, `startswith`,
`endswith`, and the substring search behind `in`, `find` and `split(sep, 1)`.

Does not own: integers, regular expressions, dictionaries, files.

The interpreter's Unicode database is not fixed: outside ASCII the letters and
digits are parameters, and every theorem holds for any of them.
-/

namespace Ocfs2Coverage.Python

/-- A Python string: its code points in order. -/
abbrev Str := List Char

/-- A property of all characters of a string is decided on these alone. -/
instance (s : Str) (p : Char → Prop) [DecidablePred p] : Decidable (∀ c ∈ s, p c) :=
  List.decidableBAll p s

/-- What the Unicode database says outside ASCII. -/
class UnicodeData where
  /-- `str.isalnum` of one character. -/
  alnum : Char → Bool
  /-- The value of a decimal digit. -/
  decimal : Char → Option (Fin 10)

/-- A database without letters or digits outside ASCII. -/
@[reducible] def asciiUnicode : UnicodeData where
  alnum := fun _ => false
  decimal := fun _ => none

/-! ## Characters -/

/-- The characters `str.isspace` accepts; `\s` accepts the same ones. -/
def spaceChars : List Char :=
  ['\t', '\n', '\x0b', '\x0c', '\r', '\x1c', '\x1d', '\x1e', '\x1f', ' ', '\u0085', '\u00a0',
    '\u1680', '\u2000', '\u2001', '\u2002', '\u2003', '\u2004', '\u2005', '\u2006', '\u2007',
    '\u2008', '\u2009', '\u200a', '\u2028', '\u2029', '\u202f', '\u205f', '\u3000']

def isSpace (c : Char) : Bool := spaceChars.contains c

/-- `\w`: a letter, a digit or an underscore. -/
def isWordChar [UnicodeData] (c : Char) : Bool :=
  if c.val < 128 then c.isAlphanum || c == '_'
  else !isSpace c && UnicodeData.alnum c

/-- The characters at which `str.splitlines` ends a line. -/
def lineBreakChars : List Char :=
  ['\n', '\r', '\x0b', '\x0c', '\x1c', '\x1d', '\x1e', '\u0085', '\u2028', '\u2029']

def isLineBreak (c : Char) : Bool := lineBreakChars.contains c

private theorem ascii_space_not_word :
    ∀ c ∈ spaceChars, c.val < 128 → (c.isAlphanum || c == '_') = false := by
  decide

theorem isWordChar_of_isSpace [UnicodeData] {c : Char} (space : isSpace c = true) :
    isWordChar c = false := by
  simp only [isWordChar]
  split
  · next ascii =>
      exact ascii_space_not_word c (by simpa [isSpace] using space) ascii
  · simp [space]

/-! ## Prefixes, suffixes and searches -/

def startswith (s p : Str) : Bool := p.isPrefixOf s

def endswith (s p : Str) : Bool := p.isSuffixOf s

theorem startswith_iff {s p : Str} : startswith s p = true ↔ p <+: s :=
  List.isPrefixOf_iff_prefix

theorem endswith_iff {s p : Str} : endswith s p = true ↔ p <:+ s :=
  List.isSuffixOf_iff_suffix

/-- The text before and after the first occurrence of `sep`, as `s.split(sep, 1)`
returns it; `none` when `sep in s` is false. -/
def splitOnce (sep : Str) : Str → Option (Str × Str)
  | [] => if sep.isEmpty then some ([], []) else none
  | c :: rest =>
      if startswith (c :: rest) sep then
        some ([], (c :: rest).drop sep.length)
      else
        (splitOnce sep rest).map fun parts => (c :: parts.1, parts.2)

/-- `sub in s`. -/
def contains (s sub : Str) : Bool := (splitOnce sub s).isSome

theorem splitOnce_eq_some {sep s before after : Str}
    (found : splitOnce sep s = some (before, after)) : s = before ++ sep ++ after := by
  induction s generalizing before with
  | nil =>
      simp only [splitOnce] at found
      split at found
      · next empty =>
          have sepNil : sep = [] := by simpa using empty
          simp only [Option.some.injEq, Prod.mk.injEq] at found
          simp [← found.1, ← found.2, sepNil]
      · cases found
  | cons c rest inductionHypothesis =>
      simp only [splitOnce] at found
      split at found
      · next here =>
          obtain ⟨tail, shape⟩ := startswith_iff.1 here
          simp only [Option.some.injEq, Prod.mk.injEq] at found
          rw [← found.1, ← found.2, ← shape]
          simp
      · cases later : splitOnce sep rest with
        | none => simp [later] at found
        | some parts =>
            simp only [later, Option.map_some, Option.some.injEq, Prod.mk.injEq] at found
            have inner : rest = parts.1 ++ sep ++ after :=
              inductionHypothesis (by rw [later, ← found.2])
            rw [← found.1, List.cons_append, List.cons_append, ← inner]

theorem contains_singleton_iff {s : Str} {c : Char} : contains s [c] = true ↔ c ∈ s := by
  simp only [contains]
  induction s with
  | nil => simp [splitOnce]
  | cons d rest inductionHypothesis =>
      rw [splitOnce]
      by_cases same : c = d
      · simp [startswith, same]
      · simp [startswith, same, inductionHypothesis]

/-- `s.rsplit(sep, 1)[-1]` for a one-character separator. -/
def afterLast (sep : Char) (s : Str) : Str := (s.reverse.takeWhile (· != sep)).reverse

/-- `s.replace(old, new)` for single characters. -/
def replaceChar (old new : Char) (s : Str) : Str :=
  s.map fun c => if c = old then new else c

theorem replaceChar_of_notMem {old new : Char} {s : Str} (absent : old ∉ s) :
    replaceChar old new s = s := by
  simp only [replaceChar]
  conv_rhs => rw [← List.map_id s]
  refine List.map_congr_left fun c member => ?_
  have different : c ≠ old := fun equal => absent (equal ▸ member)
  simp [different]

/-- `sep.join(parts)`. -/
def join (sep : Str) (parts : List Str) : Str := sep.intercalate parts

theorem mem_join {c sep : Char} {parts : List Str} (different : c ≠ sep) :
    c ∈ join [sep] parts ↔ ∃ part ∈ parts, c ∈ part := by
  induction parts with
  | nil => simp [join]
  | cons part rest inductionHypothesis =>
      cases rest with
      | nil => simp [join]
      | cons next rest =>
          have shape : join [sep] (part :: next :: rest) =
              part ++ sep :: join [sep] (next :: rest) := by
            simp [join, List.intercalate]
          rw [shape, List.mem_append, List.mem_cons, inductionHypothesis]
          simp [different]

/-! ## Stripping -/

def strip (s : Str) : Str := (s.dropWhile isSpace).rdropWhile isSpace

/-- A string is its stripped text between two runs of whitespace. -/
theorem strip_decomposition (s : Str) :
    ∃ left right : Str, s = left ++ strip s ++ right ∧
      (∀ c ∈ left, isSpace c = true) ∧ (∀ c ∈ right, isSpace c = true) := by
  refine ⟨s.takeWhile isSpace, (s.dropWhile isSpace).rtakeWhile isSpace, ?_, ?_, ?_⟩
  · simp only [strip]
    rw [List.append_assoc, List.rdropWhile_append_rtakeWhile]
    exact (List.takeWhile_append_dropWhile).symm
  · exact fun c member => List.mem_takeWhile_imp member
  · exact fun c member => List.mem_rtakeWhile_imp member

theorem head_strip (s : Str) : ∀ c ∈ (strip s).head?, isSpace c = false := by
  intro c member
  obtain ⟨tail, shape⟩ := List.rdropWhile_prefix isSpace (s.dropWhile isSpace)
  change strip s ++ tail = _ at shape
  have head := List.head?_dropWhile_not isSpace s
  rw [← shape, List.head?_append, Option.mem_def.1 member, Option.some_or] at head
  exact head

/-- Stripping keeps the characters that are no whitespace. -/
theorem mem_strip_iff {s : Str} {c : Char} (solid : isSpace c = false) : c ∈ strip s ↔ c ∈ s := by
  obtain ⟨left, right, shape, leftSpace, rightSpace⟩ := strip_decomposition s
  have notLeft : c ∉ left := fun member => by
    rw [leftSpace c member] at solid
    cases solid
  have notRight : c ∉ right := fun member => by
    rw [rightSpace c member] at solid
    cases solid
  conv_rhs => rw [shape]
  rw [List.mem_append, List.mem_append, or_iff_left notRight, or_iff_right notLeft]

/-! ## Lines -/

/-- `str.splitlines`: the line break is dropped, `\r\n` counts once, and no empty
line follows a final break. -/
def splitlines : Str → List Str
  | [] => []
  | '\r' :: '\n' :: rest => [] :: splitlines rest
  | c :: rest =>
      if isLineBreak c then [] :: splitlines rest
      else
        match splitlines rest with
        | [] => [[c]]
        | line :: lines => (c :: line) :: lines

/-- A line without line breaks, ended by a line feed, is read back whole. -/
theorem splitlines_line (line rest : Str) (plain : ∀ c ∈ line, isLineBreak c = false) :
    splitlines (line ++ '\n' :: rest) = line :: splitlines rest := by
  induction line with
  | nil => simp [splitlines, isLineBreak, lineBreakChars]
  | cons c line inductionHypothesis =>
      have head : isLineBreak c = false := plain c (by simp)
      have notReturn : c ≠ '\r' := by
        rintro rfl
        exact absurd head (by decide)
      have tail := inductionHypothesis fun d member => plain d (by simp [member])
      rw [List.cons_append, splitlines]
      · simp [head, tail]
      · intro r equal
        exact absurd equal notReturn

end Ocfs2Coverage.Python
