import Ocfs2Coverage.Source.Classifier

/-!
Contract: what `is_code_line` makes of the beginning of a line.

Owns: the comments at the beginning, the text behind them, and the texts that are no
code.

Does not own: what C makes of the line.
-/

namespace Ocfs2Coverage.Source

open Ocfs2Coverage.Python

section Leading

variable [UnicodeData]

/-! ## Lines that are not code -/

/-- A type that is declared or opened here. -/
def isTypeText (w : Str) : Bool :=
  (startswith w "typedef ".toList || startswith w "struct ".toList ||
      startswith w "enum ".toList) && (endswith w ";".toList || endswith w "\x7b".toList)

def isLabelText (w : Str) : Bool := startswith w "case ".toList || startswith w "default:".toList

/-- The texts that are no code. -/
inductive Inert (w : Str) : Prop where
  | empty (none : w = [])
  | directive (hash : startswith w "#".toList = true)
  | alone (listed : w ∈ ["\x7b".toList, "\x7d".toList, "\x7d;".toList, "else".toList,
      "else \x7b".toList, "do \x7b".toList, "do".toList])
  | type (declared : isTypeText w = true)
  | continued (backslash : endswith w "\\".toList = true)
  | signature (noLabel : isLabelText w = false) (found : funcRe.isMatch w = true)
      (opens : endswith w ";".toList = false)
  | commentTail (noLabel : isLabelText w = false)
      (star : (startswith w "*".toList && !startswith w "*ptr".toList &&
        !startswith w "*p".toList && endswith w "*/".toList) = true)

theorem inert_iff {w : Str} : Inert w ↔ isExecutableText w = false := by
  have unfolded : isExecutableText w =
      if w.isEmpty then false
      else if startswith w "#".toList then false
      else if ["\x7b".toList, "\x7d".toList, "\x7d;".toList, "else".toList, "else \x7b".toList,
          "do \x7b".toList, "do".toList].contains w then false
      else if isTypeText w then false
      else if endswith w "\\".toList then false
      else if isLabelText w then true
      else if funcRe.isMatch w && !endswith w ";".toList then false
      else if startswith w "*".toList && !startswith w "*ptr".toList &&
          !startswith w "*p".toList && endswith w "*/".toList then false
      else true := rfl
  rw [unfolded]
  constructor
  · intro inert
    cases inert with
    | empty none => rw [if_pos (List.isEmpty_iff.2 none)]
    | directive hash => rw [if_pos hash, ite_self]
    | alone listed =>
        rw [if_pos (List.contains_iff_mem.2 listed)]
        simp only [ite_self]
    | type declared =>
        rw [if_pos declared]
        simp only [ite_self]
    | continued backslash =>
        rw [if_pos backslash]
        simp only [ite_self]
    | signature noLabel found opens =>
        rw [noLabel, found, opens]
        simp only [Bool.not_false, Bool.and_self, if_true, Bool.false_eq_true, if_false, ite_self]
    | commentTail noLabel star =>
        rw [noLabel, star]
        simp only [if_true, Bool.false_eq_true, if_false, ite_self]
  · intro dead
    by_cases empty : w.isEmpty = true
    · exact .empty (List.isEmpty_iff.1 empty)
    rw [if_neg empty] at dead
    by_cases hash : startswith w "#".toList = true
    · exact .directive hash
    rw [if_neg hash] at dead
    by_cases listed : ["\x7b".toList, "\x7d".toList, "\x7d;".toList, "else".toList,
        "else \x7b".toList, "do \x7b".toList, "do".toList].contains w = true
    · exact .alone (List.contains_iff_mem.1 listed)
    rw [if_neg listed] at dead
    by_cases declared : isTypeText w = true
    · exact .type declared
    rw [if_neg declared] at dead
    by_cases backslash : endswith w "\\".toList = true
    · exact .continued backslash
    rw [if_neg backslash] at dead
    by_cases label : isLabelText w = true
    · rw [if_pos label] at dead
      cases dead
    rw [if_neg label] at dead
    have noLabel := Bool.eq_false_iff.2 label
    by_cases found : (funcRe.isMatch w && !endswith w ";".toList) = true
    · rw [Bool.and_eq_true, Bool.not_eq_true'] at found
      exact .signature noLabel found.1 found.2
    rw [if_neg found] at dead
    by_cases star : (startswith w "*".toList && !startswith w "*ptr".toList &&
        !startswith w "*p".toList && endswith w "*/".toList) = true
    · exact .commentTail noLabel star
    rw [if_neg star] at dead
    cases dead

/-- What stands on a line behind the comments at its beginning; `comment` when one is
open before it. -/
def codePart (comment : Bool) (s : Str) : Option Str :=
  (if comment then (splitOnce "*/".toList s).map fun parts => strip parts.2 else some s).bind
    fun t => match skipComments (t.length + 1) t with
      | .code w => some w
      | _ => none

theorem isCodeLine_eq (s : Str) (comment : Bool) :
    (isCodeLine s comment).1 = (codePart comment s).any isExecutableText := by
  have rest : ∀ t : Str, (isCodeLineFrom t).1 =
      ((some t).bind fun t => match skipComments (t.length + 1) t with
        | .code w => some w
        | _ => none).any isExecutableText := by
    intro t
    simp only [isCodeLineFrom, Option.bind_some]
    cases skipComments (t.length + 1) t with
    | lineComment => rfl
    | openComment => rfl
    | code w => rfl
  simp only [isCodeLine, codePart]
  cases comment with
  | false => exact rest s
  | true =>
      cases splitOnce "*/".toList s with
      | none => rfl
      | some parts => exact rest (strip parts.2)

/-- A line is no code when what stands on it is none. -/
theorem dead_iff_inert {s : Str} {comment : Bool} :
    (isCodeLine s comment).1 = false ↔ ∀ w, codePart comment s = some w → Inert w := by
  rw [isCodeLine_eq]
  cases codePart comment s with
  | none => exact ⟨(fun _ w none => by cases none), fun _ => rfl⟩
  | some w =>
      constructor
      · intro dead v equal
        cases equal
        exact inert_iff.2 dead
      · exact fun inert => inert_iff.1 (inert w rfl)

/-! ## What is skipped on purpose -/

/-- The words that statements of C begin with; no function head does. -/
def statementWords : List Str :=
  ["if".toList, "else".toList, "for".toList, "while".toList, "do".toList, "switch".toList,
    "case".toList, "default".toList, "return".toList, "goto".toList, "break".toList,
    "continue".toList]

/-- A statement, such as `else if (x)`, that `FUNC_RE` takes for the head of a function. -/
def HeadByAccident (w : Str) : Prop :=
  w.takeWhile isWordChar ∈ statementWords ∧ funcRe.isMatch w = true ∧
    endswith w ";".toList = false

/-- What the tests of `is_code_line` are there to skip. -/
def SkippedByDesign (w : Str) : Prop := Inert w ∧ ¬ HeadByAccident w

/-- Any other text is executable. -/
theorem isExecutableText_of_meant {w : Str} (meant : ¬ SkippedByDesign w)
    (plain : ¬ HeadByAccident w) : isExecutableText w = true := by
  rw [← Bool.not_eq_false, ← inert_iff]
  exact fun inert => meant ⟨inert, plain⟩

/-! ## Comments that stay open -/

/-- Behind complete comments the text begins one that is not closed. -/
inductive LeftOpen : Str → Prop where
  | here {s : Str} (opens : startswith s "/*".toList = true) (absent : splitOnce "*/".toList s = none) :
      LeftOpen s
  | behind {s : Str} {parts : Str × Str} (opens : startswith s "/*".toList = true)
      (closes : splitOnce "*/".toList s = some parts) (later : LeftOpen (strip parts.2)) : LeftOpen s

/-- One round over the comments a text begins with. -/
theorem isCodeLineFrom_eq (s : Str) :
    isCodeLineFrom s =
      if startswith s "//".toList then (false, false)
      else if startswith s "/*".toList then
        match splitOnce "*/".toList s with
        | some parts => isCodeLineFrom (strip parts.2)
        | none => (false, true)
      else (isExecutableText s, false) := by
  simp only [isCodeLineFrom]
  rw [skipComments_eq]
  by_cases line : startswith s "//".toList = true
  · rw [if_pos line, if_pos line]
  · rw [if_neg line, if_neg line]
    by_cases block : startswith s "/*".toList = true
    · rw [if_pos block, if_pos block]
      cases splitOnce "*/".toList s with
      | some parts => rfl
      | none => rfl
    · rw [if_neg block, if_neg block]

/-- The flag behind a text outside comments. -/
theorem isCodeLineFrom_open_iff {s : Str} : (isCodeLineFrom s).2 = true ↔ LeftOpen s := by
  induction size : s.length using Nat.strong_induction_on generalizing s with
  | _ n inductionHypothesis =>
  rw [isCodeLineFrom_eq]
  by_cases line : startswith s "//".toList = true
  · have noBlock : ¬ startswith s "/*".toList = true := by
      intro block
      obtain ⟨rest, rfl⟩ := startswith_iff.1 line
      cases block
    rw [if_pos line]
    constructor
    · intro off
      cases off
    · intro left
      cases left with
      | here opens _ => exact absurd opens noBlock
      | behind opens _ _ => exact absurd opens noBlock
  · rw [if_neg line]
    by_cases block : startswith s "/*".toList = true
    · rw [if_pos block]
      cases found : splitOnce "*/".toList s with
      | none => exact ⟨fun _ => .here block found, fun _ => rfl⟩
      | some parts =>
          have shorter : (strip parts.2).length < n := by
            have counted := congrArg List.length (splitOnce_eq_some found)
            rw [List.length_append, List.length_append] at counted
            have tail := length_strip_le parts.2
            have sep : "*/".toList.length = 2 := rfl
            omega
          have later := inductionHypothesis _ shorter rfl
          constructor
          · exact fun stays => .behind block found (later.1 stays)
          · intro left
            cases left with
            | here _ absent =>
                rw [found] at absent
                cases absent
            | behind _ closes inner =>
                rw [found] at closes
                cases closes
                exact later.2 inner
    · rw [if_neg block]
      constructor
      · intro off
        cases off
      · intro left
        cases left with
        | here opens _ => exact absurd opens block
        | behind opens _ _ => exact absurd opens block

/-- The flag behind any line: a comment open before it stays open, or one at the
beginning of what follows it. -/
theorem isCodeLine_open_iff {s : Str} {comment : Bool} :
    (isCodeLine s comment).2 = true ↔
      ∀ t ∈ (if comment then (splitOnce "*/".toList s).map fun parts => strip parts.2 else some s),
        LeftOpen t := by
  cases comment with
  | false =>
      rw [if_neg Bool.false_ne_true]
      simp only [Option.mem_def, Option.some_inj, forall_eq']
      exact isCodeLineFrom_open_iff
  | true =>
      simp only [isCodeLine, if_true]
      cases splitOnce "*/".toList s with
      | none => exact ⟨(fun _ t none => by cases none), fun _ => rfl⟩
      | some parts =>
          simp only [Option.map_some, Option.mem_def, Option.some_inj, forall_eq']
          exact isCodeLineFrom_open_iff

end Leading

end Ocfs2Coverage.Source
