import Ocfs2Coverage.Python.Text

/-!
Contract: which characters of a C text stand in comments.

Owns: the lexer for block comments, line comments, string and character literals,
with line splices; its state at the ends of the physical lines, and the lines on
which nothing but comments stands.

Does not own: tokens, directives, anything about programs that read C.
-/

namespace Ocfs2Coverage.CLexer

open Ocfs2Coverage.Python

/-! ## Characters -/

inductive LexState where
  /-- Outside comments and literals; `slash` when a slash was just read. -/
  | code (slash : Bool)
  | lineComment
  /-- `star` when a star was just read. -/
  | blockComment (star : Bool)
  | literal (quote : Char) (escaped : Bool)
deriving DecidableEq, Repr

def isNewline (c : Char) : Bool := c == '\n' || c == '\r'

namespace LexState

/-- One character. A literal that is not closed ends with its line. -/
def step : LexState → Char → LexState
  | .code slash, c =>
      if c = '/' then if slash then .lineComment else .code true
      else if c = '*' then if slash then .blockComment false else .code false
      else if c = '"' ∨ c = '\'' then .literal c false
      else .code false
  | .lineComment, c => if isNewline c then .code false else .lineComment
  | .blockComment star, c => if star && c == '/' then .code false else .blockComment (c == '*')
  | .literal quote escaped, c =>
      if isNewline c then .code false
      else if escaped then .literal quote false
      else if c = '\\' then .literal quote true
      else if c = quote then .code false
      else .literal quote false

def run (st : LexState) (s : Str) : LexState := s.foldl step st

@[simp] theorem run_nil (st : LexState) : st.run [] = st := rfl

@[simp] theorem run_cons (st : LexState) (c : Char) (s : Str) :
    st.run (c :: s) = (st.step c).run s := rfl

theorem run_append (st : LexState) (s t : Str) : st.run (s ++ t) = (st.run s).run t :=
  List.foldl_append

/-- Inside a block comment. -/
def inBlock : LexState → Bool
  | .blockComment _ => true
  | _ => false

/-- The character belongs to a comment, its delimiters included. -/
def comments (st : LexState) (c : Char) (next : Option Char) : Bool :=
  match st with
  | .code false => c == '/' && (next == some '/' || next == some '*')
  | .code true => c == '/' || c == '*'
  | .lineComment => true
  | .blockComment _ => true
  | .literal _ _ => false

/-- All characters that are no blanks belong to comments. -/
def onlyComments : LexState → Str → Bool
  | _, [] => true
  | st, c :: rest => (isSpace c || st.comments c rest.head?) && onlyComments (st.step c) rest

/-- The characters with a blank for every one that belongs to a comment. -/
def uncommented : LexState → Str → Str
  | _, [] => []
  | st, c :: rest =>
      (if st.comments c rest.head? then ' ' else c) :: uncommented (st.step c) rest

end LexState

/-! ## Physical lines -/

/-- The lines of a text as `str.splitlines` cuts them, each with its line break. -/
def physicalLines : Str → List (Str × Str)
  | [] => []
  | '\r' :: '\n' :: rest => ([], ['\r', '\n']) :: physicalLines rest
  | c :: rest =>
      if isLineBreak c then ([], [c]) :: physicalLines rest
      else
        match physicalLines rest with
        | [] => [([c], [])]
        | line :: lines => (c :: line.1, line.2) :: lines

theorem map_fst_physicalLines (text : Str) : (physicalLines text).map Prod.fst = splitlines text := by
  induction text using physicalLines.induct with
  | case1 => rfl
  | case2 rest inductionHypothesis =>
      rw [physicalLines, splitlines, List.map_cons, inductionHypothesis]
  | case3 c rest notReturn lineBreak inductionHypothesis =>
      rw [physicalLines, splitlines, if_pos lineBreak, if_pos lineBreak, List.map_cons,
        inductionHypothesis]
      · exact notReturn
      · exact notReturn
  | case4 c rest notReturn inside last inductionHypothesis =>
      rw [physicalLines, splitlines, if_neg inside, if_neg inside, ← inductionHypothesis, last]
      · rfl
      · exact notReturn
      · exact notReturn
  | case5 c rest notReturn inside line lines more inductionHypothesis =>
      rw [physicalLines, splitlines, if_neg inside, if_neg inside, ← inductionHypothesis, more]
      · rfl
      · exact notReturn
      · exact notReturn

theorem noBreak_physicalLines (text : Str) :
    ∀ line ∈ physicalLines text, ∀ c ∈ line.1, isLineBreak c = false := by
  induction text using physicalLines.induct with
  | case1 => exact fun line member => by cases member
  | case2 rest inductionHypothesis =>
      rw [physicalLines, List.forall_mem_cons]
      exact ⟨(fun c member => by cases member), inductionHypothesis⟩
  | case3 c rest notReturn lineBreak inductionHypothesis =>
      rw [physicalLines, if_pos lineBreak, List.forall_mem_cons]
      · exact ⟨(fun c member => by cases member), inductionHypothesis⟩
      · exact notReturn
  | case4 c rest notReturn inside last inductionHypothesis =>
      rw [physicalLines, if_neg inside, last, List.forall_mem_singleton]
      · intro d member
        rw [List.mem_singleton.1 member]
        exact Bool.eq_false_iff.2 inside
      · exact notReturn
  | case5 c rest notReturn inside line lines more inductionHypothesis =>
      rw [more, List.forall_mem_cons] at inductionHypothesis
      rw [physicalLines, if_neg inside, more, List.forall_mem_cons]
      · refine ⟨?_, inductionHypothesis.2⟩
        rw [List.forall_mem_cons]
        exact ⟨Bool.eq_false_iff.2 inside, inductionHypothesis.1⟩
      · exact notReturn

theorem blank_of_lineBreak {c : Char} (lineBreak : isLineBreak c = true) : isSpace c = true := by
  have all : ∀ c ∈ lineBreakChars, isSpace c = true := by decide
  exact all c (by simpa [isLineBreak] using lineBreak)

theorem break_physicalLines (text : Str) :
    ∀ line ∈ physicalLines text, ∀ c ∈ line.2, isSpace c = true := by
  induction text using physicalLines.induct with
  | case1 => exact fun line member => by cases member
  | case2 rest inductionHypothesis =>
      rw [physicalLines, List.forall_mem_cons]
      exact ⟨by decide, inductionHypothesis⟩
  | case3 c rest notReturn lineBreak inductionHypothesis =>
      rw [physicalLines, if_pos lineBreak, List.forall_mem_cons]
      · rw [List.forall_mem_singleton]
        exact ⟨blank_of_lineBreak lineBreak, inductionHypothesis⟩
      · exact notReturn
  | case4 c rest notReturn inside last inductionHypothesis =>
      rw [physicalLines, if_neg inside, last, List.forall_mem_singleton]
      · exact fun d member => by cases member
      · exact notReturn
  | case5 c rest notReturn inside line lines more inductionHypothesis =>
      rw [more, List.forall_mem_cons] at inductionHypothesis
      rw [physicalLines, if_neg inside, more, List.forall_mem_cons]
      · exact inductionHypothesis
      · exact notReturn

/-! ## Line ends -/

/-- A backslash right before a newline joins the line to the next one. -/
def spliced (line : Str × Str) : Bool := endswith line.1 ['\\'] && line.2.any isNewline

/-- The characters of a line that are lexed. -/
def lexedPart (line : Str × Str) : Str := if spliced line then line.1.dropLast else line.1

namespace LexState

/-- The state at the end of a line, before its line break. -/
def lineEnd (st : LexState) (line : Str × Str) : LexState := st.run (lexedPart line)

/-- The state at the start of the next line. -/
def nextLine (st : LexState) (line : Str × Str) : LexState :=
  if spliced line then st.lineEnd line else (st.lineEnd line).run line.2

end LexState

/-- The state behind some lines of a text. -/
def lexLines (lines : List (Str × Str)) : LexState := lines.foldl LexState.nextLine (.code false)

/-! ## Block comments -/

theorem closes_iff {c : Char} {rest : Str} :
    startswith (c :: rest) "*/".toList = true ↔ c = '*' ∧ ∃ tail, rest = '/' :: tail := by
  rw [startswith_iff]
  constructor
  · intro ⟨tail, shape⟩
    have both := List.cons.inj shape
    exact ⟨both.1.symm, tail, both.2.symm⟩
  · rintro ⟨rfl, tail, rfl⟩
    exact ⟨tail, rfl⟩

namespace LexState

theorem step_star {d : Char} (other : d ≠ '/') :
    (blockComment true).step d = (blockComment false).step d := by
  simp [step, other]

/-- A star that is not followed by a slash leaves no trace. -/
theorem run_step_block {c d : Char} {rest : Str}
    (stays : ¬ startswith (c :: d :: rest) "*/".toList = true) :
    ((blockComment false).step c).run (d :: rest) = (blockComment false).run (d :: rest) ∧
      onlyComments ((blockComment false).step c) (d :: rest) =
        onlyComments (blockComment false) (d :: rest) := by
  by_cases star : c = '*'
  · have other : d ≠ '/' := by
      rintro rfl
      exact stays (closes_iff.2 ⟨star, rest, rfl⟩)
    have step : (blockComment false).step c = blockComment true := by
      rw [star]
      rfl
    have comment : ∀ flag next, (blockComment flag).comments d next = true := fun _ _ => rfl
    rw [step, run_cons, run_cons, onlyComments, onlyComments, step_star other, comment, comment]
    exact ⟨rfl, rfl⟩
  · have step : (blockComment false).step c = blockComment false := by
      simp [LexState.step, star]
    rw [step]
    exact ⟨rfl, rfl⟩

/-- A block comment runs to the first `*/`. -/
theorem run_block_of_some {s before after : Str}
    (found : splitOnce "*/".toList s = some (before, after)) :
    (blockComment false).run s = (code false).run after ∧
      onlyComments (blockComment false) s = onlyComments (code false) after := by
  induction s generalizing before with
  | nil => cases found
  | cons c rest inductionHypothesis =>
      simp only [splitOnce] at found
      by_cases closes : startswith (c :: rest) "*/".toList = true
      · rw [if_pos closes] at found
        obtain ⟨rfl, tail, rfl⟩ := closes_iff.1 closes
        have same : tail = after := congrArg Prod.snd (Option.some.inj found)
        rw [← same]
        simp [step, onlyComments, comments]
      · rw [if_neg closes] at found
        cases later : splitOnce "*/".toList rest with
        | none =>
            rw [later] at found
            cases found
        | some parts =>
            rw [later] at found
            have same : parts.2 = after := congrArg Prod.snd (Option.some.inj found)
            have inside : splitOnce "*/".toList rest = some (parts.1, after) := by
              rw [later, ← same]
            have inner := inductionHypothesis inside
            cases rest with
            | nil => cases later
            | cons d rest =>
                have step := run_step_block closes
                rw [run_cons, onlyComments, step.1, step.2, inner.1, inner.2]
                simp [comments]

/-- Without one it does not end. -/
theorem run_block_of_none {s : Str} (absent : splitOnce "*/".toList s = none) :
    ((blockComment false).run s).inBlock = true ∧ onlyComments (blockComment false) s = true := by
  induction s with
  | nil => exact ⟨rfl, rfl⟩
  | cons c rest inductionHypothesis =>
      simp only [splitOnce] at absent
      by_cases closes : startswith (c :: rest) "*/".toList = true
      · rw [if_pos closes] at absent
        cases absent
      · rw [if_neg closes, Option.map_eq_none_iff] at absent
        have inner := inductionHypothesis absent
        cases rest with
        | nil => simp [step, onlyComments, comments, inBlock]
        | cons d rest =>
            have step := run_step_block closes
            rw [run_cons, onlyComments, step.1, step.2, inner.1, inner.2]
            simp [comments]

/-! ## Line comments and blanks -/

theorem run_lineComment {s : Str} (oneLine : ∀ c ∈ s, isNewline c = false) :
    lineComment.run s = lineComment ∧ onlyComments lineComment s = true := by
  induction s with
  | nil => exact ⟨rfl, rfl⟩
  | cons c rest inductionHypothesis =>
      rw [List.forall_mem_cons] at oneLine
      have inner := inductionHypothesis oneLine.2
      have step : lineComment.step c = lineComment := by
        simp [step, oneLine.1]
      rw [run_cons, onlyComments, step, inner.1, inner.2]
      simp [comments]

theorem ne_of_blank {c d : Char} (blank : isSpace c = true)
    (listed : d ∈ ['/', '*', '"', '\'']) : c ≠ d := by
  have solid : ∀ d ∈ ['/', '*', '"', '\''], isSpace d = false := by decide
  intro equal
  rw [equal, solid d listed] at blank
  cases blank

theorem step_blank {c : Char} (blank : isSpace c = true) (slash : Bool) :
    (code slash).step c = code false := by
  simp [step, ne_of_blank blank]

theorem step_blank_block {c : Char} (blank : isSpace c = true) :
    (blockComment false).step c = blockComment false := by
  simp [step, ne_of_blank blank]

/-- Blanks before anything, in a state that blanks do not change. -/
theorem run_blanks {st : LexState} (stays : ∀ c, isSpace c = true → st.step c = st) {blanks : Str}
    (all : ∀ c ∈ blanks, isSpace c = true) (s : Str) :
    st.run (blanks ++ s) = st.run s ∧ onlyComments st (blanks ++ s) = onlyComments st s := by
  induction blanks with
  | nil => exact ⟨rfl, rfl⟩
  | cons c blanks inductionHypothesis =>
      rw [List.forall_mem_cons] at all
      have inner := inductionHypothesis all.2
      rw [List.cons_append, run_cons, onlyComments, stays c all.1, inner.1, inner.2, all.1]
      exact ⟨rfl, Bool.true_and _⟩

theorem inBlock_step_blank {c : Char} (blank : isSpace c = true) (st : LexState) :
    (st.step c).inBlock = st.inBlock := by
  cases st with
  | code slash =>
      rw [step_blank blank slash]
      rfl
  | lineComment =>
      simp only [step]
      split
      · rfl
      · rfl
  | blockComment star => simp [step, ne_of_blank blank, inBlock]
  | literal quote escaped =>
      simp only [step]
      split_ifs <;> rfl

theorem onlyComments_blanks {blanks : Str} (all : ∀ c ∈ blanks, isSpace c = true) (st : LexState) :
    onlyComments st blanks = true := by
  induction blanks generalizing st with
  | nil => rfl
  | cons c blanks inductionHypothesis =>
      rw [List.forall_mem_cons] at all
      rw [onlyComments, all.1, inductionHypothesis all.2]
      rfl

/-- Blanks behind anything. -/
theorem run_append_blanks {blanks : Str} (all : ∀ c ∈ blanks, isSpace c = true) (st : LexState)
    (s : Str) : (st.run (s ++ blanks)).inBlock = (st.run s).inBlock ∧
      onlyComments st (s ++ blanks) = onlyComments st s := by
  have state : ∀ st : LexState, (st.run blanks).inBlock = st.inBlock := by
    induction blanks with
    | nil => exact fun _ => rfl
    | cons c blanks inductionHypothesis =>
        intro st
        rw [List.forall_mem_cons] at all
        rw [run_cons, inductionHypothesis all.2, inBlock_step_blank all.1]
  rw [run_append, state]
  refine ⟨rfl, ?_⟩
  induction s generalizing st with
  | nil => exact onlyComments_blanks all st
  | cons c rest inductionHypothesis =>
      rw [List.cons_append, onlyComments, onlyComments, inductionHypothesis]
      cases rest with
      | cons d rest => rfl
      | nil =>
          cases blanks with
          | nil => rfl
          | cons blank blanks =>
              -- A blank completes no delimiter.
              have solid := all blank (by simp)
              have same : st.comments c (some blank) = st.comments c none := by
                cases st with
                | code slash =>
                    cases slash with
                    | true => rfl
                    | false => simp [comments, ne_of_blank solid]
                | _ => rfl
              rw [List.nil_append, List.head?_cons, same]
              rfl

/-- Blanks around a text, in a state that blanks do not change. -/
theorem run_strip {st : LexState} (stays : ∀ c, isSpace c = true → st.step c = st) (s : Str) :
    (st.run (strip s)).inBlock = (st.run s).inBlock ∧
      onlyComments st (strip s) = onlyComments st s := by
  obtain ⟨left, right, shape, leftSpace, rightSpace⟩ := strip_decomposition s
  have front := run_blanks stays leftSpace (strip s ++ right)
  have back := run_append_blanks rightSpace st (strip s)
  rw [List.append_assoc] at shape
  rw [← shape] at front
  rw [front.1, front.2, back.1, back.2]
  exact ⟨rfl, rfl⟩

/-! ## Code -/

theorem inBlock_step_backslash (st : LexState) : (st.step '\\').inBlock = st.inBlock := by
  cases st with
  | code slash => rfl
  | lineComment => rfl
  | blockComment star => simp [step, inBlock]
  | literal quote escaped =>
      simp only [step]
      split_ifs <;> rfl

/-- A splice is lexed as if its backslash stood there. -/
theorem inBlock_lineEnd (st : LexState) (line : Str × Str) :
    (st.lineEnd line).inBlock = (st.run line.1).inBlock := by
  simp only [lineEnd, lexedPart]
  split
  · next joined =>
      simp only [spliced, Bool.and_eq_true] at joined
      obtain ⟨front, shape⟩ := endswith_iff.1 joined.1
      rw [← shape, List.dropLast_concat, run_append, run_cons, run_nil, inBlock_step_backslash]
  · rfl

/-- Code before any comment. -/
theorem onlyComments_code {c : Char} {rest : Str} (solid : isSpace c = false)
    (noLine : startswith (c :: rest) "//".toList = false)
    (noBlock : startswith (c :: rest) "/*".toList = false) :
    onlyComments (code false) (c :: rest) = false := by
  have noComment : (code false).comments c rest.head? = false := by
    rw [← Bool.not_eq_true]
    intro comment
    simp only [comments, Bool.and_eq_true, Bool.or_eq_true, beq_iff_eq] at comment
    obtain ⟨rfl, next⟩ := comment
    cases rest with
    | nil => simp at next
    | cons d rest =>
        simp only [List.head?_cons, Option.some.injEq] at next
        rcases next with rfl | rfl
        · cases noLine
        · cases noBlock
  rw [onlyComments, solid, noComment]
  rfl

end LexState

end Ocfs2Coverage.CLexer
