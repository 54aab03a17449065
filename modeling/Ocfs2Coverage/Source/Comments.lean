import Ocfs2Coverage.CLexer
import Ocfs2Coverage.Source.Leading
import Ocfs2Coverage.Source.Stream

/-!
Contract: the comment flag of `parse_c_file` against the comments of the C text.

Owns: the flag after every line, the lines on which the classifier's tests decide as
C does, and the exact condition under which the flag is right everywhere.

Does not own: which lines of code are executable.
-/

namespace Ocfs2Coverage.Source

open Ocfs2Coverage.Python
open Ocfs2Coverage.CLexer
open Ocfs2Coverage.CLexer.LexState

section Comments

variable [UnicodeData]

/-- `in_comment` of `parse_c_file` after the lines. -/
def commentFlag (raw : List Str) : Bool :=
  raw.foldl (fun comment line => (isCodeLine (strip line) comment).2) false

/-- After every line the flag says whether C is inside a block comment, and no line
with nothing but comments on it is executable. -/
def TracksComments (text : Str) : Prop :=
  ∀ pre line post, physicalLines text = pre ++ line :: post →
    commentFlag ((pre ++ [line]).map Prod.fst) = ((lexLines pre).lineEnd line).inBlock ∧
      ((lexLines pre).onlyComments line.1 = true → pre.length + 1 ∉ (parseCFile text).execIdx)

/-! ## Lines -/

/-- `is_code_line` decides on this line as C does, when its flag is right. -/
def Judged (st : LexState) (line : Str × Str) : Prop :=
  (isCodeLine (strip line.1) st.inBlock).2 = (st.lineEnd line).inBlock ∧
    (st.onlyComments line.1 = true → (isCodeLine (strip line.1) st.inBlock).1 = false)

/-- Behind complete comments the text has a comment that begins with `/*/`. -/
inductive SlashLed : Str → Prop where
  | here (rest : Str) : SlashLed ('/' :: '*' :: '/' :: rest)
  | behind {s : Str} {parts : Str × Str} (opens : startswith s "/*".toList = true)
      (closes : splitOnce "*/".toList s = some parts) (later : SlashLed (strip parts.2)) : SlashLed s

/-- What stands on the line behind a comment that is open at its start. -/
def behindComment (st : LexState) (s : Str) : Option Str :=
  if st.inBlock then (splitOnce "*/".toList s).map fun parts => strip parts.2 else some s

/-- The line begins in code or in a block comment, with nothing carried over from the
line before, and no comment at its beginning begins with `/*/`. -/
def Ordinary (st : LexState) (line : Str × Str) : Prop :=
  (st = code false ∨ st = blockComment false) ∧
    ∀ s ∈ behindComment st (strip line.1), ¬ SlashLed s

/-- An ordinary line that ends inside a block comment has no code on it. Any other line
ends inside one exactly when the comments at its beginning leave one open, and what
stands behind them is no code when C sees comments only. -/
structure LineFine (st : LexState) (line : Str × Str) : Prop where
  ordinary : Ordinary st line → (st.lineEnd line).inBlock = true → st.onlyComments line.1 = true
  ends : ¬ Ordinary st line →
    ((st.lineEnd line).inBlock = true ↔ ∀ s ∈ behindComment st (strip line.1), LeftOpen s)
  shown : ¬ Ordinary st line → st.onlyComments line.1 = true →
    ∀ w, codePart st.inBlock (strip line.1) = some w → Inert w

/-! ## Ordinary lines -/

omit [UnicodeData] in
/-- The first `*/` of a comment that does not begin with `/*/`. -/
theorem splitOnce_block {t : Str} (noSlash : ∀ rest, t ≠ '/' :: rest) :
    splitOnce "*/".toList ('/' :: '*' :: t) =
      (splitOnce "*/".toList t).map fun parts => ('/' :: '*' :: parts.1, parts.2) := by
  have second : ¬ startswith ('*' :: t) "*/".toList = true := by
    intro closes
    obtain ⟨-, rest, equal⟩ := closes_iff.1 closes
    exact noSlash rest equal
  have first : ¬ startswith ('/' :: '*' :: t) "*/".toList = true := by
    intro closes
    exact absurd (closes_iff.1 closes).1 (by decide)
  rw [splitOnce, if_neg first, splitOnce, if_neg second, Option.map_map]
  rfl

omit [UnicodeData] in
theorem stays_code : ∀ c, isSpace c = true → (code false).step c = code false :=
  fun _ blank => step_blank blank false

/-- A text outside comments, cut like a line. -/
theorem judged_from {s : Str} (stripped : ∀ c ∈ s.head?, isSpace c = false)
    (oneLine : ∀ c ∈ s, isNewline c = false) (plain : ¬ SlashLed s) :
    ((isCodeLineFrom s).2 = ((code false).run s).inBlock ∧
        ((code false).onlyComments s = true → (isCodeLineFrom s).1 = false)) ↔
      (((code false).run s).inBlock = true → (code false).onlyComments s = true) := by
  induction size : s.length using Nat.strong_induction_on generalizing s with
  | _ n inductionHypothesis =>
  rw [isCodeLineFrom_eq]
  by_cases line : startswith s "//".toList = true
  · -- A line comment.
    obtain ⟨rest, rfl⟩ := startswith_iff.1 line
    have comment := @run_lineComment rest fun c member => oneLine c (by simp [member])
    have state : (code false).run ("//".toList ++ rest) = lineComment := comment.1
    rw [if_pos line, state]
    exact ⟨(fun _ inside => by cases inside), fun _ => ⟨rfl, fun _ => rfl⟩⟩
  · rw [if_neg line]
    by_cases block : startswith s "/*".toList = true
    · rw [if_pos block]
      obtain ⟨rest, opened⟩ := startswith_iff.1 block
      change '/' :: '*' :: rest = s at opened
      subst opened
      have state : (code false).run ('/' :: '*' :: rest) = (blockComment false).run rest := rfl
      have comment : (code false).onlyComments ('/' :: '*' :: rest) =
          (blockComment false).onlyComments rest := rfl
      have noSlash : ∀ tail, rest ≠ '/' :: tail := by
        rintro tail rfl
        exact plain (SlashLed.here tail)
      have cut := splitOnce_block noSlash
      rw [cut, state, comment]
      cases found : splitOnce "*/".toList rest with
      | none =>
          -- The comment stays open.
          have open_ := run_block_of_none found
          rw [open_.1, open_.2]
          exact ⟨fun _ _ => rfl, fun _ => ⟨rfl, fun _ => rfl⟩⟩
      | some parts =>
          -- The comment is closed, and the rest of the line is shorter.
          have shape := splitOnce_eq_some found
          have closed := run_block_of_some found
          have inner := run_strip stays_code parts.2
          have shorter : (strip parts.2).length < n := by
            have least := length_strip_le parts.2
            have counted := congrArg List.length shape
            rw [List.length_append, List.length_append] at counted
            rw [← size, List.length_cons, List.length_cons]
            omega
          have sameLine : ∀ c ∈ strip parts.2, isNewline c = false := by
            intro c member
            obtain ⟨left, right, around, -, -⟩ := strip_decomposition parts.2
            apply oneLine
            rw [shape, around]
            simp [member]
          have later : ¬ SlashLed (strip parts.2) := by
            intro led
            have closes : splitOnce "*/".toList ('/' :: '*' :: rest) =
                some ('/' :: '*' :: parts.1, parts.2) := by
              rw [cut, found]
              rfl
            exact plain (SlashLed.behind block closes led)
          rw [closed.1, closed.2, ← inner.1, ← inner.2]
          exact inductionHypothesis _ shorter (head_strip parts.2) sameLine later rfl
    · rw [if_neg block]
      cases s with
      | nil => exact ⟨(fun _ inside => by cases inside), fun _ => ⟨rfl, fun _ => rfl⟩⟩
      | cons c rest =>
          -- Code comes first, so not the whole line is comment.
          have solid := stripped c rfl
          have code := onlyComments_code solid (Bool.eq_false_iff.2 line) (Bool.eq_false_iff.2 block)
          rw [code]
          constructor
          · intro judged inside
            rw [inside] at judged
            cases judged.1
          · intro outside
            refine ⟨?_, fun all => by cases all⟩
            exact (Bool.eq_false_iff.2 fun inside => by cases outside inside).symm

omit [UnicodeData] in
theorem newline_of_noBreak {c : Char} (noBreak : isLineBreak c = false) : isNewline c = false := by
  have all : ∀ d ∈ ['\n', '\r'], isLineBreak d = true := by decide
  rw [← Bool.not_eq_true]
  intro newline
  simp only [isNewline, Bool.or_eq_true, beq_iff_eq] at newline
  rw [all c (by simp [newline])] at noBreak
  cases noBreak

/-- The classifier is right about an ordinary line unless a comment is opened behind code
and left open. -/
theorem judged_iff {st : LexState} {line : Str × Str} (ordinary : Ordinary st line)
    (oneLine : ∀ c ∈ line.1, isLineBreak c = false) :
    Judged st line ↔ ((st.lineEnd line).inBlock = true → st.onlyComments line.1 = true) := by
  have noNewline : ∀ s : Str, ∀ c ∈ strip s, c ∈ s := by
    intro s c member
    obtain ⟨left, right, around, -, -⟩ := strip_decomposition s
    rw [around]
    simp [member]
  have solid : ∀ c ∈ strip line.1, isNewline c = false :=
    fun c member => newline_of_noBreak (oneLine c (noNewline _ c member))
  simp only [Judged]
  rw [inBlock_lineEnd]
  rcases ordinary with ⟨rfl | rfl, plain⟩
  · have inner := run_strip stays_code line.1
    rw [← inner.1, ← inner.2]
    exact judged_from (head_strip line.1) solid (plain _ rfl)
  · have inner := run_strip (fun _ => step_blank_block) line.1
    rw [← inner.1, ← inner.2]
    show ((isCodeLine (strip line.1) true).2 = _ ∧ (_ → (isCodeLine (strip line.1) true).1 = _)) ↔ _
    simp only [isCodeLine, if_true]
    cases found : splitOnce "*/".toList (strip line.1) with
    | none =>
        have open_ := run_block_of_none found
        rw [open_.1, open_.2]
        exact ⟨fun _ _ => rfl, fun _ => ⟨rfl, fun _ => rfl⟩⟩
    | some parts =>
        have closed := run_block_of_some found
        have rest := run_strip stays_code parts.2
        have later : ∀ c ∈ strip parts.2, isNewline c = false := by
          intro c member
          apply solid
          rw [splitOnce_eq_some found]
          simp [noNewline _ c member]
        have behind : strip parts.2 ∈ behindComment (blockComment false) (strip line.1) := by
          show (splitOnce "*/".toList (strip line.1)).map (fun parts => strip parts.2) = _
          rw [found]
          rfl
        rw [closed.1, closed.2, ← rest.1, ← rest.2]
        exact judged_from (head_strip parts.2) later (plain _ behind)

/-! ## Other lines -/

/-- The judgement on any line, from the text on it. -/
theorem judged_iff_shown {st : LexState} {line : Str × Str} :
    Judged st line ↔
      ((st.lineEnd line).inBlock = true ↔ ∀ s ∈ behindComment st (strip line.1), LeftOpen s) ∧
        (st.onlyComments line.1 = true →
          ∀ w, codePart st.inBlock (strip line.1) = some w → Inert w) := by
  have flag : (isCodeLine (strip line.1) st.inBlock).2 = true ↔
      ∀ s ∈ behindComment st (strip line.1), LeftOpen s := isCodeLine_open_iff
  simp only [Judged]
  rw [dead_iff_inert, Bool.eq_iff_iff, flag]
  exact and_congr_left' Iff.comm

/-! ## Whole texts -/

omit [UnicodeData] in
/-- A line break changes nothing about block comments. -/
theorem inBlock_nextLine {st : LexState} {line : Str × Str}
    (lineBreak : ∀ c ∈ line.2, isSpace c = true) :
    (st.nextLine line).inBlock = (st.lineEnd line).inBlock := by
  simp only [nextLine]
  split
  · rfl
  · exact (run_append_blanks lineBreak (st.lineEnd line) []).1

theorem commentFlag_concat (raw : List Str) (line : Str) :
    commentFlag (raw ++ [line]) = (isCodeLine (strip line) (commentFlag raw)).2 := by
  simp only [commentFlag]
  rw [List.foldl_append]
  rfl

omit [UnicodeData] in
theorem inBlock_lexLines_concat {text : Str} {pre post : List (Str × Str)} {line : Str × Str}
    (shape : physicalLines text = pre ++ line :: post) :
    (lexLines (pre ++ [line])).inBlock = ((lexLines pre).lineEnd line).inBlock := by
  have listed : line ∈ physicalLines text := by
    rw [shape]
    simp
  simp only [lexLines]
  rw [List.foldl_append]
  exact inBlock_nextLine (break_physicalLines text line listed)

/-- Whether a line is executable, from the flag before it. -/
theorem mem_execIdx {text line : Str} {done rest : List Str}
    (shape : splitlines text = done ++ line :: rest) :
    done.length + 1 ∈ (parseCFile text).execIdx ↔
      (isCodeLine (strip line) (commentFlag done)).1 = true := by
  have flag : (lineStates done).comment = commentFlag done := comment_run LineState.init done
  have number := @mem_execLines _ done rest line
  rw [← shape, flag] at number
  exact number

/-- Where the flag is right before a line, it is right on the line when the classifier
judges the line as C does. -/
theorem judged_of_flag {text : Str} {pre post : List (Str × Str)} {line : Str × Str}
    (shape : physicalLines text = pre ++ line :: post)
    (flag : commentFlag (pre.map Prod.fst) = (lexLines pre).inBlock) :
    Judged (lexLines pre) line ↔
      commentFlag ((pre ++ [line]).map Prod.fst) = ((lexLines pre).lineEnd line).inBlock ∧
        ((lexLines pre).onlyComments line.1 = true → pre.length + 1 ∉ (parseCFile text).execIdx) := by
  have raw : splitlines text = pre.map Prod.fst ++ line.1 :: post.map Prod.fst := by
    rw [← map_fst_physicalLines, shape, List.map_append, List.map_cons]
  have number := mem_execIdx raw
  rw [List.length_map] at number
  rw [number, List.map_append, List.map_singleton, commentFlag_concat, flag, Bool.not_eq_true]
  exact Iff.rfl

/-- The flag is right everywhere when it is right on every line alone. -/
theorem tracksComments_iff_judged (text : Str) :
    TracksComments text ↔
      ∀ pre line post, physicalLines text = pre ++ line :: post → Judged (lexLines pre) line := by
  constructor
  · intro tracks pre line post shape
    have flag : commentFlag (pre.map Prod.fst) = (lexLines pre).inBlock := by
      rcases List.eq_nil_or_concat' pre with rfl | ⟨front, last, rfl⟩
      · rfl
      · rw [List.append_assoc] at shape
        rw [inBlock_lexLines_concat shape]
        exact (tracks front last _ shape).1
    exact (judged_of_flag shape flag).2 (tracks pre line post shape)
  · intro judged
    have flags : ∀ pre post, physicalLines text = pre ++ post →
        commentFlag (pre.map Prod.fst) = (lexLines pre).inBlock := by
      intro pre
      induction pre using List.reverseRecOn with
      | nil => exact fun _ _ => rfl
      | append_singleton front last inductionHypothesis =>
          intro post shape
          rw [List.append_assoc] at shape
          have flag := inductionHypothesis _ shape
          rw [inBlock_lexLines_concat shape]
          exact ((judged_of_flag shape flag).1 (judged front last post shape)).1
    intro pre line post shape
    exact (judged_of_flag shape (flags pre _ shape)).1 (judged pre line post shape)

/-- In every text the flag agrees with the comments of C on every line, and no line of
comments is executable, exactly when every line is fine. -/
theorem tracksComments_iff (text : Str) :
    TracksComments text ↔
      ∀ pre line post, physicalLines text = pre ++ line :: post → LineFine (lexLines pre) line := by
  rw [tracksComments_iff_judged]
  have same : ∀ pre line post, physicalLines text = pre ++ line :: post →
      (Judged (lexLines pre) line ↔ LineFine (lexLines pre) line) := by
    intro pre line post shape
    have listed : line ∈ physicalLines text := by
      rw [shape]
      simp
    have oneLine := noBreak_physicalLines text line listed
    by_cases ordinary : Ordinary (lexLines pre) line
    · rw [judged_iff ordinary oneLine]
      exact ⟨fun fine => ⟨fun _ => fine, fun other => absurd ordinary other,
        fun other => absurd ordinary other⟩, fun fine => fine.ordinary ordinary⟩
    · rw [judged_iff_shown]
      exact ⟨fun both => ⟨fun here => absurd here ordinary, fun _ => both.1, fun _ => both.2⟩,
        fun fine => ⟨fine.ends ordinary, fine.shown ordinary⟩⟩
  constructor
  · intro judged pre line post shape
    exact (same pre line post shape).1 (judged pre line post shape)
  · intro fine pre line post shape
    exact (same pre line post shape).2 (fine pre line post shape)

end Comments

section Sample

attribute [local instance] asciiUnicode

/-- A comment opened behind code. -/
def openedText : Str := "x = 1; /* one\nfoo();\ntwo */\n".toList

/-- A comment that begins with its own end. -/
def slashText : Str := "/*/ one\nfoo();\n*/\n".toList

/-- In both texts the flag is off inside the comment, and the call in it is executable. -/
theorem openedComment_lost :
    (¬ TracksComments openedText ∧ commentFlag ["x = 1; /* one".toList] = false ∧
      (lexLines [("x = 1; /* one".toList, "\n".toList)]).inBlock = true ∧
      2 ∈ (parseCFile openedText).execIdx) ∧
    ¬ TracksComments slashText ∧ 2 ∈ (parseCFile slashText).execIdx := by
  have opened : 2 ∈ (parseCFile openedText).execIdx := by decide
  have slash : 2 ∈ (parseCFile slashText).execIdx := by decide
  have first : ¬ TracksComments openedText := by
    intro tracks
    exact (tracks [("x = 1; /* one".toList, "\n".toList)] ("foo();".toList, "\n".toList)
      [("two */".toList, "\n".toList)] (by decide)).2 (by decide) opened
  have second : ¬ TracksComments slashText := by
    intro tracks
    exact (tracks [("/*/ one".toList, "\n".toList)] ("foo();".toList, "\n".toList)
      [("*/".toList, "\n".toList)] (by decide)).2 (by decide) slash
  exact ⟨⟨first, by decide, by decide, opened⟩, second, slash⟩

end Sample

end Ocfs2Coverage.Source
