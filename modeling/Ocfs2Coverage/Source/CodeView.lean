import Ocfs2Coverage.Source.Comments
import Ocfs2Coverage.Source.Heads

/-!
Contract: a C text as it is without its comments.

Owns: the code on the lines of a text, texts with the same code, the splitter run on
the code alone, and the texts whose comments the splitter does not notice.

Does not own: where the borders of two texts differ.
-/

namespace Ocfs2Coverage.Source

open Ocfs2Coverage.Python
open Ocfs2Coverage.CLexer

section CodeView

variable [UnicodeData]

/-! ## The code of a text -/

/-- A text without the blanks that separate no words; `blank` when some were just read. -/
def squeezeFrom (word blank : Bool) : Str → Str
  | [] => []
  | c :: rest =>
      if isSpace c then squeezeFrom word true rest
      else if word && blank && isWordChar c then ' ' :: c :: squeezeFrom true false rest
      else c :: squeezeFrom (isWordChar c) false rest

/-- The code on a line that begins in this state of the lexer. -/
def codeText (st : LexState) (s : Str) : Str := squeezeFrom false false (st.uncommented s)

/-- A line of code, and whether `parse_c_file` takes it for executable. -/
structure ViewedLine where
  code : Str
  executable : Bool
deriving DecidableEq, Repr

def viewFrom (st : LexState) (comment : Bool) : List (Str × Str) → List ViewedLine
  | [] => []
  | line :: rest =>
      let verdict := isCodeLine (strip line.1) comment
      ⟨codeText st line.1, verdict.1⟩ :: viewFrom (st.nextLine line) verdict.2 rest

/-- The line says something: a line of comments or blanks that is not executable does not. -/
def ViewedLine.kept (line : ViewedLine) : Bool := !line.code.isEmpty || line.executable

/-- The lines of code of a text, in their order. -/
def codeView (text : Str) : List ViewedLine :=
  (viewFrom (.code false) false (physicalLines text)).filter ViewedLine.kept

/-- The texts differ in comments and blanks only, and the same lines are executable. -/
def SameCode (text other : Str) : Prop := codeView text = codeView other

instance (text other : Str) : Decidable (SameCode text other) :=
  inferInstanceAs (Decidable (_ = _))

/-! ## Comments that are not noticed -/

/-- The tests of the splitter on an executable line come out as they do on its code,
when this many parentheses are open before it. -/
structure Alike (open' : Nat) (s code : Str) : Prop where
  lead : blockLeadRe.isMatch s = blockLeadRe.isMatch code
  control : blockSplitNextRe.isMatch s = blockSplitNextRe.isMatch code
  jump : blockEndRe.search s = blockEndRe.search code
  brace : contains s "\x7b".toList = contains code "\x7b".toList
  depth : depthAfter open' s = depthAfter open' code
  operator : endsWithOperator s = endsWithOperator code

instance (open' : Nat) (s code : Str) : Decidable (Alike open' s code) :=
  decidable_of_iff
    (blockLeadRe.isMatch s = blockLeadRe.isMatch code ∧
      blockSplitNextRe.isMatch s = blockSplitNextRe.isMatch code ∧
      blockEndRe.search s = blockEndRe.search code ∧
      contains s "\x7b".toList = contains code "\x7b".toList ∧
      depthAfter open' s = depthAfter open' code ∧ endsWithOperator s = endsWithOperator code)
    ⟨fun tests => ⟨tests.1, tests.2.1, tests.2.2.1, tests.2.2.2.1, tests.2.2.2.2.1,
        tests.2.2.2.2.2⟩,
      fun alike => ⟨alike.lead, alike.control, alike.jump, alike.brace, alike.depth,
        alike.operator⟩⟩

/-- The lines of a text that begins in these states of the lexer and of the splitter. -/
def TransparentFrom (lex : LexState) (st : LineState) : List (Str × Str) → Prop
  | [] => True
  | line :: rest =>
      (if (isCodeLine (strip line.1) st.comment).1 then
          Alike (if st.gap then 0 else st.depth) (strip line.1) (codeText lex line.1)
        else closesGap (strip line.1) = closesGap (codeText lex line.1)) ∧
      TransparentFrom (lex.nextLine line) (st.read (strip line.1)) rest

instance decidableTransparentFrom (lex : LexState) (st : LineState) :
    (lines : List (Str × Str)) → Decidable (TransparentFrom lex st lines)
  | [] => inferInstanceAs (Decidable True)
  | line :: rest =>
      have : Decidable (TransparentFrom (lex.nextLine line) (st.read (strip line.1)) rest) :=
        decidableTransparentFrom (lex.nextLine line) (st.read (strip line.1)) rest
      inferInstanceAs (Decidable (_ ∧ _))

/-- No comment of the text changes a test of the splitter. -/
def Transparent (text : Str) : Prop :=
  TransparentFrom (.code false) LineState.init (physicalLines text)

instance (text : Str) : Decidable (Transparent text) :=
  decidableTransparentFrom (.code false) LineState.init (physicalLines text)

/-! ## The splitter on the code alone -/

namespace LineState

def readViewed (st : LineState) (line : ViewedLine) : LineState :=
  if line.executable then st.readCode false line.code
  else { st with gap := st.gap || st.begun && closesGap line.code }

/-- For each executable line, whether it starts a block. -/
def viewStarts (st : LineState) : List ViewedLine → List Bool
  | [] => []
  | line :: rest =>
      if line.executable then st.starts line.code :: viewStarts (st.readViewed line) rest
      else viewStarts (st.readViewed line) rest

/-- The same for stripped lines with their comments. -/
def lineStarts (st : LineState) : List Str → List Bool
  | [] => []
  | s :: rest =>
      if (isCodeLine s st.comment).1 then st.starts s :: lineStarts (st.read s) rest
      else lineStarts (st.read s) rest

/-- The state but for the comment flag. -/
def core (st : LineState) : LineState := { st with comment := false }

theorem viewStarts_kept (st : LineState) (lines : List ViewedLine) :
    st.viewStarts (lines.filter ViewedLine.kept) = st.viewStarts lines := by
  induction lines generalizing st with
  | nil => rfl
  | cons line rest inductionHypothesis =>
      cases kept : line.kept with
      | true =>
          rw [List.filter_cons_of_pos kept, viewStarts, viewStarts, inductionHypothesis]
      | false =>
          simp only [ViewedLine.kept, Bool.or_eq_false_iff, Bool.not_eq_false',
            List.isEmpty_iff] at kept
          have noGap : closesGap ([] : Str) = false := by
            rw [← Bool.not_eq_true, closesGap_iff]
            rintro (brace | word)
            · cases brace
            · exact not_hasWord_nil (else_word _ (by simp)) word
          have stays : st.readViewed line = st := by
            simp only [readViewed]
            rw [kept.1, kept.2, noGap, Bool.and_false, Bool.or_false]
            rfl
          have dropped : ¬ line.kept = true := by
            simp [ViewedLine.kept, kept]
          rw [List.filter_cons_of_neg dropped, inductionHypothesis, viewStarts, stays, kept.2]
          rfl

theorem comment_read (st : LineState) (s : Str) :
    (st.read s).comment = (isCodeLine s st.comment).2 := by
  simp only [read]
  split
  · rfl
  · rfl

/-- Comments do not change how many lines are read as executable. -/
theorem length_viewStarts (st view : LineState) (lex : LexState) (lines : List (Str × Str)) :
    (view.viewStarts (viewFrom lex st.comment lines)).length =
      (st.lineStarts (lines.map fun line => strip line.1)).length := by
  induction lines generalizing st view lex with
  | nil => rfl
  | cons line rest inductionHypothesis =>
      rw [List.map_cons, lineStarts, viewFrom, viewStarts, ← comment_read]
      split
      · next code =>
          rw [List.length_cons, List.length_cons, inductionHypothesis]
      · next other => rw [inductionHypothesis]

/-- The tests on a line come out as they do on its code. -/
theorem starts_core {st : LineState} {s code : Str}
    (alike : Alike (if st.gap then 0 else st.depth) s code) : st.starts s = st.core.starts code := by
  show _ = st.starts code
  simp only [LineState.starts]
  rw [alike.lead]

/-- An executable line is read as its code is. -/
theorem readCode_core {st : LineState} {comment : Bool} {s code : Str}
    (alike : Alike (if st.gap then 0 else st.depth) s code) :
    (st.readCode comment s).core = st.core.readCode false code := by
  have starts := starts_core alike
  have opens : st.opens s = st.core.opens code := by
    show _ = st.opens code
    simp only [LineState.opens]
    rw [alike.control]
  have depth : depthAfter (if st.gap then 0 else st.depth) s =
      depthAfter (if st.core.gap then 0 else st.core.depth) code := alike.depth
  simp only [depthAfter] at depth
  simp only [readCode, core]
  rw [starts, opens, alike.jump, alike.brace, depth, alike.operator]
  rfl

theorem lineStarts_eq_viewStarts {st : LineState} {lex : LexState} {lines : List (Str × Str)}
    (transparent : TransparentFrom lex st lines) :
    st.lineStarts (lines.map fun line => strip line.1) =
      st.core.viewStarts (viewFrom lex st.comment lines) := by
  induction lines generalizing st lex with
  | nil => rfl
  | cons line rest inductionHypothesis =>
      have tail := inductionHypothesis transparent.2
      rw [comment_read] at tail
      have alike := transparent.1
      cases code : (isCodeLine (strip line.1) st.comment).1 with
      | true =>
          rw [if_pos code] at alike
          have step : (st.read (strip line.1)).core =
              st.core.readViewed ⟨codeText lex line.1, true⟩ := by
            simp only [read]
            rw [if_pos code]
            exact readCode_core alike
          rw [List.map_cons, lineStarts, viewFrom, viewStarts, if_pos code, tail, step,
            starts_core alike]
          simp only [code]
          rfl
      | false =>
          have other : ¬ (isCodeLine (strip line.1) st.comment).1 = true := by
            rw [code]
            exact Bool.false_ne_true
          rw [if_neg other] at alike
          have step : (st.read (strip line.1)).core =
              st.core.readViewed ⟨codeText lex line.1, false⟩ := by
            simp only [read]
            rw [if_neg other]
            show LineState.mk _ _ _ _ (st.gap || st.begun && closesGap (strip line.1)) _ _ _ _ _ = _
            rw [alike]
            rfl
          rw [List.map_cons, lineStarts, viewFrom, viewStarts, if_neg other, tail, step]
          simp only [code]
          rfl

theorem lineStarts_concat (st : LineState) (lines : List Str) (s : Str) :
    st.lineStarts (lines ++ [s]) =
      st.lineStarts lines ++
        if (isCodeLine s (st.run lines).comment).1 then [(st.run lines).starts s] else [] := by
  induction lines generalizing st with
  | nil => rfl
  | cons head rest inductionHypothesis =>
      rw [List.cons_append, lineStarts, lineStarts, inductionHypothesis, run_cons]
      split
      · rfl
      · rfl

end LineState

/-! ## The texts as a whole -/

/-- For each executable line, whether it starts a block. -/
def rawStarts (text : Str) : List Bool := LineState.init.lineStarts ((splitlines text).map strip)

/-- The same, read off the code alone. -/
def codeStarts (text : Str) : List Bool := LineState.init.viewStarts (codeView text)

/-- The comments of the text change whether an executable line, known by its place,
starts a block. -/
def Disturbed (text : Str) (k : Nat) : Prop := (rawStarts text)[k]? ≠ (codeStarts text)[k]?

instance (text : Str) (k : Nat) : Decidable (Disturbed text k) :=
  inferInstanceAs (Decidable (_ ≠ _))

omit [UnicodeData] in
theorem strip_lines (text : Str) :
    (splitlines text).map strip = (physicalLines text).map fun line => strip line.1 := by
  rw [← map_fst_physicalLines, List.map_map]
  rfl

/-- The first executable line starts a block. -/
theorem LineState.head_lineStarts {st : LineState} (fresh : st.begun = false) (lines : List Str) :
    ∀ starts ∈ (st.lineStarts lines)[0]?, starts = true := by
  induction lines generalizing st with
  | nil => simp [lineStarts]
  | cons s rest inductionHypothesis =>
      rw [lineStarts]
      by_cases code : (isCodeLine s st.comment).1 = true
      · rw [if_pos code]
        simp [LineState.starts, fresh]
      · have later : (st.read s).begun = false := by
          simp only [read]
          rw [if_neg code]
          exact fresh
        rw [if_neg code]
        exact inductionHypothesis later

theorem length_codeStarts (text : Str) : (codeStarts text).length = (rawStarts text).length := by
  simp only [codeStarts, rawStarts, codeView]
  rw [LineState.viewStarts_kept, strip_lines]
  exact LineState.length_viewStarts .init .init (.code false) (physicalLines text)

/-- Comments that change no test disturb no line. -/
theorem not_disturbed_of_transparent {text : Str} (transparent : Transparent text) (k : Nat) :
    ¬ Disturbed text k := by
  have same : rawStarts text = codeStarts text := by
    simp only [codeStarts, rawStarts, codeView]
    rw [LineState.viewStarts_kept, strip_lines]
    exact LineState.lineStarts_eq_viewStarts transparent
  intro disturbed
  exact disturbed (by rw [same])

/-- Texts with the same code start blocks at the same executable lines exactly when their
comments disturb the same ones. -/
theorem rawStarts_eq_iff {text other : Str} (same : SameCode text other) :
    rawStarts text = rawStarts other ↔ ∀ k, Disturbed text k ↔ Disturbed other k := by
  have code : codeStarts text = codeStarts other := by
    simp only [codeStarts]
    rw [show codeView text = codeView other from same]
  simp only [Disturbed]
  rw [code]
  constructor
  · intro equal k
    rw [equal]
  · intro alike
    apply List.ext_getElem?
    intro k
    have lengths : (rawStarts text).length = (rawStarts other).length := by
      rw [← length_codeStarts, ← length_codeStarts, code]
    by_cases inside : k < (rawStarts text).length
    · have insideCode : k < (codeStarts other).length := by
        rw [length_codeStarts]
        omega
      have insideOther : k < (rawStarts other).length := by omega
      have here := alike k
      rw [List.getElem?_eq_getElem inside, List.getElem?_eq_getElem insideOther] at here ⊢
      rw [List.getElem?_eq_getElem insideCode] at here
      -- Two truth values that differ from the third in the same cases are equal.
      revert here
      generalize (rawStarts text)[k] = first
      generalize (rawStarts other)[k] = second
      generalize (codeStarts other)[k] = third
      cases first <;> cases second <;> cases third <;> simp
    · rw [List.getElem?_eq_none (by omega), List.getElem?_eq_none (by omega)]

/-! ## Blocks counted by their first lines -/

omit [UnicodeData] in
/-- A block number for each line, counted up where a block starts. -/
def counted (bid : Nat) : List Bool → List Nat
  | [] => []
  | starts :: rest =>
      (if starts then bid + 1 else bid) :: counted (if starts then bid + 1 else bid) rest

omit [UnicodeData] in
theorem length_counted (bid : Nat) (starts : List Bool) :
    (counted bid starts).length = starts.length := by
  induction starts generalizing bid with
  | nil => rfl
  | cons head rest inductionHypothesis =>
      rw [counted, List.length_cons, List.length_cons, inductionHypothesis]

omit [UnicodeData] in
theorem counted_border {bid : Nat} {starts : List Bool} {k a b : Nat}
    (first : (counted bid starts)[k]? = some a) (second : (counted bid starts)[k + 1]? = some b) :
    a ≠ b ↔ starts[k + 1]? = some true := by
  induction starts generalizing bid k with
  | nil => cases first
  | cons head rest inductionHypothesis =>
      cases k with
      | succ k => exact inductionHypothesis first second
      | zero =>
          cases rest with
          | nil => cases second
          | cons next rest =>
              have here : (if head then bid + 1 else bid) = a := Option.some.inj first
              have there : (if next then a + 1 else a) = b := by
                rw [← here]
                exact Option.some.inj second
              rw [← there]
              cases next with
              | true => simp
              | false => simp

omit [UnicodeData] in
theorem counted_concat (bid : Nat) (starts : List Bool) (last : Bool) :
    counted bid (starts ++ [last]) = counted bid starts ++ [bid + (starts ++ [last]).count true] := by
  induction starts generalizing bid with
  | nil => cases last <;> rfl
  | cons head rest inductionHypothesis =>
      rw [List.cons_append, counted, counted, inductionHypothesis, List.cons_append,
        List.count_cons]
      cases head with
      | true => simp [Nat.add_assoc, Nat.add_comm 1]
      | false => simp

theorem LineState.bid_run (st : LineState) (lines : List Str) :
    (st.run lines).bid = st.bid + (st.lineStarts lines).count true := by
  induction lines generalizing st with
  | nil => rfl
  | cons s rest inductionHypothesis =>
      rw [run_cons, inductionHypothesis, lineStarts]
      by_cases code : (isCodeLine s st.comment).1 = true
      · have step : (st.read s).bid = if st.starts s then st.bid + 1 else st.bid := by
          simp only [read]
          rw [if_pos code]
          rfl
        rw [if_pos code, List.count_cons, step]
        cases st.starts s with
        | true => simp [Nat.add_assoc, Nat.add_comm 1]
        | false => simp
      · have step : (st.read s).bid = st.bid := by
          simp only [read]
          rw [if_neg code]
        rw [if_neg code, step]

/-- The blocks of the executable lines are counted up at the lines that start one. -/
theorem map_blockOf {raw done rest : List Str} (shape : raw = done ++ rest) :
    (execLines done).map (blockOf raw (execLines raw)) =
      counted 0 (LineState.init.lineStarts (done.map strip)) := by
  induction done using List.reverseRecOn generalizing rest with
  | nil => rfl
  | append_singleton done line inductionHypothesis =>
      have regroup : raw = done ++ line :: rest := by
        rw [shape]
        simp
      have early := inductionHypothesis regroup
      have state : LineState.init.run (done.map strip) = lineStates done := rfl
      have state' : LineState.init.run (done.map strip ++ [strip line]) =
          lineStates (done ++ [line]) := by
        rw [lineStates, List.map_append]
        rfl
      have count := LineState.bid_run .init (done.map strip ++ [strip line])
      rw [state', LineState.lineStarts_concat, state] at count
      rw [execLines_concat, List.map_append, early, List.map_append, List.map_singleton,
        LineState.lineStarts_concat, state]
      by_cases code : (isCodeLine (strip line) (lineStates done).comment).1 = true
      · have block := @blockOf_lineStates _ done rest line code
        rw [← regroup, count, if_pos code] at block
        rw [if_pos code, if_pos code, List.map_singleton, block, counted_concat]
        rfl
      · rw [if_neg code, if_neg code, List.append_nil, List.map_nil, List.append_nil]

/-- The blocks of a text. -/
theorem blocks_eq_counted (text : Str) :
    (execLines (splitlines text)).map
        (blockOf (splitlines text) (execLines (splitlines text))) =
      counted 0 (rawStarts text) := by
  have whole : splitlines text = splitlines text ++ [] := (List.append_nil _).symm
  exact map_blockOf whole

end CodeView

end Ocfs2Coverage.Source
