import Ocfs2Coverage.Source.Comments
import Ocfs2Coverage.Source.Heads

/-!
Contract: directives and function signatures that are broken over several lines.

Owns: both constructs as lines of a text, and the exact conditions under which no line
of a construct is executable.

Does not own: what the preprocessor or the compiler makes of them.
-/

namespace Ocfs2Coverage.Source

open Ocfs2Coverage.Python

section LineBreaks

variable [UnicodeData]

/-! ## Constructs on several lines -/

/-- The lines of a construct in a text. -/
structure Lines (text : Str) where
  before : List Str
  first : Str
  more : List Str
  after : List Str
  shape : splitlines text = before ++ (first :: more) ++ after

variable {text : Str}

/-- None of the lines is executable. -/
def Lines.Dead (l : Lines text) : Prop :=
  ∀ ln, l.before.length < ln → ln ≤ l.before.length + (l.first :: l.more).length →
    ln ∉ (parseCFile text).execIdx

theorem Lines.dead_iff (l : Lines text) :
    l.Dead ↔ ∀ pre line post, l.first :: l.more = pre ++ line :: post →
      (isCodeLine (strip line) (commentFlag (l.before ++ pre))).1 = false := by
  have place : ∀ pre line post, l.first :: l.more = pre ++ line :: post →
      ((l.before ++ pre).length + 1 ∈ (parseCFile text).execIdx ↔
        (isCodeLine (strip line) (commentFlag (l.before ++ pre))).1 = true) := by
    intro pre line post split
    have cut : splitlines text = (l.before ++ pre) ++ line :: (post ++ l.after) := by
      rw [l.shape, split]
      simp
    exact mem_execIdx cut
  constructor
  · intro dead pre line post split
    rw [← Bool.not_eq_true, ← place pre line post split]
    have counted := congrArg List.length split
    rw [List.length_append, @List.length_cons _ line] at counted
    apply dead
    · rw [List.length_append]
      omega
    · rw [List.length_append, counted]
      omega
  · intro dead ln lower upper
    have inside : ln - l.before.length - 1 < (l.first :: l.more).length := by omega
    have split : l.first :: l.more = (l.first :: l.more).take (ln - l.before.length - 1) ++
        (l.first :: l.more)[ln - l.before.length - 1] ::
          (l.first :: l.more).drop (ln - l.before.length - 1 + 1) := by
      rw [List.getElem_cons_drop, List.take_append_drop]
    have number : (l.before ++ (l.first :: l.more).take (ln - l.before.length - 1)).length + 1 =
        ln := by
      rw [List.length_append, List.length_take]
      omega
    have here := place _ _ _ split
    rw [number] at here
    rw [here, dead _ _ _ split]
    exact Bool.false_ne_true

/-! ## Directives -/

omit [UnicodeData] in
/-- The rest of a line that ends with a backslash ends with it too. -/
theorem backslash_behind {s : Str} {parts : Str × Str} (found : splitOnce "*/".toList s = some parts)
    (ends : endswith s "\\".toList = true) : endswith (strip parts.2) "\\".toList = true := by
  have shape := splitOnce_eq_some found
  obtain ⟨left, right, around, leftSpace, rightSpace⟩ := strip_decomposition parts.2
  rw [around] at shape
  have solid : isSpace '\\' = false := by decide
  rcases List.eq_nil_or_concat' right with rfl | ⟨right, c, rfl⟩
  · rcases List.eq_nil_or_concat' (strip parts.2) with none | ⟨front, d, last⟩
    · rcases List.eq_nil_or_concat' left with rfl | ⟨left, c, rfl⟩
      · -- Nothing is behind the comment, so the line ends with a slash.
        rw [none] at shape
        have slash : s = (parts.1 ++ ['*']) ++ ['/'] := by
          rw [shape]
          simp
        rw [slash] at ends
        exact absurd (endswith_last (p := []) ends) (by decide)
      · rw [none] at shape
        have blank : s = (parts.1 ++ "*/".toList ++ left) ++ [c] := by
          rw [shape]
          simp
        rw [blank] at ends
        have final : isSpace c = true := leftSpace c (by simp)
        have same : c = '\\' := (endswith_last (p := []) ends).symm
        rw [same, solid] at final
        cases final
    · rw [last] at shape ⊢
      have tail : s = (parts.1 ++ "*/".toList ++ left ++ front) ++ [d] := by
        rw [shape]
        simp
      rw [tail] at ends
      rw [← endswith_last (p := []) ends]
      exact endswith_iff.2 ⟨front, rfl⟩
  · have blank : s = (parts.1 ++ "*/".toList ++ (left ++ strip parts.2 ++ right)) ++ [c] := by
      rw [shape]
      simp
    rw [blank] at ends
    have final : isSpace c = true := rightSpace c (by simp)
    have same : c = '\\' := (endswith_last (p := []) ends).symm
    rw [same, solid] at final
    cases final

omit [UnicodeData] in
theorem skipComments_backslash (fuel : Nat) {s w : Str} (ends : endswith s "\\".toList = true)
    (code : skipComments fuel s = .code w) : endswith w "\\".toList = true := by
  induction fuel generalizing s with
  | zero =>
      cases code
      exact ends
  | succ fuel inductionHypothesis =>
      rw [skipComments] at code
      split at code
      · cases code
      · split at code
        · cases found : splitOnce "*/".toList s with
          | none =>
              rw [found] at code
              cases code
          | some parts =>
              rw [found] at code
              exact inductionHypothesis (backslash_behind found ends) code
        · cases code
          exact ends

omit [UnicodeData] in
/-- What stands behind the comments of a line that ends with a backslash. -/
theorem codePart_backslash {comment : Bool} {s w : Str} (ends : endswith s "\\".toList = true)
    (code : codePart comment s = some w) : endswith w "\\".toList = true := by
  have behind : ∀ t : Str, endswith t "\\".toList = true →
      codePart false t = some w → endswith w "\\".toList = true := by
    intro t ends code
    simp only [codePart, Bool.false_eq_true, if_false, Option.bind_some] at code
    cases skipped : skipComments (t.length + 1) t with
    | lineComment =>
        rw [skipped] at code
        cases code
    | openComment =>
        rw [skipped] at code
        cases code
    | code rest =>
        rw [skipped] at code
        cases code
        exact skipComments_backslash _ ends skipped
  cases comment with
  | false => exact behind s ends code
  | true =>
      cases found : splitOnce "*/".toList s with
      | none =>
          simp only [codePart, if_true] at code
          rw [found] at code
          cases code
      | some parts =>
          simp only [codePart, if_true] at code
          rw [found] at code
          exact behind _ (backslash_behind found ends) code

/-- A directive: its first line begins with `#`, and all lines but the last end with a
backslash. -/
structure Directive (text : Str) extends Lines text where
  hash : startswith (strip first) "#".toList = true
  continued : ∀ line ∈ (first :: more).dropLast, endswith (strip line) "\\".toList = true

/-- What stands on the last line, behind its comments, is no code. -/
def Directive.LastInert (d : Directive text) : Prop :=
  ∀ w, codePart (commentFlag (d.before ++ (d.first :: d.more).dropLast))
    (strip ((d.first :: d.more).getLast (List.cons_ne_nil _ _))) = some w → Inert w

/-- A directive is left out exactly when its last line is no code. -/
theorem Directive.dead_iff (d : Directive text) : d.Dead ↔ d.LastInert := by
  have cut := List.dropLast_append_getLast (List.cons_ne_nil d.first d.more)
  rw [Lines.dead_iff]
  constructor
  · intro dead w code
    exact dead_iff_inert.1 (dead _ _ [] cut.symm) w code
  · intro last pre line post split
    rw [dead_iff_inert]
    intro w code
    rcases List.eq_nil_or_concat' post with rfl | ⟨post, other, rfl⟩
    · obtain ⟨same, final⟩ := List.append_inj' (split.symm.trans cut.symm) rfl
      rw [same, List.singleton_inj.1 final] at code
      exact last w code
    · -- A line before the last one ends with a backslash.
      apply Inert.continued
      apply codePart_backslash _ code
      apply d.continued
      have early : (d.first :: d.more).dropLast = pre ++ line :: post := by
        rw [split, ← List.cons_append, ← List.append_assoc, List.dropLast_concat]
      rw [early]
      simp

omit [UnicodeData] in
/-- A text that does not begin with a slash. -/
theorem codePart_of_first {c : Char} {t : Str} (notComment : '/' ≠ c) :
    codePart false (c :: t) = some (c :: t) := by
  have line : startswith (c :: t) "//".toList = false := startswith_cons_of_ne notComment
  have block : startswith (c :: t) "/*".toList = false := startswith_cons_of_ne notComment
  simp only [codePart, Bool.false_eq_true, if_false, Option.bind_some]
  rw [skipComments_eq, line, block]
  rfl

/-- A directive on one line, outside comments, is not executable. -/
theorem Directive.dead_of_single (d : Directive text) (single : d.more = [])
    (outside : commentFlag d.before = false) : d.Dead := by
  rw [d.dead_iff]
  obtain ⟨rest, shape⟩ := startswith_iff.1 d.hash
  simp only [Directive.LastInert]
  intro w code
  simp only [single, List.dropLast_singleton, List.append_nil, List.getLast_singleton] at code
  rw [outside, ← shape] at code
  rw [← Option.some.inj ((codePart_of_first (by decide)).symm.trans code)]
  exact Inert.directive (startswith_iff.2 ⟨rest, rfl⟩)

/-! ## Signatures -/

/-- The code of the text ends with one of the marks; blanks or a comment may follow. -/
def CodeEnds (marks : Str) (s : Str) : Prop :=
  ∃ front mark tail, mark ∈ marks ∧ s = front ++ mark :: tail ∧
    (strip tail = [] ∨ startswith (strip tail) "//".toList = true ∨
      startswith (strip tail) "/*".toList = true)

/-- The signature of a function definition, broken at commas of its parameters. -/
structure Signature (text : Str) extends Lines text where
  name : ∀ c ∈ (strip first).head?, isIdentStart c = true
  opens : '(' ∈ strip first
  breaks : ∀ line ∈ (first :: more).dropLast, CodeEnds [','] (strip line)
  ends : CodeEnds [')', '\x7b'] (strip ((first :: more).getLast (List.cons_ne_nil _ _)))

/-- The line is taken for a declared type, or `FUNC_RE` matches it. -/
def Recognised (w : Str) : Prop :=
  isTypeText w = true ∨ isLabelText w = false ∧ funcRe.isMatch w = true

namespace Signature

variable {s : Signature text}

/-- No comment is taken to be open before the signature, and its first line ends where
its code does or with a comment that is closed. -/
structure Plain (s : Signature text) : Prop where
  outside : commentFlag s.before = false
  final : endswith (strip s.first) "*/".toList = true ∨
    if s.more = [] then
      endswith (strip s.first) ")".toList = true ∨ endswith (strip s.first) "\x7b".toList = true
    else endswith (strip s.first) ",".toList = true

/-- What stands on the lines, behind comments, is no code. -/
def AllInert (s : Signature text) : Prop :=
  ∀ pre line post, s.first :: s.more = pre ++ line :: post → ∀ w,
    codePart (commentFlag (s.before ++ pre)) (strip line) = some w → Inert w

theorem Plain.last (plain : s.Plain) :
    ∃ front c, strip s.first = front ++ [c] ∧
      (c = '/' ∨ s.more = [] ∧ (c = ')' ∨ c = '\x7b') ∨ s.more ≠ [] ∧ c = ',') := by
  rcases List.eq_nil_or_concat' (strip s.first) with none | ⟨front, c, shape⟩
  · have opens := s.opens
    rw [none] at opens
    cases opens
  refine ⟨front, c, shape, ?_⟩
  have final := plain.final
  rw [shape] at final
  rcases final with comment | code
  · exact Or.inl (endswith_last (p := ['*']) comment).symm
  · by_cases single : s.more = []
    · rw [if_pos single] at code
      rcases code with paren | brace
      · exact Or.inr (Or.inl ⟨single, Or.inl (endswith_last (p := []) paren).symm⟩)
      · exact Or.inr (Or.inl ⟨single, Or.inr (endswith_last (p := []) brace).symm⟩)
    · rw [if_neg single] at code
      exact Or.inr (Or.inr ⟨single, (endswith_last (p := []) code).symm⟩)

omit [UnicodeData] in
theorem first_eq (s : Signature text) :
    ∃ c rest, strip s.first = c :: rest ∧ isIdentStart c = true := by
  have name := s.name
  have opens := s.opens
  cases shape : strip s.first with
  | nil =>
      rw [shape] at opens
      cases opens
  | cons c rest =>
      rw [shape] at name
      exact ⟨c, rest, rfl, name c rfl⟩

/-- The first line of a plain signature is no code only on one line, recognised. -/
theorem Plain.first_inert_iff (plain : s.Plain) :
    Inert (strip s.first) ↔ s.more = [] ∧ Recognised (strip s.first) := by
  obtain ⟨front, last, shape, marks⟩ := plain.last
  obtain ⟨first, rest, begins, ident⟩ := s.first_eq
  have opens := s.opens
  have ends : ∀ d, endswith (strip s.first) [d] = true → d = last := by
    intro d suffix
    rw [shape] at suffix
    exact endswith_last (p := []) suffix
  have leads : ∀ d, isIdentStart d = false → startswith (strip s.first) [d] = false := by
    intro d noIdent
    rw [begins]
    apply startswith_cons_of_ne
    rintro rfl
    rw [ident] at noIdent
    cases noIdent
  constructor
  · intro inert
    cases inert with
    | empty none =>
        rw [none] at opens
        cases opens
    | directive hash => exact absurd hash (Bool.eq_false_iff.1 (leads '#' (by decide)))
    | alone listed =>
        have noParen : ∀ w ∈ ["\x7b".toList, "\x7d".toList, "\x7d;".toList, "else".toList,
            "else \x7b".toList, "do \x7b".toList, "do".toList], '(' ∉ w := by decide
        exact absurd opens (noParen _ listed)
    | type declared =>
        have brace := declared
        simp only [isTypeText, Bool.and_eq_true, Bool.or_eq_true] at brace
        have final : last = ';' ∨ last = '\x7b' := brace.2.imp
          (fun semicolon => (ends ';' semicolon).symm) fun opened => (ends '\x7b' opened).symm
        refine ⟨?_, Or.inl declared⟩
        rcases marks with rfl | ⟨single, -⟩ | ⟨-, rfl⟩
        · exact absurd final (by decide)
        · exact single
        · exact absurd final (by decide)
    | continued backslash =>
        have final := ends '\\' backslash
        rcases marks with rfl | ⟨-, rfl | rfl⟩ | ⟨-, rfl⟩
        all_goals exact absurd final (by decide)
    | signature noLabel found opens =>
        refine ⟨?_, Or.inr ⟨noLabel, found⟩⟩
        -- Behind the last parenthesis stands no slash and no comma.
        obtain ⟨before, tail, paren, behind⟩ := tail_of_funcRe found
        have final : last = ')' ∨ isSpace last = true ∨ last = '\x7b' := by
          rcases List.eq_nil_or_concat' tail with rfl | ⟨tail, c, rfl⟩
          · exact Or.inl (List.singleton_inj.1 (List.append_inj' (shape.symm.trans paren) rfl).2)
          · have same : c = last := by
              have both : (before ++ ')' :: tail) ++ [c] = front ++ [last] := by
                rw [← shape, paren]
                simp
              exact List.singleton_inj.1 (List.append_inj' both rfl).2
            exact Or.inr (same ▸ behind c (by simp))
        rcases marks with rfl | ⟨single, -⟩ | ⟨-, rfl⟩
        · exact absurd final (by decide)
        · exact single
        · exact absurd final (by decide)
    | commentTail noLabel star =>
        simp only [Bool.and_eq_true] at star
        exact absurd star.1.1.1 (Bool.eq_false_iff.1 (leads '*' (by decide)))
  · rintro ⟨single, declared | ⟨noLabel, found⟩⟩
    · exact Inert.type declared
    · refine Inert.signature noLabel found (Bool.eq_false_iff.2 fun semicolon => ?_)
      have final := ends ';' semicolon
      rcases marks with rfl | ⟨-, rfl | rfl⟩ | ⟨-, rfl⟩
      all_goals exact absurd final (by decide)

theorem dead_iff_allInert (s : Signature text) : s.Dead ↔ s.AllInert := by
  rw [Lines.dead_iff]
  constructor
  · intro dead pre line post split
    exact dead_iff_inert.1 (dead pre line post split)
  · intro inert pre line post split
    exact dead_iff_inert.2 (inert pre line post split)

/-- A plain signature is left out exactly on one line, recognised. -/
theorem Plain.dead_iff (plain : s.Plain) : s.Dead ↔ s.more = [] ∧ Recognised (strip s.first) := by
  rw [dead_iff_allInert]
  obtain ⟨first, rest, begins, ident⟩ := s.first_eq
  have noSlash : '/' ≠ first := by
    rintro rfl
    exact absurd ident (by decide)
  have code : ∀ w, codePart (commentFlag (s.before ++ [])) (strip s.first) = some w ↔
      strip s.first = w := by
    intro w
    rw [List.append_nil, plain.outside, begins, codePart_of_first noSlash, Option.some_inj]
  constructor
  · intro inert
    exact plain.first_inert_iff.1 (inert [] s.first s.more rfl _ ((code _).2 rfl))
  · intro recognised pre line post split w stands
    have inert := plain.first_inert_iff.2 recognised
    rw [recognised.1] at split
    cases pre with
    | nil =>
        obtain ⟨rfl, -⟩ := List.cons_eq_cons.1 split
        rw [← (code w).1 stands]
        exact inert
    | cons other pre =>
        have counted := congrArg List.length split
        rw [List.length_append, List.length_cons, List.length_cons, List.length_cons,
          List.length_nil] at counted
        omega

end Signature

/-- A directive is left out exactly when its last line is no code, and a plain signature
exactly on one line, recognised; of other signatures every line must be no code. -/
theorem construct_dead_iff (text : Str) :
    (∀ d : Directive text, d.Dead ↔ d.LastInert) ∧
      ∀ s : Signature text, (s.Plain → (s.Dead ↔ s.more = [] ∧ Recognised (strip s.first))) ∧
        (¬ s.Plain → (s.Dead ↔ s.AllInert)) :=
  ⟨fun d => d.dead_iff, fun s => ⟨fun plain => plain.dead_iff, fun _ => s.dead_iff_allInert⟩⟩

end LineBreaks

section Sample

attribute [local instance] asciiUnicode

/-- A macro whose body stands on its second line. -/
def macroText : Str := "#define X \\\n\tfoo()\n".toList

def macroLines : Directive macroText where
  before := []
  first := "#define X \\".toList
  more := ["\tfoo()".toList]
  after := []
  shape := by decide
  hash := by decide
  continued := by decide

/-- A signature with one parameter on each line. -/
def signatureText : Str := "int foo(int a,\n\tint b)\n\x7b\n".toList

def signatureLines : Signature signatureText where
  before := []
  first := "int foo(int a,".toList
  more := ["\tint b)".toList]
  after := ["\x7b".toList]
  shape := by decide
  name := by
    intro c begins
    have initial : some 'i' = some c := begins
    rw [← Option.some.inj initial]
    decide
  opens := by decide
  breaks := by
    intro line listed
    rw [List.mem_singleton.1 listed]
    exact ⟨"int foo(int a".toList, ',', [], by decide, by decide, Or.inl (by decide)⟩
  ends := ⟨"int b".toList, ')', [], by decide, by decide, Or.inl (by decide)⟩

/-- The body of the macro and both lines of the signature are executable; on one line
neither construct has an executable line. -/
theorem brokenConstructs_executable :
    (¬ macroLines.Dead ∧ ¬ signatureLines.Dead) ∧
      (parseCFile "#define X foo()\n".toList).execIdx = [] ∧
      (parseCFile "int foo(int a, int b)\n\x7b\n".toList).execIdx = [] := by
  have macroBody : 2 ∈ (parseCFile macroText).execIdx := by decide
  have parameter : 2 ∈ (parseCFile signatureText).execIdx := by decide +kernel
  refine ⟨⟨fun dead => ?_, fun dead => ?_⟩, by decide, by decide +kernel⟩
  · exact dead 2 (by decide) (by decide) macroBody
  · exact dead 2 (by decide) (by decide) parameter

end Sample

end Ocfs2Coverage.Source
