import Ocfs2Coverage.Source.Stream

/-!
Contract: the lines of control statements as `is_code_line` and the patterns of
`exec_line_blocks` see them.

Owns: labels, `else` lines and closing braces, what each of the predicates says about
them, and the parenthesis depth behind a line.

Does not own: how the lines are put together.
-/

namespace Ocfs2Coverage.Source

open Ocfs2Coverage.Python

/-! ## Last characters -/

theorem endswith_last {t p : Str} {c d : Char} (ends : endswith (t ++ [c]) (p ++ [d]) = true) :
    d = c := by
  rcases endswith_iff.1 ends with ⟨front, equal⟩
  rw [← List.append_assoc] at equal
  have last := congrArg List.getLast? equal
  simpa using last

/-- A text that ends with this character neither continues nor completes a statement. -/
def Sealed (s : Str) : Prop := ∃ t, ∃ c ∈ [')', '\x7b', ':'], s = t ++ [c]

theorem Sealed.append {s : Str} (sealed : Sealed s) (front : Str) : Sealed (front ++ s) := by
  rcases sealed with ⟨t, c, member, rfl⟩
  exact ⟨front ++ t, c, member, (List.append_assoc front t [c]).symm⟩

theorem Sealed.endswith_eq {s : Str} (sealed : Sealed s) (p : Str) {d : Char}
    (other : d ∉ [')', '\x7b', ':']) : endswith s (p ++ [d]) = false := by
  rcases sealed with ⟨t, c, member, rfl⟩
  rw [← Bool.not_eq_true]
  intro ends
  rw [endswith_last ends] at other
  exact other member

theorem Sealed.noOperator {s : Str} (sealed : Sealed s) : endsWithOperator s = false := by
  have single : ∀ d ∉ [')', '\x7b', ':'], endswith s [d] = false :=
    fun d other => sealed.endswith_eq [] other
  have arrow : endswith s "->".toList = false := sealed.endswith_eq ['-'] (by decide)
  simp only [endsWithOperator]
  simp only [List.any_cons, List.any_nil, arrow]
  rw [show endswith s "-".toList = false from single '-' (by decide),
    show endswith s "+".toList = false from single '+' (by decide),
    show endswith s "*".toList = false from single '*' (by decide),
    show endswith s "/".toList = false from single '/' (by decide),
    show endswith s ".".toList = false from single '.' (by decide),
    show endswith s "=".toList = false from single '=' (by decide)]
  simp

section Functions

variable [UnicodeData]

/-! ## `FUNC_RE` -/

/-- What stands before the first parenthesis of a text `FUNC_RE` matches. -/
theorem shape_of_funcRe {s : Str} (found : funcRe.isMatch s = true) :
    ∃ name space word rest, s = (name ++ space ++ word) ++ '(' :: rest ∧
      (∃ c ∈ name.head?, isIdentStart c = true) ∧ space ≠ [] ∧ word ≠ [] ∧
      (∀ c ∈ space, isSpace c = true) ∧ '(' ∉ name ++ space ++ word := by
  have plain : isWordChar '(' = false := by simp [isWordChar]
  have blank : isSpace '(' = false := by decide
  simp only [Regex.isMatch] at found
  rcases matchesAt_iff.1 found with ⟨stop, ends⟩
  simp only [funcRe, Regex.seqs, Regex.many1, mem_ends_seq, mem_ends_start] at ends
  rcases ends with ⟨_, ⟨-, rfl⟩, _, first, ends⟩
  rcases mem_ends_char.1 first with ⟨a, s1, rfl, start, rfl⟩
  rcases ends with ⟨_, ⟨_, second, more⟩, ends⟩
  rcases mem_ends_char.1 second with ⟨b, s2, rfl, inName, rfl⟩
  rcases mem_ends_many.1 more with ⟨name, s3, rfl, allName, rfl⟩
  rcases ends with ⟨_, ⟨_, gap, more⟩, ends⟩
  rcases mem_ends_char.1 gap with ⟨c, s4, rfl, inSpace, rfl⟩
  rcases mem_ends_many.1 more with ⟨space, s5, rfl, allSpace, rfl⟩
  rcases ends with ⟨_, word, _, more, _, after, _, paren, -⟩
  rcases mem_ends_char.1 word with ⟨d, s6, rfl, inWord, rfl⟩
  rcases mem_ends_many.1 more with ⟨letters, s7, rfl, allLetters, rfl⟩
  rcases mem_ends_many.1 after with ⟨trailing, s8, rfl, allTrailing, rfl⟩
  rcases mem_ends_lit.1 paren with ⟨rest, rfl, rfl⟩
  refine ⟨a :: b :: name, c :: space, d :: letters ++ trailing, rest, ?_, ⟨a, rfl, start⟩,
    List.cons_ne_nil _ _, List.cons_ne_nil _ _, ?_, ?_⟩
  · simp
  · intro e member
    rcases List.mem_cons.1 member with rfl | member
    · exact inSpace
    · exact allSpace e member
  · intro member
    have classes : ∀ e ∈ a :: b :: name ++ c :: space ++ (d :: letters ++ trailing),
        e ≠ '(' := by
      intro e member equal
      rw [equal] at member
      simp only [List.mem_append, List.mem_cons] at member
      rcases member with ((rfl | rfl | listed) | rfl | listed) | (rfl | listed) | listed
      · exact absurd start (by decide)
      · simp [plain, blank] at inName
      · simpa [plain, blank] using allName '(' listed
      · rw [blank] at inSpace
        cases inSpace
      · exact absurd (allSpace '(' listed) (by simp [blank])
      · exact absurd inWord (by decide)
      · simpa [plain] using allLetters '(' listed
      · simpa [blank] using allTrailing '(' listed
    exact classes '(' member rfl

/-- Behind its last parenthesis a text `FUNC_RE` matches has at most a brace. -/
theorem tail_of_funcRe {s : Str} (found : funcRe.isMatch s = true) :
    ∃ front tail, s = front ++ ')' :: tail ∧ ∀ c ∈ tail, isSpace c = true ∨ c = '\x7b' := by
  simp only [Regex.isMatch] at found
  rcases matchesAt_iff.1 found with ⟨stop, ends⟩
  simp only [funcRe, Regex.seqs, mem_ends_seq] at ends
  rcases ends with ⟨_, a, _, b, _, c, _, d, _, e, _, f, _, g, _, h, _, i, _, close, _, blanks, _,
    brace, _, blanks', last⟩
  have suffix := (rest_suffix i).trans ((rest_suffix h).trans ((rest_suffix g).trans
    ((rest_suffix f).trans ((rest_suffix e).trans ((rest_suffix d).trans ((rest_suffix c).trans
      ((rest_suffix b).trans (rest_suffix a))))))))
  rcases suffix with ⟨front, shape⟩
  rcases mem_ends_lit.1 close with ⟨tail, here, rfl⟩
  refine ⟨front, tail, shape.symm.trans (congrArg (front ++ ·) here), ?_⟩
  rcases mem_ends_many.1 blanks with ⟨space, rest, rfl, allSpace, rfl⟩
  -- What is left are blanks, perhaps behind a brace.
  have behind : ∀ {before : Option Char} {text : Str} {cursor : Cursor},
      cursor ∈ (Regex.many isSpace).ends ⟨before, text⟩ →
      stop ∈ Regex.finish.ends cursor → ∀ c ∈ text, isSpace c = true := by
    intro before text cursor blanks last c member
    rcases mem_ends_many.1 blanks with ⟨space, rest, rfl, allSpace, rfl⟩
    rcases List.mem_append.1 member with early | late
    · exact allSpace c early
    · rcases (mem_ends_finish.1 last).1 with none | feed
      · change rest = [] at none
        rw [none] at late
        cases late
      · change rest = ['\n'] at feed
        rw [feed] at late
        rw [List.mem_singleton.1 late]
        decide
  intro c member
  rcases List.mem_append.1 member with early | late
  · exact Or.inl (allSpace c early)
  · rcases mem_ends_alt.1 brace with taken | absent
    · rcases mem_ends_lit.1 taken with ⟨rest, rfl, rfl⟩
      rcases List.mem_cons.1 late with rfl | late
      · exact Or.inr rfl
      · exact Or.inl (behind blanks' last c late)
    · rw [mem_ends_eps] at absent
      rw [absent] at blanks'
      exact Or.inl (behind blanks' last c late)

/-- `else if (...)`, with or without a brace, has the shape of a function head. -/
theorem funcRe_elseIf {cond brace : Str} (plain : ';' ∉ cond)
    (ends : brace = [] ∨ brace = " \x7b".toList) :
    funcRe.isMatch ("else if (".toList ++ cond ++ ')' :: brace) = true := by
  have name : ∀ c ∈ ['l', 's', 'e'], (isWordChar c || isSpace c || c == '*') = true := by
    simp [isWordChar]
  have letter : ∀ c ∈ ['f'], isWordChar c = true := by simp [isWordChar]
  have blank : ∀ c ∈ [' '], isSpace c = true := by decide
  have shape : "else if (".toList ++ cond ++ ')' :: brace =
      ['e'] ++ (['l', 's', 'e'] ++ ([' '] ++ (['i'] ++ (['f'] ++ ([' '] ++ (['('] ++
        (cond ++ ([')'] ++ (brace.take 1 ++ (brace.drop 1 ++ ([] ++ []))))))))))) := by
    rcases ends with rfl | rfl <;> simp
  rw [shape]
  apply isMatch_of_takesRest
  apply takesRest_seq (takes_char (by decide))
  apply takesRest_seq (takes_many1 name)
  apply takesRest_seq (takes_many1 blank)
  apply takesRest_seq (takes_char (by decide))
  apply takesRest_seq (takes_many letter)
  apply takesRest_seq (takes_many blank)
  apply takesRest_seq (takes_lit ['('])
  apply takesRest_seq (takes_many fun c member => by
    simpa using fun equal : c = ';' => plain (equal ▸ member))
  apply takesRest_seq (takes_lit [')'])
  have space : ∀ c ∈ brace.take 1, isSpace c = true := by
    rcases ends with rfl | rfl <;> decide
  have optional : brace.drop 1 = [] ∨ (Regex.lit "\x7b".toList).Takes (brace.drop 1) := by
    rcases ends with rfl | rfl
    · exact Or.inl rfl
    · exact Or.inr (takes_lit "\x7b".toList)
  apply takesRest_seq (takes_many space)
  apply takesRest_seq (takes_optional optional)
  exact takesRest_seq (takes_many (by simp)) takesRest_finish

omit [UnicodeData] in
theorem startswith_cons_of_ne {c d : Char} {t p : Str} (different : d ≠ c) :
    startswith (c :: t) (d :: p) = false := by
  show (d == c && _) = false
  rw [beq_false_of_ne different, Bool.false_and]

/-- A line that does not begin with a comment. -/
theorem isCodeLine_of_first {c : Char} {t : Str} (notComment : '/' ≠ c) :
    isCodeLine (c :: t) false = (isExecutableText (c :: t), false) := by
  have line : startswith (c :: t) "//".toList = false := startswith_cons_of_ne notComment
  have block : startswith (c :: t) "/*".toList = false := startswith_cons_of_ne notComment
  show isCodeLineFrom (c :: t) = _
  simp only [isCodeLineFrom]
  rw [skipComments_eq, line, block]
  rfl

end Functions

/-! ## The lines of control statements -/

/-- An expression on one line. -/
structure Expression where
  text : Str
  balanced : text.count '(' = text.count ')'
  plain : ';' ∉ text

def braceText (braced : Bool) : Str := if braced then " \x7b".toList else []

/-- `if (c)`, `switch (c) {` and the like. -/
def headText (keyword : Str) (cond : Expression) (braced : Bool) : Str :=
  keyword ++ " (".toList ++ cond.text ++ ')' :: braceText braced

/-- `else`, `else {`, `else if (c)` or `else if (c) {`. -/
def elseText (cond : Option Expression) (braced : Bool) : Str :=
  match cond with
  | none => "else".toList ++ braceText braced
  | some c => headText "else if".toList c braced

/-- `} else {` and the like. -/
def cuddledText (cond : Option Expression) (braced : Bool) : Str :=
  "\x7d ".toList ++ elseText cond braced

def caseText (value : Expression) : Str := "case ".toList ++ value.text ++ ":".toList

def defaultText : Str := "default:".toList

theorem sealed_headText (keyword : Str) (cond : Expression) (braced : Bool) :
    Sealed (headText keyword cond braced) := by
  have tail : Sealed (')' :: braceText braced) := by
    cases braced with
    | false => exact ⟨[], ')', by decide, rfl⟩
    | true => exact ⟨[')', ' '], '\x7b', by decide, rfl⟩
  exact tail.append _

theorem count_headText {keyword : Str} (cond : Expression) (braced : Bool) {paren : Char}
    (isParen : paren = '(' ∨ paren = ')') (plain : paren ∉ keyword) :
    (headText keyword cond braced).count paren = cond.text.count paren + 1 := by
  have brace : (braceText braced).count paren = 0 := by
    rcases isParen with rfl | rfl <;> cases braced <;> decide
  simp only [headText]
  rw [List.count_append, List.count_append, List.count_append, List.count_eq_zero.2 plain,
    List.count_cons, brace]
  rcases isParen with rfl | rfl
  · simp [Nat.add_comm]
  · simp

/-- The parenthesis depth after a line. -/
def depthAfter (depth : Nat) (s : Str) : Nat :=
  if endswith s ";".toList then 0 else depth + s.count '(' - s.count ')'

/-- A line that leaves neither a parenthesis nor an expression open. -/
structure CodeLine [UnicodeData] (s : Str) : Prop where
  code : isCodeLine s false = (true, false)
  closed : endswith s ";".toList = true ∨ s.count '(' = s.count ')'
  noOperator : endsWithOperator s = false

theorem CodeLine.depthAfter_eq [UnicodeData] {s : Str} (line : CodeLine s) : depthAfter 0 s = 0 := by
  simp only [depthAfter]
  rcases line.closed with ends | balanced
  · rw [if_pos ends]
  · rw [balanced]
    split <;> omega

section Lines

variable [UnicodeData]

/-! ### Keywords -/

theorem first_of_lit {c : Char} {t keyword : Str} {stop : Cursor} {starts : List Char}
    (member : keyword.headD ' ' ∈ starts) (nonempty : keyword ≠ [])
    (taken : stop ∈ (Regex.lit keyword).ends ⟨none, c :: t⟩) : c ∈ starts := by
  rcases mem_ends_lit.1 taken with ⟨tail, shape, -⟩
  rcases List.exists_cons_of_ne_nil nonempty with ⟨d, rest, rfl⟩
  rw [(List.cons.inj shape).1]
  exact member

/-- The first letters of the leading keywords. -/
theorem first_of_lead {c : Char} {t : Str} (lead : blockLeadRe.isMatch (c :: t) = true) :
    c ∈ ['i', 'e', 'f', 'w', 's', 'c', 'd'] := by
  simp only [Regex.isMatch] at lead
  rcases matchesAt_iff.1 lead with ⟨stop, ends⟩
  simp only [blockLeadRe, Regex.seqs, mem_ends_seq, mem_ends_start, mem_ends_oneOf] at ends
  rcases ends with ⟨_, ⟨-, rfl⟩, middle, ⟨r, listed, taken⟩, -⟩
  simp only [List.mem_cons, List.not_mem_nil, or_false] at listed
  rcases listed with rfl | rfl | rfl | rfl | rfl | rfl | rfl
  · exact first_of_lit (by decide) (by decide) taken
  · exact first_of_lit (by decide) (by decide) taken
  · exact first_of_lit (by decide) (by decide) taken
  · exact first_of_lit (by decide) (by decide) taken
  · exact first_of_lit (by decide) (by decide) taken
  · rcases mem_ends_seq.1 taken with ⟨_, taken, -⟩
    exact first_of_lit (by decide) (by decide) taken
  · rcases mem_ends_seq.1 taken with ⟨_, taken, -⟩
    exact first_of_lit (by decide) (by decide) taken

/-! ### Lines after a closing brace -/

omit [UnicodeData] in
theorem sealed_cuddledText (cond : Option Expression) {braced : Bool}
    (shape : cond ≠ none ∨ braced = true) : Sealed (cuddledText cond braced) := by
  simp only [cuddledText, elseText]
  cases cond with
  | none =>
      rw [shape.resolve_left fun some => some rfl]
      exact ⟨"\x7d else ".toList, '\x7b', by decide, rfl⟩
  | some c => exact (sealed_headText _ c braced).append _

/-- The line ends in a word, a parenthesis or a brace. -/
theorem codeLine_cuddled (cond : Option Expression) (braced : Bool) :
    CodeLine (cuddledText cond braced) := by
  by_cases shape : cond ≠ none ∨ braced = true
  · have sealed := sealed_cuddledText cond shape
    have noBackslash : endswith (cuddledText cond braced) "\\".toList = false :=
      sealed.endswith_eq [] (by decide)
    have notFunc : funcRe.isMatch (cuddledText cond braced) = false := by
      rw [← Bool.not_eq_true]
      intro found
      rcases shape_of_funcRe found with ⟨name, space, word, rest, equal, ⟨a, first, start⟩, -⟩
      cases name with
      | nil => cases first
      | cons b name =>
          cases first
          rw [← (List.cons.inj equal).1] at start
          exact absurd start (by decide)
    refine ⟨?_, ?_, sealed.noOperator⟩
    · simp only [cuddledText] at notFunc noBackslash ⊢
      have letters : "\x7d ".toList = ['\x7d', ' '] := by decide
      rw [letters] at notFunc noBackslash ⊢
      simp only [List.cons_append, List.nil_append] at notFunc noBackslash ⊢
      rw [isCodeLine_of_first (by decide)]
      simp only [isExecutableText]
      simp [startswith, notFunc, show endswith _ ['\\'] = false from noBackslash]
    · right
      simp only [cuddledText, elseText]
      cases cond with
      | none => cases braced <;> decide
      | some c =>
          rw [List.count_append, List.count_append,
            count_headText c braced (by simp) (by decide),
            count_headText c braced (by simp) (by decide), c.balanced]
          rfl
  · rw [not_or, not_not, Bool.not_eq_true] at shape
    rw [shape.1, shape.2]
    exact ⟨rfl, Or.inr (by decide), by decide⟩

theorem lead_of_brace {s : Str} (brace : startswith s "\x7d".toList = true) :
    blockLeadRe.isMatch s = false := by
  rw [← Bool.not_eq_true]
  intro lead
  rcases startswith_iff.1 brace with ⟨rest, rfl⟩
  exact absurd (first_of_lead lead) (by decide)

/-! ### Labels -/

theorem codeLine_case (value : Expression) : CodeLine (caseText value) := by
  have sealed : Sealed (caseText value) := ⟨_, ':', by decide, rfl⟩
  have noBackslash : endswith (caseText value) "\\".toList = false :=
    sealed.endswith_eq [] (by decide)
  refine ⟨?_, ?_, sealed.noOperator⟩
  · have shape : caseText value = "case ".toList ++ value.text ++ ":".toList := rfl
    rw [shape] at noBackslash ⊢
    have letters : "case ".toList = ['c', 'a', 's', 'e', ' '] := by decide
    have colon : ":".toList = [':'] := by decide
    simp only [letters, colon, List.cons_append, List.nil_append] at noBackslash ⊢
    rw [isCodeLine_of_first (by decide)]
    simp only [isExecutableText]
    simp [startswith, show endswith _ ['\\'] = false from noBackslash]
  · right
    show ("case ".toList ++ value.text ++ ":".toList).count '(' =
      ("case ".toList ++ value.text ++ ":".toList).count ')'
    simp [value.balanced]

theorem codeLine_default : CodeLine defaultText := ⟨rfl, Or.inr (by decide), by decide⟩

/-- `case` before a character outside `\w`. -/
theorem lead_of_case {keyword rest : Str} (isCase : keyword = "case".toList)
    (ends : EndsWord rest) : blockLeadRe.isMatch (keyword ++ rest) = true := by
  have word : IsWord keyword := by
    rw [isCase]
    exact ⟨by decide, by simp [isWordChar]⟩
  have border : (⟨lastOf none keyword, rest⟩ : Cursor) ∈
      Regex.boundary.ends ⟨lastOf none keyword, rest⟩ :=
    mem_ends_boundary.2 ⟨(atBoundary_after_word word none rest).2 ends, rfl⟩
  simp only [blockLeadRe, Regex.isMatch, Regex.seqs]
  apply matchesAt_iff.2
  refine ⟨⟨lastOf none keyword, rest⟩, mem_ends_seq.2 ⟨_, mem_ends_start.2 ⟨rfl, rfl⟩, ?_⟩⟩
  refine mem_ends_seq.2 ⟨_, mem_ends_oneOf.2 ⟨.seq (.lit keyword) .boundary, ?_, ?_⟩, border⟩
  · rw [isCase]
    exact List.mem_of_getElem? (i := 5) rfl
  · exact mem_ends_seq.2 ⟨_, mem_ends_lit.2 ⟨rest, rfl, rfl⟩, border⟩

theorem lead_case (value : Expression) : blockLeadRe.isMatch (caseText value) = true := by
  have shape : caseText value = "case".toList ++ (' ' :: (value.text ++ ":".toList)) := by
    show "case ".toList ++ value.text ++ ":".toList = _
    simp
  have ends : EndsWord (' ' :: (value.text ++ ":".toList)) := by
    show isWordChar ' ' = false
    simp [isWordChar]
  have lead := lead_of_case rfl ends
  rw [shape]
  exact lead

/-! ### Lines that are not executable -/

theorem passive_brace : isCodeLine "\x7d".toList false = (false, false) := by
  rfl

theorem passive_else (cond : Option Expression) (braced : Bool) :
    isCodeLine (elseText cond braced) false = (false, false) := by
  cases cond with
  | none => cases braced <;> rfl
  | some c =>
      have sealed := sealed_headText "else if".toList c braced
      have shape : elseText (some c) braced =
          "else if (".toList ++ c.text ++ ')' :: braceText braced := by
        simp [elseText, headText]
      have func : funcRe.isMatch (elseText (some c) braced) = true := by
        rw [shape]
        exact funcRe_elseIf c.plain (by cases braced <;> simp [braceText])
      have noBackslash : endswith (elseText (some c) braced) "\\".toList = false :=
        sealed.endswith_eq [] (by decide)
      have noSemicolon : endswith (elseText (some c) braced) ";".toList = false :=
        sealed.endswith_eq [] (by decide)
      have letters : "else if (".toList = ['e', 'l', 's', 'e', ' ', 'i', 'f', ' ', '('] := by decide
      rw [shape, letters] at func noBackslash noSemicolon ⊢
      simp only [List.cons_append, List.nil_append] at func noBackslash noSemicolon ⊢
      rw [isCodeLine_of_first (by decide)]
      simp only [isExecutableText]
      simp [startswith, func, show endswith _ ['\\'] = false from noBackslash,
        show endswith _ [';'] = false from noSemicolon]

theorem closesGap_else (cond : Option Expression) (braced : Bool) :
    closesGap (elseText cond braced) = true := by
  rw [closesGap_iff]
  right
  have shape : ∃ rest, elseText cond braced = "else".toList ++ rest ∧ EndsWord rest := by
    cases cond with
    | none =>
        cases braced with
        | false => exact ⟨[], rfl, rfl⟩
        | true => exact ⟨" \x7b".toList, rfl, by show isWordChar ' ' = false; simp [isWordChar]⟩
    | some c =>
        refine ⟨" if (".toList ++ c.text ++ ')' :: braceText braced, ?_, ?_⟩
        · simp [elseText, headText]
        · show isWordChar ' ' = false
          simp [isWordChar]
  rcases shape with ⟨rest, equal, ends⟩
  exact ⟨[], rest, by rw [equal]; rfl, rfl, ends⟩

/-! ### The usual lines between two arms -/

/-- `} else {`, `default:` and `case X:` are executable, and only the last one leads a
block: the `\b` behind `default:` fails at the end of the line. `else` and braces on lines of
their own are not executable and close what is open. -/
theorem usual_connectors (cond : Option Expression) (value : Expression) (braced : Bool) :
    (CodeLine (cuddledText cond braced) ∧ blockLeadRe.isMatch (cuddledText cond braced) = false) ∧
    (CodeLine defaultText ∧ blockLeadRe.isMatch defaultText = false) ∧
    (CodeLine (caseText value) ∧ blockLeadRe.isMatch (caseText value) = true) ∧
    (isCodeLine (elseText cond braced) false = (false, false) ∧
      closesGap (elseText cond braced) = true) ∧
    isCodeLine "\x7d".toList false = (false, false) ∧ closesGap "\x7d".toList = true :=
  ⟨⟨codeLine_cuddled cond braced, lead_of_brace rfl⟩, ⟨codeLine_default, rfl⟩,
    ⟨codeLine_case value, lead_case value⟩, ⟨passive_else cond braced, closesGap_else cond braced⟩,
    passive_brace, rfl⟩

end Lines

end Ocfs2Coverage.Source
