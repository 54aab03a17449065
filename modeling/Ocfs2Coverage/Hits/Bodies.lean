import Ocfs2Coverage.Hits.Neighbours

/-!
Contract: the body of a control statement against its header and what follows it.

Owns: control statements as ranges of lines, and the exact condition on the text
under which the body shares no block with the header or with the line behind the
statement.
-/

namespace Ocfs2Coverage.Hits

open Ocfs2Coverage.Python
open Ocfs2Coverage.Source

section Bodies

variable [UnicodeData]

/-- A statement that begins a line with `if`, `else`, `for`, `while` or `switch`: its
header from `head` to `headEnd`, its body on the lines behind it up to `bodyEnd`, and
its last line `stop`, further on where an `else` follows. -/
structure ControlStatement (f : SourceFile) where
  head : Nat
  headEnd : Nat
  bodyEnd : Nat
  stop : Nat
  keyword : blockSplitNextRe.isMatch (textAt f.raw head) = true
  ordered : head ≤ headEnd ∧ headEnd < bodyEnd ∧ bodyEnd ≤ stop

variable {f : SourceFile}

/-- A line further on, up to `q`, is apart from the executable line before it. -/
def PartedLater (f : SourceFile) (k q : Nat) : Prop :=
  ∃ i a b, k < i ∧ f.lines[i]? = some a ∧ f.lines[i + 1]? = some b ∧ b ≤ q ∧ PartedAt f i a b

namespace ControlStatement

variable (s : ControlStatement f)

def InHeader (ln : Nat) : Prop := s.head ≤ ln ∧ ln ≤ s.headEnd

def InBody (ln : Nat) : Prop := s.headEnd < ln ∧ ln ≤ s.bodyEnd

instance (ln : Nat) : Decidable (s.InHeader ln) := inferInstanceAs (Decidable (_ ∧ _))

instance (ln : Nat) : Decidable (s.InBody ln) := inferInstanceAs (Decidable (_ ∧ _))

/-- The first executable line behind the statement. -/
def Follower (ln : Nat) : Prop :=
  ln ∈ f.lines ∧ s.stop < ln ∧ ∀ other ∈ f.lines, s.stop < other → ln ≤ other

/-- No executable line of the body has a block with the header or with the first
executable line behind the statement. -/
def BodyApart : Prop :=
  ∀ b ∈ f.lines, s.InBody b →
    (∀ a ∈ f.lines, s.InHeader a → f.blockOf b ≠ f.blockOf a) ∧
      ∀ q, s.Follower q → f.blockOf b ≠ f.blockOf q

/-- The body is apart from a header on one line. -/
def HeadParted (k b : Nat) : Prop :=
  gapCloses f.raw s.head b = true ∨
    (Fresh f (k + 1) b ∧ (Fresh f k s.head ∨ Leads f b ∨ Jumps f s.head))

/-- A body of one executable line right behind a header on one line is apart from the
executable line behind it. -/
def LinePart (k b next : Nat) : Prop :=
  gapCloses f.raw b next = true ∨
    (Fresh f (k + 2) next ∧
      (Leads f next ∨ Jumps f b ∨
        (Fresh f (k + 1) b ∧ (Keyword f b ∨ (Fresh f k s.head ∧ ¬ HasBrace f s.head)))))

/-- Two neighbours of which only the first is a line of the body. -/
structure Leaves (k b next : Nat) : Prop where
  last : f.lines[k]? = some b
  behind : f.lines[k + 1]? = some next
  inside : s.InBody b
  outside : s.bodyEnd < next

/-- The text separates the first executable line of the body from the last one of the
header, and the last one of the body from the first one behind the statement, at once or
later on in the statement. -/
structure Separated : Prop where
  head : ∀ k b, f.lines[k]? = some s.head → f.lines[k + 1]? = some b → s.InBody b →
    s.HeadParted k b
  header : ∀ k a b, f.lines[k]? = some a → f.lines[k + 1]? = some b → s.InHeader a →
    a ≠ s.head → s.InBody b → PartedAt f k a b
  line : ∀ k b next q, f.lines[k]? = some s.head → s.Leaves (k + 1) b next → s.Follower q →
    s.LinePart k b next ∨ PartedLater f (k + 1) q
  rest : ∀ k b next q, s.Leaves k b next → s.Follower q →
    (∀ i, k = i + 1 → f.lines[i]? ≠ some s.head) → PartedAt f k b next ∨ PartedLater f k q

end ControlStatement

namespace ControlStatement

variable {s : ControlStatement f}

/-- A header on one line begins with its keyword. -/
theorem headParted_iff {k b : Nat} : s.HeadParted k b ↔ PartedAt f k s.head b := by
  have keyword : Keyword f s.head := s.keyword
  simp only [HeadParted, PartedAt, keyword, true_or, and_true]
  exact or_congr_right (and_congr_right fun _ => or_rotate)

/-- The loop remembers a bare head for one executable line. -/
theorem linePart_iff {k b next : Nat} (head : f.lines[k]? = some s.head) :
    s.LinePart k b next ↔ PartedAt f (k + 1) b next := by
  have bare : AfterBare f (k + 1) ↔ Fresh f k s.head ∧ ¬ HasBrace f s.head := by
    constructor
    · intro ⟨i, line, equal, place, fresh, _, noBrace⟩
      have same : k = i := Nat.succ.inj equal
      subst same
      rw [head, Option.some.injEq] at place
      subst place
      exact ⟨fresh, noBrace⟩
    · intro ⟨fresh, noBrace⟩
      exact ⟨k, s.head, rfl, head, fresh, s.keyword, noBrace⟩
  simp only [LinePart, PartedAt, bare]

theorem separated_iff : s.Separated ↔
    (∀ k a b, f.lines[k]? = some a → f.lines[k + 1]? = some b → s.InHeader a → s.InBody b →
      PartedAt f k a b) ∧
    ∀ k b next q, s.Leaves k b next → s.Follower q → PartedAt f k b next ∨ PartedLater f k q := by
  constructor
  · intro separated
    constructor
    · intro k a b first second inHeader inBody
      by_cases atHead : a = s.head
      · subst atHead
        exact headParted_iff.1 (separated.head k b first second inBody)
      · exact separated.header k a b first second inHeader atHead inBody
    · intro k b next q leaves follower
      by_cases behind : ∃ i, k = i + 1 ∧ f.lines[i]? = some s.head
      · obtain ⟨i, rfl, head⟩ := behind
        exact (separated.line i b next q head leaves follower).imp_left (linePart_iff head).1
      · exact separated.rest k b next q leaves follower fun i equal head => behind ⟨i, equal, head⟩
  · intro ⟨header, rest⟩
    have inHeader : s.InHeader s.head := ⟨Nat.le_refl _, s.ordered.1⟩
    exact
      { head := fun k b first second inBody =>
          headParted_iff.2 (header k s.head b first second inHeader inBody)
        header := fun k a b first second within _ inBody => header k a b first second within inBody
        line := fun k b next q head leaves follower =>
          (rest (k + 1) b next q leaves follower).imp_left (linePart_iff head).2
        rest := fun k b next q leaves follower _ => rest k b next q leaves follower }

theorem separated_of_apart (apart : s.BodyApart) : s.Separated := by
  apply separated_iff.2
  constructor
  · intro k a b first second inHeader inBody
    by_contra together
    have same := (blockOf_eq_iff_parted first second (Nat.le_succ k)).2 (by
      intro i u v lower upper here next
      have place : i = k := by omega
      subst place
      rw [first, Option.some.injEq] at here
      rw [second, Option.some.injEq] at next
      rw [← here, ← next]
      exact together)
    exact (apart b (List.mem_of_getElem? second) inBody).1 a (List.mem_of_getElem? first) inHeader
      same.symm
  · intro k b next q leaves follower
    obtain ⟨j, last⟩ := List.getElem?_of_mem follower.1
    have bounds := s.ordered
    have less : k < j := by
      apply (lines_lt leaves.last last).1
      have inside := leaves.inside.2
      have outside := follower.2.1
      omega
    by_contra neither
    rw [not_or] at neither
    have same := (blockOf_eq_iff_parted leaves.last last (Nat.le_of_lt less)).2 (by
      intro i u v lower upper here ahead parted
      rcases Nat.eq_or_lt_of_le lower with place | later
      · subst place
        rw [leaves.last, Option.some.injEq] at here
        rw [leaves.behind, Option.some.injEq] at ahead
        rw [← here, ← ahead] at parted
        exact neither.1 parted
      · have upTo : v ≤ q := by
          by_contra beyond
          have order := (lines_lt last ahead).1 (Nat.lt_of_not_le beyond)
          omega
        exact neither.2 ⟨i, u, v, later, here, ahead, upTo, parted⟩)
    exact (apart b (List.mem_of_getElem? leaves.last) leaves.inside).2 q follower same

theorem apart_of_separated (separated : s.Separated) : s.BodyApart := by
  obtain ⟨header, rest⟩ := separated_iff.1 separated
  intro b listedB inBody
  obtain ⟨i, first⟩ := List.getElem?_of_mem listedB
  have bounds := s.ordered
  have fromHeader : ∀ a ∈ f.lines, s.InHeader a → f.blockOf b ≠ f.blockOf a := by
    intro a listedA inHeader same
    obtain ⟨h, start⟩ := List.getElem?_of_mem listedA
    obtain ⟨k, u, v, lower, upper, here, next, above, inside, outside, below⟩ :=
      exists_crossing start first inHeader.2 inBody.1
    have parted := header k u v here next ⟨Nat.le_trans inHeader.1 above, inside⟩
      ⟨outside, Nat.le_trans below inBody.2⟩
    exact (blockOf_eq_iff_parted start first (by omega)).1 same.symm k u v lower upper here next parted
  have fromRest : ∀ q, s.Follower q → f.blockOf b ≠ f.blockOf q := by
    intro q follower same
    obtain ⟨j, last⟩ := List.getElem?_of_mem follower.1
    have outside : s.bodyEnd < q := by
      have behind := follower.2.1
      omega
    obtain ⟨k, u, v, lower, upper, here, next, above, inside, beyond, -⟩ :=
      exists_crossing first last inBody.2 outside
    have leaves : s.Leaves k u v := ⟨here, next, ⟨Nat.lt_of_lt_of_le inBody.1 above, inside⟩, beyond⟩
    have all := (blockOf_eq_iff_parted first last (by omega)).1 same
    rcases rest k u v q leaves follower with parted | ⟨m, x, y, later, place, place', upTo, parted⟩
    · exact all k u v lower upper here next parted
    · have earlier : m < j := by
        by_contra beyond'
        have order := (lines_lt last place').2 (by omega)
        omega
      exact all m x y (by omega) earlier place place' parted
  exact ⟨fromHeader, fromRest⟩

end ControlStatement

/-- A header broken inside its parentheses shares its block with the body, unless the
body begins with a control statement or a jump word ends the header. -/
theorem not_bodyApart_of_broken {s : ControlStatement f} {k a b : Nat} (first : f.lines[k]? = some a)
    (second : f.lines[k + 1]? = some b) (inHeader : s.InHeader a) (inBody : s.InBody b)
    (broken : ¬ Fresh f k a) (noGap : gapCloses f.raw a b = false) (noLead : ¬ Leads f b)
    (noJump : ¬ Jumps f a) : ¬ s.BodyApart := by
  intro apart
  obtain ⟨header, -⟩ := ControlStatement.separated_iff.1 (ControlStatement.separated_of_apart apart)
  rcases header k a b first second inHeader inBody with closed | ⟨-, lead | jump | ⟨fresh, -⟩⟩
  · rw [noGap] at closed
    cases closed
  · exact noLead lead
  · exact noJump jump
  · exact broken fresh

/-- A header on one line, with nothing open before or behind it, is apart from its body,
and so is what stands behind a body that is one line or is closed by a brace. -/
theorem bodyApart_of_oneLine {s : ControlStatement f} {k : Nat} (head : f.lines[k]? = some s.head)
    (oneLine : s.headEnd = s.head) (fresh : Fresh f k s.head)
    (freshBody : ∀ b, f.lines[k + 1]? = some b → Fresh f (k + 1) b)
    (closed : ∀ i b next, s.Leaves i b next → gapCloses f.raw b next = true ∨
      (i = k + 1 ∧ ¬ HasBrace f s.head ∧ Fresh f (k + 2) next)) : s.BodyApart := by
  apply ControlStatement.apart_of_separated
  apply ControlStatement.separated_iff.2
  constructor
  · intro i a b first second inHeader _
    have atHead : a = s.head := by
      have lower := inHeader.1
      have upper := inHeader.2
      omega
    subst atHead
    have here : i = k := by
      rcases Nat.lt_trichotomy i k with less | equal | more
      · have := (lines_lt first head).2 less
        omega
      · exact equal
      · have := (lines_lt head first).2 more
        omega
    subst here
    exact ControlStatement.headParted_iff.1 (Or.inr ⟨freshBody b second, Or.inl fresh⟩)
  · intro i b next q leaves _
    left
    rcases closed i b next leaves with gap | ⟨rfl, noBrace, freshNext⟩
    · exact Or.inl gap
    · apply (ControlStatement.linePart_iff head).1
      exact Or.inr ⟨freshNext, Or.inr (Or.inr ⟨freshBody b leaves.last, Or.inr ⟨fresh, noBrace⟩⟩)⟩

end Bodies

section Sample

attribute [local instance] asciiUnicode

/-- A condition on two lines, and an unbraced body on two lines. -/
def brokenText : Str :=
  "int f(int a, int b)\n\x7b\n\tif (a &&\n\t    b) \x7b\n\t\tfoo();\n\t\x7d\n\tif (a)\n\t\tx = a +\n\t\t\tb;\n\tbar();\n\x7d\n".toList

def brokenHeader : ControlStatement (parsedFile "a.c".toList brokenText) where
  head := 3
  headEnd := 4
  bodyEnd := 6
  stop := 6
  keyword := by decide
  ordered := by decide

def brokenBody : ControlStatement (parsedFile "a.c".toList brokenText) where
  head := 7
  headEnd := 7
  bodyEnd := 9
  stop := 9
  keyword := by decide
  ordered := by decide

end Sample

end Ocfs2Coverage.Hits
