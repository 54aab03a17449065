import Ocfs2Coverage.Hits.Files
import Ocfs2Coverage.Source.Borders

/-!
Contract: neighbouring executable lines of a file, and what parts them.

Owns: the tests on the text that put two neighbours into different blocks, and two
executable lines share a block when no neighbours between them are parted.

Does not own: statements, their bodies and arms.
-/

namespace Ocfs2Coverage.Hits

open Ocfs2Coverage.Python
open Ocfs2Coverage.Source

section Neighbours

variable [UnicodeData] {f : SourceFile}

/-! ## What is said of an executable line by its place and its text -/

/-- No parenthesis and no final operator is left open where the line stands. -/
def Fresh (f : SourceFile) (k ln : Nat) : Prop :=
  goesOn f.raw (f.lines.take k).reverse ln = false

/-- The line begins with `if`, `else`, `for`, `while` or `switch`. -/
def Keyword (f : SourceFile) (ln : Nat) : Prop :=
  blockSplitNextRe.isMatch (textAt f.raw ln) = true

/-- The line begins as `BLOCK_LEAD_RE` wants it. -/
def Leads (f : SourceFile) (ln : Nat) : Prop := blockLeadRe.isMatch (textAt f.raw ln) = true

/-- `return`, `goto`, `break` or `continue` is a word of the line. -/
def Jumps (f : SourceFile) (ln : Nat) : Prop := blockEndRe.search (textAt f.raw ln) = true

def HasBrace (f : SourceFile) (ln : Nat) : Prop :=
  contains (textAt f.raw ln) "\x7b".toList = true

/-- The executable line before this place is fresh and begins with a keyword, and has no
brace. -/
def AfterBare (f : SourceFile) (k : Nat) : Prop :=
  ∃ i head, k = i + 1 ∧ f.lines[i]? = some head ∧ Fresh f i head ∧ Keyword f head ∧
    ¬ HasBrace f head

/-- The text separates line `b` from the executable line `a` before it: a line between
them has a closing brace or the word `else`, or `b` is fresh and it leads, or `a` has a
jump word, or is fresh and begins with a keyword or stands behind a bare head. -/
def PartedAt (f : SourceFile) (k a b : Nat) : Prop :=
  gapCloses f.raw a b = true ∨
    (Fresh f (k + 1) b ∧
      (Leads f b ∨ Jumps f a ∨ (Fresh f k a ∧ (Keyword f a ∨ AfterBare f k))))

/-! ## Lines by their place among the executable ones -/

theorem lines_lt {i j a b : Nat} (first : f.lines[i]? = some a) (second : f.lines[j]? = some b) :
    a < b ↔ i < j := by
  obtain ⟨insideI, rfl⟩ := List.getElem?_eq_some_iff.1 first
  obtain ⟨insideJ, rfl⟩ := List.getElem?_eq_some_iff.1 second
  have increasing : f.lines.Pairwise (· < ·) := f.increasing
  have sorted := List.pairwise_iff_getElem.1 increasing
  rcases Nat.lt_trichotomy i j with less | rfl | more
  · exact ⟨fun _ => less, fun _ => sorted i j insideI insideJ less⟩
  · omega
  · have reversed := sorted j i insideJ insideI more
    exact ⟨fun below => by omega, fun below => by omega⟩

/-- Two executable lines share a block when no border lies between them. -/
theorem blockOf_eq_iff_borders {i j a b : Nat} (first : f.lines[i]? = some a)
    (second : f.lines[j]? = some b) (le : i ≤ j) :
    f.blockOf a = f.blockOf b ↔ ∀ k, i ≤ k → k < j → borderBehind f.raw f.lines k = false := by
  obtain ⟨insideI, rfl⟩ := List.getElem?_eq_some_iff.1 first
  obtain ⟨insideJ, rfl⟩ := List.getElem?_eq_some_iff.1 second
  rw [f.blockOf_eq, f.blockOf_eq]
  exact Source.blockOf_eq_iff f.nodup_lines le insideJ

/-- The borders the loop sees, place by place. -/
theorem borderBehind_iff_parted {k a b : Nat} (first : f.lines[k]? = some a)
    (second : f.lines[k + 1]? = some b) :
    borderBehind f.raw f.lines k = true ↔ PartedAt f k a b := by
  obtain ⟨insideA, rfl⟩ := List.getElem?_eq_some_iff.1 first
  obtain ⟨insideB, rfl⟩ := List.getElem?_eq_some_iff.1 second
  have seen : (f.lines.take (k + 1)).reverse = f.lines[k] :: (f.lines.take k).reverse := by
    rw [List.take_succ_eq_append_getElem insideA, List.reverse_append]
    rfl
  have bare : bareBody f.raw (f.lines.take k).reverse f.lines[k] = true ↔
      Fresh f k f.lines[k] ∧ AfterBare f k := by
    cases k with
    | zero =>
        show false = true ↔ _
        constructor
        · intro none
          cases none
        · rintro ⟨_, i, _, equal, _⟩
          cases equal
    | succ i =>
        have before : i < f.lines.length := by omega
        have front : (f.lines.take (i + 1)).reverse = f.lines[i] :: (f.lines.take i).reverse := by
          rw [List.take_succ_eq_append_getElem before, List.reverse_append]
          rfl
        simp only [Fresh, AfterBare, Keyword, HasBrace]
        rw [front]
        simp only [bareBody, headLine, Bool.and_eq_true, Bool.not_eq_true']
        constructor
        · rintro ⟨⟨⟨fresh, keyword⟩, noBrace⟩, here⟩
          exact ⟨here, i, f.lines[i], rfl, List.getElem?_eq_getElem before, fresh, keyword,
            by rw [noBrace]; decide⟩
        · rintro ⟨here, j, head, equal, place, fresh, keyword, noBrace⟩
          have same : i = j := Nat.succ.inj equal
          subst same
          rw [List.getElem?_eq_getElem before, Option.some.injEq] at place
          subst place
          exact ⟨⟨⟨fresh, keyword⟩, Bool.eq_false_iff.2 noBrace⟩, here⟩
  have heads : headLine f.raw (f.lines.take k).reverse f.lines[k] = true ↔
      Fresh f k f.lines[k] ∧ Keyword f f.lines[k] := by
    simp only [headLine, Fresh, Keyword, Bool.and_eq_true, Bool.not_eq_true']
  simp only [borderBehind]
  rw [List.drop_eq_getElem_cons insideA, List.drop_eq_getElem_cons insideB]
  show border _ _ _ _ = true ↔ _
  simp only [border, PartedAt]
  rw [Bool.or_eq_true, Bool.and_eq_true, Bool.not_eq_true', Bool.or_eq_true, Bool.or_eq_true,
    Bool.or_eq_true, bare, heads, ← seen, or_assoc, or_assoc, ← and_or_left]
  rfl

/-- Between lines on both sides of `x` two neighbouring lines are on both sides of it. -/
theorem exists_crossing {i j a b x : Nat} (first : f.lines[i]? = some a)
    (second : f.lines[j]? = some b) (below : a ≤ x) (above : x < b) :
    ∃ k u v, i ≤ k ∧ k < j ∧ f.lines[k]? = some u ∧ f.lines[k + 1]? = some v ∧
      a ≤ u ∧ u ≤ x ∧ x < v ∧ v ≤ b := by
  have less : i < j := (lines_lt first second).1 (by omega)
  induction j, less using Nat.le_induction generalizing b with
  | base => exact ⟨i, a, b, Nat.le_refl i, Nat.lt_succ_self i, first, second, Nat.le_refl a, below,
      above, Nat.le_refl b⟩
  | succ j later inductionHypothesis =>
      have inside := (List.getElem?_eq_some_iff.1 second).1
      have middle : f.lines[j]? = some f.lines[j] := List.getElem?_eq_getElem (by omega)
      have behind := (lines_lt middle second).2 (Nat.lt_succ_self j)
      rcases Nat.lt_or_ge x f.lines[j] with early | late
      · obtain ⟨k, u, v, lower, upper, here, next, bounds⟩ := inductionHypothesis middle early
        exact ⟨k, u, v, lower, by omega, here, next, bounds.1, bounds.2.1, bounds.2.2.1, by omega⟩
      · have ahead := (lines_lt first middle).2 later
        exact ⟨j, f.lines[j], b, by omega, Nat.lt_succ_self j, middle, second, by omega, late, above,
          Nat.le_refl b⟩

/-- Two executable lines share a block when no neighbours between them are parted. -/
theorem blockOf_eq_iff_parted {i j a b : Nat} (first : f.lines[i]? = some a)
    (second : f.lines[j]? = some b) (le : i ≤ j) :
    f.blockOf a = f.blockOf b ↔ ∀ k u v, i ≤ k → k < j → f.lines[k]? = some u →
      f.lines[k + 1]? = some v → ¬ PartedAt f k u v := by
  rw [blockOf_eq_iff_borders first second le]
  have inside := (List.getElem?_eq_some_iff.1 second).1
  constructor
  · intro all k u v lower upper here next parted
    have border := (borderBehind_iff_parted here next).2 parted
    rw [all k lower upper] at border
    cases border
  · intro none k lower upper
    apply Bool.eq_false_iff.2
    intro border
    have here : f.lines[k]? = some f.lines[k] := List.getElem?_eq_getElem (by omega)
    have next : f.lines[k + 1]? = some f.lines[k + 1] := List.getElem?_eq_getElem (by omega)
    exact none k _ _ lower upper here next ((borderBehind_iff_parted here next).1 border)

/-- A keyword at the beginning of a line leads a block. -/
theorem leads_of_keyword {ln : Nat} (keyword : Keyword f ln) : Leads f ln := lead_of_splitNext keyword

/-- Nothing is open behind a fresh line that leaves nothing open itself. -/
theorem fresh_behind {k a : Nat} (first : f.lines[k]? = some a) (fresh : Fresh f k a)
    (closed : depthAfter 0 (textAt f.raw a) = 0)
    (noOperator : endsWithOperator (textAt f.raw a) = false) (b : Nat) : Fresh f (k + 1) b := by
  obtain ⟨inside, rfl⟩ := List.getElem?_eq_some_iff.1 first
  have seen : (f.lines.take (k + 1)).reverse = f.lines[k] :: (f.lines.take k).reverse := by
    rw [List.take_succ_eq_append_getElem inside, List.reverse_append]
    rfl
  simp only [Fresh] at fresh ⊢
  rw [seen]
  have none : openParens f.raw (f.lines[k] :: (f.lines.take k).reverse) = 0 := by
    revert fresh
    cases (f.lines.take k).reverse with
    | nil => exact fun _ => closed
    | cons prev rest =>
        intro fresh
        simp only [goesOn, Bool.and_eq_false_iff, Bool.not_eq_false', Bool.or_eq_false_iff,
          decide_eq_false_iff_not] at fresh
        simp only [openParens]
        rcases fresh with gap | ⟨zero, -⟩
        · rw [gap]
          exact closed
        · rw [Nat.eq_zero_of_not_pos zero, ite_self]
          exact closed
  simp only [goesOn]
  rw [none, noOperator]
  simp

end Neighbours

end Ocfs2Coverage.Hits
