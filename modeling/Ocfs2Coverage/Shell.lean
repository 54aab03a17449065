import Ocfs2Coverage.Python.Search

/-!
Contract: text files that a shell script writes with `echo` and reads with `grep`.

Owns: the lines of a text as `grep` sees them, and the lines of texts put together.

Does not own: regular expressions other than fixed texts, texts that are not characters.
-/

namespace Ocfs2Coverage.Shell

open Ocfs2Coverage.Python

/-- What `echo line` appends to a file. -/
def echo (line : Str) : Str := line ++ ['\n']

/-- The lines of a text; what follows the last line feed counts when it is not empty. -/
def textLines : Str → List Str
  | [] => []
  | c :: rest =>
      if c = '\n' then [] :: textLines rest
      else
        match textLines rest with
        | [] => [[c]]
        | line :: lines => (c :: line) :: lines

/-- `grep -c '^tag'`. -/
def grepCount (tag text : Str) : Nat := (textLines text).countP fun line => startswith line tag

/-- `grep -q` for one of several texts. -/
def grepAny (patterns : List Str) (text : Str) : Bool :=
  (textLines text).any fun line => patterns.any fun p => contains line p

/-! ## Texts put together -/

theorem textLines_ne_nil {text : Str} (nonempty : text ≠ []) : textLines text ≠ [] := by
  cases text with
  | nil => exact absurd rfl nonempty
  | cons c rest =>
      rw [textLines]
      split
      · exact List.cons_ne_nil _ _
      · split
        · exact List.cons_ne_nil _ _
        · exact List.cons_ne_nil _ _

theorem textLines_append (text rest : Str) :
    textLines (echo text ++ rest) = textLines (echo text) ++ textLines rest := by
  induction text with
  | nil => rfl
  | cons c text inductionHypothesis =>
      simp only [echo, List.cons_append, List.append_assoc, List.nil_append] at inductionHypothesis ⊢
      rw [textLines, textLines, inductionHypothesis]
      split
      · rfl
      · cases found : textLines (text ++ ['\n']) with
        | nil => exact absurd found (textLines_ne_nil (by simp))
        | cons line lines => rfl

theorem textLines_line {line : Str} (plain : '\n' ∉ line) : textLines (echo line) = [line] := by
  induction line with
  | nil => rfl
  | cons c rest inductionHypothesis =>
      rw [List.mem_cons, not_or] at plain
      simp only [echo, List.cons_append] at inductionHypothesis ⊢
      rw [textLines, if_neg (Ne.symm plain.1), inductionHypothesis plain.2]

theorem grepCount_append (tag text rest : Str) :
    grepCount tag (echo text ++ rest) = grepCount tag (echo text) + grepCount tag rest := by
  simp only [grepCount]
  rw [textLines_append, List.countP_append]

theorem grepCount_line {line : Str} (tag : Str) (plain : '\n' ∉ line) :
    grepCount tag (echo line) = if startswith line tag then 1 else 0 := by
  simp only [grepCount]
  rw [textLines_line plain, List.countP_singleton]

/-- Behind a text without a line feed. -/
theorem contains_behind {front rest tag : Str} (plain : '\n' ∉ front) :
    contains (front ++ '\n' :: rest) ('\n' :: tag) =
      (startswith rest tag || contains rest ('\n' :: tag)) := by
  induction front with
  | nil =>
      rw [Bool.eq_iff_iff, Bool.or_eq_true, contains_iff, contains_iff, startswith_iff,
        List.nil_append, List.infix_cons_iff, List.cons_prefix_cons, and_iff_right rfl]
  | cons c front inductionHypothesis =>
      rw [List.mem_cons, not_or] at plain
      rw [← inductionHypothesis plain.2, Bool.eq_iff_iff, contains_iff, contains_iff,
        List.cons_append, List.infix_cons_iff, List.cons_prefix_cons]
      exact or_iff_right fun here => plain.1 here.1

/-- A tag without a line feed stands on the first line. -/
theorem startswith_front {front rest tag : Str} (plain : '\n' ∉ tag) :
    startswith (front ++ '\n' :: rest) tag = startswith front tag := by
  rw [Bool.eq_iff_iff, startswith_iff, startswith_iff]
  constructor
  · intro here
    rcases List.prefix_or_prefix_of_prefix here (List.prefix_append front _) with inside | longer
    · exact inside
    · rcases longer with ⟨more, rfl⟩
      rw [List.prefix_append_right_inj] at here
      cases more with
      | nil => exact ⟨[], by simp⟩
      | cons c more =>
          rw [List.cons_prefix_cons] at here
          exact absurd (by simp [here.1]) plain
  · exact fun here => here.trans (List.prefix_append front _)

/-- A line that begins with the tag: the first one, or one behind a line feed. -/
theorem grepCount_pos_iff {tag : Str} (plain : '\n' ∉ tag) (text : Str) :
    0 < grepCount tag (echo text) ↔
      startswith text tag = true ∨ contains text ('\n' :: tag) = true := by
  induction size : text.length using Nat.strong_induction_on generalizing text with
  | _ n inductionHypothesis =>
  by_cases single : '\n' ∈ text
  · -- The first line, and the text behind it.
    rcases List.eq_append_cons_of_mem single with ⟨front, rest, rfl, before⟩
    have shape : echo (front ++ '\n' :: rest) = echo front ++ echo rest := by
      simp [echo]
    have shorter : rest.length < n := by
      rw [← size, List.length_append, List.length_cons]
      omega
    have behind := inductionHypothesis rest.length shorter rest rfl
    rw [shape, grepCount_append, startswith_front plain, contains_behind before, Bool.or_eq_true,
      ← behind, grepCount_line tag before]
    split
    · next here => exact ⟨fun _ => Or.inl here, fun _ => by omega⟩
    · next here =>
        rw [Nat.zero_add]
        exact ⟨Or.inr, fun either => either.resolve_left here⟩
  · have absent : ¬ contains text ('\n' :: tag) = true := by
      rw [contains_iff]
      intro inside
      exact single (inside.mem List.mem_cons_self)
    rw [grepCount_line tag single]
    split
    · next here => exact ⟨fun _ => Or.inl here, fun _ => Nat.one_pos⟩
    · next here =>
        constructor
        · intro none
          omega
        · exact fun either => absurd either (not_or.2 ⟨here, absent⟩)

end Ocfs2Coverage.Shell
