import Ocfs2Coverage.Python.Search
import Ocfs2Coverage.Trace.Attribution

/-!
Contract: the relative paths `_rel_from_sf` recovers below a checkout directory.

Owns: what it makes of the path of a file in terms of the directory and the relative
path, and the directories and relative paths it gets right.
-/

namespace Ocfs2Coverage.Trace

open Ocfs2Coverage.Python

def srcMarker : Str := "/ocfs2_src/".toList

def fsMarker : Str := "/fs/ocfs2/".toList

/-- The directory contains no marker of `_rel_from_sf`, with the slash behind it. -/
def PlainCheckout (here : Str) : Prop :=
  contains (here ++ ['/']) srcMarker = false ∧ contains (here ++ ['/']) fsMarker = false

instance (here : Str) : Decidable (PlainCheckout here) := inferInstanceAs (Decidable (_ ∧ _))

/-- The relative path has a component `ocfs2_src` above its last one. -/
def Marked (rel : Str) : Prop := contains ('/' :: rel) srcMarker = true

instance (rel : Str) : Decidable (Marked rel) := inferInstanceAs (Decidable (_ = _))

/-- What is recovered from the path of `rel` below the directory. -/
def recovered (here rel : Str) : Str :=
  match splitOnce srcMarker (here ++ ['/']) with
  | some parts => parts.2 ++ ("fs/ocfs2/".toList ++ rel)
  | none =>
      match splitOnce srcMarker ('/' :: rel) with
      | some parts => parts.2
      | none =>
          match splitOnce fsMarker (here ++ ['/']) with
          | some parts => parts.2 ++ ("fs/ocfs2/".toList ++ rel)
          | none => rel

/-! ## Occurrences of the markers -/

theorem uncrossed_src (left rel : Str) : Uncrossed srcMarker left ("fs/".toList ++ rel) :=
  uncrossed_of_take (by decide)

/-- The first marker does not begin in `fs/ocfs2`. -/
theorem uncrossed_rel (left rel : Str) : Uncrossed srcMarker (left ++ "fs/ocfs2".toList) ('/' :: rel) := by
  intro front back nonempty nonempty' shape suffix prefix_
  have check : ∀ n ∈ List.range srcMarker.length, n ≠ 0 → (srcMarker.drop n).head? = some '/' →
      (srcMarker.take n).getLast? ≠ some '2' := by decide
  have inside : front.length ∈ List.range srcMarker.length := by
    rw [List.mem_range, shape, List.length_append]
    have positive := List.length_pos_iff.2 nonempty'
    omega
  apply check _ inside fun zero => nonempty (List.length_eq_zero_iff.1 zero)
  · rw [shape, List.drop_left]
    obtain ⟨rest, equal⟩ := prefix_
    cases back with
    | nil => exact absurd rfl nonempty'
    | cons c back =>
        obtain ⟨rfl, -⟩ := List.cons_eq_cons.1 equal
        rfl
  · rw [shape, List.take_left]
    obtain ⟨before, equal⟩ := suffix
    have last := congrArg List.getLast? equal
    rw [List.getLast?_append_of_ne_nil before nonempty] at last
    rw [last]
    simp

theorem split_src (here rel : Str) :
    splitOnce srcMarker (sfPath here rel) =
      match splitOnce srcMarker (here ++ ['/']) with
      | some parts => some (parts.1, parts.2 ++ ("fs/ocfs2/".toList ++ rel))
      | none => (splitOnce srcMarker ('/' :: rel)).map fun parts =>
          (here ++ "/fs/ocfs2".toList ++ parts.1, parts.2) := by
  have first : sfPath here rel = (here ++ ['/']) ++ ("fs/".toList ++ ("ocfs2/".toList ++ rel)) := by
    simp [sfPath]
  have second : sfPath here rel = (here ++ "/fs/ocfs2".toList) ++ ('/' :: rel) := by
    simp [sfPath]
  cases found : splitOnce srcMarker (here ++ ['/']) with
  | some parts =>
      rw [first, splitOnce_append_of_some found]
      rfl
  | none =>
      -- What is left of the directory holds no marker either.
      have absent : contains (here ++ "/fs/ocfs2".toList) srcMarker = false := by
        have seam := contains_append (uncrossed_src (here ++ ['/']) "ocfs2".toList)
        have directory : contains (here ++ ['/']) srcMarker = false := by
          simp only [contains]
          rw [found]
          rfl
        rw [directory] at seam
        have shape : here ++ "/fs/ocfs2".toList = (here ++ ['/']) ++ ("fs/".toList ++ "ocfs2".toList) := by
          simp
        rw [shape, seam]
        decide
      have crossed : Uncrossed srcMarker (here ++ "/fs/ocfs2".toList) ('/' :: rel) := by
        have inner := uncrossed_rel (here ++ ['/']) rel
        rwa [List.append_assoc] at inner
      rw [second, splitOnce_append_of_absent absent crossed]

theorem split_fs (here rel : Str) :
    splitOnce fsMarker (sfPath here rel) =
      match splitOnce fsMarker (here ++ ['/']) with
      | some parts => some (parts.1, parts.2 ++ ("fs/ocfs2/".toList ++ rel))
      | none => some (here, rel) := by
  cases found : splitOnce fsMarker (here ++ ['/']) with
  | some parts =>
      have shape : sfPath here rel = (here ++ ['/']) ++ ("fs/ocfs2/".toList ++ rel) := by
        simp [sfPath]
      rw [shape, splitOnce_append_of_some found]
  | none =>
      have absent : ¬ fsMarker <:+: here ++ ['/'] := by
        rw [← contains_iff]
        simp only [contains]
        rw [found]
        exact Bool.false_ne_true
      have clear : contains here fsMarker = false := by
        rw [← Bool.not_eq_true, contains_iff]
        exact fun inside => absent (inside.trans List.infix_append_left)
      -- Only the slash can end one marker and begin the next.
      have crossed : Uncrossed fsMarker here (fsMarker ++ rel) := by
        intro front back nonempty nonempty' shape suffix prefix_
        have check : ∀ n ∈ List.range fsMarker.length, n ≠ 0 → fsMarker.drop n ≠ ['/'] →
            ((fsMarker.drop n).take fsMarker.length).isPrefixOf fsMarker = false := by decide
        have dropped : fsMarker.drop front.length = back := by
          rw [shape, List.drop_left]
        have inside : front.length ∈ List.range fsMarker.length := by
          rw [List.mem_range, shape, List.length_append]
          have positive := List.length_pos_iff.2 nonempty'
          omega
        by_cases slash : back = ['/']
        · rcases suffix with ⟨before, rfl⟩
          apply absent
          rw [List.append_assoc, ← slash, ← shape]
          exact List.infix_append_right
        · have none := check _ inside (fun zero => nonempty (List.length_eq_zero_iff.1 zero))
            (by rwa [dropped])
          have short := prefix_.take fsMarker.length
          rw [List.take_left, ← dropped] at short
          rw [List.isPrefixOf_iff_prefix.2 short] at none
          cases none
      have whole : splitOnce fsMarker (fsMarker ++ rel) = some ([], rel) := rfl
      have shape : sfPath here rel = here ++ (fsMarker ++ rel) := List.append_assoc _ _ _
      rw [shape, splitOnce_append_of_absent clear crossed, whole, Option.map_some, List.append_nil]

/-- `_rel_from_sf` of the path of a file. -/
theorem relFromSf_sfPath {here rel : Str} (plain : '\\' ∉ sfPath here rel) :
    relFromSf (sfPath here rel) = recovered here rel := by
  simp only [relFromSf, recovered]
  rw [replaceChar_of_notMem plain]
  show relFromMarkers _ [srcMarker, fsMarker, _] = _
  simp only [relFromMarkers]
  rw [split_src, split_fs]
  cases splitOnce srcMarker (here ++ ['/']) with
  | some parts => rfl
  | none =>
      cases splitOnce srcMarker ('/' :: rel) with
      | some parts => rfl
      | none =>
          cases splitOnce fsMarker (here ++ ['/']) with
          | some parts => rfl
          | none => rfl

/-! ## Right and wrong names -/

theorem splitOnce_eq_none {sep s : Str} : splitOnce sep s = none ↔ contains s sep = false := by
  simp only [contains]
  rw [Option.isSome_eq_false_iff, Option.isNone_iff_eq_none]

theorem longer_behind (parts : Str × Str) (rel : Str) :
    rel.length < (parts.2 ++ ("fs/ocfs2/".toList ++ rel)).length := by
  rw [List.length_append, List.length_append]
  show rel.length < parts.2.length + (9 + rel.length)
  omega

theorem contains_of_split {sep s : Str} {parts : Str × Str} (found : splitOnce sep s = some parts) :
    contains s sep = true := by
  simp only [contains]
  rw [found]
  rfl

/-- What stands behind the second marker in the directory does not mark the name. -/
theorem not_marked_behind {here rel : Str} {parts : Str × Str}
    (directory : contains (here ++ ['/']) srcMarker = false) (plain : ¬ Marked rel)
    (found : splitOnce fsMarker (here ++ ['/']) = some parts) :
    ¬ Marked (parts.2 ++ ("fs/ocfs2/".toList ++ rel)) := by
  have first : contains ('/' :: parts.2) srcMarker = false := by
    have shape := splitOnce_eq_some found
    have slash : fsMarker = "/fs/ocfs2".toList ++ ['/'] := rfl
    have suffix : '/' :: parts.2 <:+ here ++ ['/'] := by
      rw [shape, slash]
      exact ⟨parts.1 ++ "/fs/ocfs2".toList, by simp⟩
    rw [← Bool.not_eq_true, contains_iff] at directory ⊢
    exact fun inside => directory (inside.trans suffix.isInfix)
  have seam := contains_append (uncrossed_src ('/' :: parts.2) ("ocfs2".toList ++ '/' :: rel))
  have seam' := contains_append (uncrossed_rel [] rel)
  have shape : '/' :: (parts.2 ++ ("fs/ocfs2/".toList ++ rel)) =
      ('/' :: parts.2) ++ ("fs/".toList ++ ("ocfs2".toList ++ '/' :: rel)) := by
    simp
  have shape' : "fs/".toList ++ ("ocfs2".toList ++ '/' :: rel) =
      ([] ++ "fs/ocfs2".toList) ++ '/' :: rel := by
    simp
  have name : contains ('/' :: rel) srcMarker = false := Bool.eq_false_iff.2 plain
  simp only [Marked]
  rw [shape, seam, first, shape', seam', name]
  decide

/-- The four ways a name can go. -/
theorem recovered_cases (here rel : Str) :
    contains (here ++ ['/']) srcMarker = true ∧ rel.length < (recovered here rel).length ∨
    contains (here ++ ['/']) srcMarker = false ∧ Marked rel ∧
      (recovered here rel).length < rel.length ∨
    contains (here ++ ['/']) srcMarker = false ∧ contains (here ++ ['/']) fsMarker = true ∧
      ¬ Marked rel ∧ rel.length < (recovered here rel).length ∧ ¬ Marked (recovered here rel) ∨
    PlainCheckout here ∧ ¬ Marked rel ∧ recovered here rel = rel := by
  simp only [recovered]
  cases first : splitOnce srcMarker (here ++ ['/']) with
  | some parts => exact Or.inl ⟨contains_of_split first, longer_behind parts rel⟩
  | none =>
      have directory := splitOnce_eq_none.1 first
      cases second : splitOnce srcMarker ('/' :: rel) with
      | some parts =>
          have counted := congrArg List.length (splitOnce_eq_some second)
          rw [List.length_append, List.length_append, List.length_cons] at counted
          have marker : srcMarker.length = 11 := rfl
          have shorter : parts.2.length < rel.length := by omega
          exact Or.inr (Or.inl ⟨directory, contains_of_split second, shorter⟩)
      | none =>
          have plain : ¬ Marked rel := Bool.eq_false_iff.1 (splitOnce_eq_none.1 second)
          cases third : splitOnce fsMarker (here ++ ['/']) with
          | some parts =>
              exact Or.inr (Or.inr (Or.inl ⟨directory, contains_of_split third, plain,
                longer_behind parts rel, not_marked_behind directory plain third⟩))
          | none =>
              exact Or.inr (Or.inr (Or.inr ⟨⟨directory, splitOnce_eq_none.1 third⟩, plain, rfl⟩))

/-- Below a plain directory only what stands behind the first marker of a path is kept. -/
theorem recovered_of_plain {here rel : Str} (plain : PlainCheckout here) :
    recovered here rel = match splitOnce srcMarker ('/' :: rel) with
      | some parts => parts.2
      | none => rel := by
  simp only [recovered]
  rw [splitOnce_eq_none.2 plain.1, splitOnce_eq_none.2 plain.2]

/-- A name is right below a plain directory when it is not marked. -/
theorem recovered_eq_iff {here rel : Str} :
    recovered here rel = rel ↔ PlainCheckout here ∧ ¬ Marked rel := by
  rcases recovered_cases here rel with ⟨found, longer⟩ | ⟨-, marked, shorter⟩ |
    ⟨-, found, -, longer, -⟩ | ⟨plain, unmarked, own⟩
  · constructor
    · intro own
      rw [own] at longer
      omega
    · rintro ⟨plain, -⟩
      rw [plain.1] at found
      cases found
  · constructor
    · intro own
      rw [own] at shorter
      omega
    · exact fun both => absurd marked both.2
  · constructor
    · intro own
      rw [own] at longer
      omega
    · rintro ⟨plain, -⟩
      rw [plain.2] at found
      cases found
  · exact ⟨fun _ => ⟨plain, unmarked⟩, fun _ => own⟩

/-- Below one directory wrong names never come back: a rank that every one lowers. -/
theorem exists_rank (here : Str) :
    ∃ rank : Str → Int, ∀ rel, recovered here rel ≠ rel → rank (recovered here rel) < rank rel := by
  by_cases directory : contains (here ++ ['/']) srcMarker = true
  · -- Every name gets longer.
    refine ⟨fun rel => -rel.length, fun rel _ => ?_⟩
    rcases recovered_cases here rel with ⟨-, longer⟩ | ⟨other, -⟩ | ⟨other, -⟩ | ⟨plain, -⟩
    · show -((recovered here rel).length : Int) < -(rel.length : Int)
      omega
    · rw [other] at directory
      cases directory
    · rw [other] at directory
      cases directory
    · rw [plain.1] at directory
      cases directory
  · -- Marked names get shorter, the others longer, and these stay unmarked.
    refine ⟨fun rel => if Marked rel then rel.length + 1 else -rel.length, fun rel wrong => ?_⟩
    show (if Marked (recovered here rel) then ((recovered here rel).length : Int) + 1
      else -((recovered here rel).length : Int)) <
        if Marked rel then (rel.length : Int) + 1 else -(rel.length : Int)
    rcases recovered_cases here rel with ⟨found, -⟩ | ⟨-, marked, shorter⟩ |
      ⟨-, -, unmarked, longer, still⟩ | ⟨-, -, own⟩
    · exact absurd found directory
    · rw [if_pos marked]
      split
      · omega
      · omega
    · rw [if_neg unmarked, if_neg still]
      omega
    · exact absurd own wrong

end Ocfs2Coverage.Trace
