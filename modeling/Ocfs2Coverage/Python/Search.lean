import Ocfs2Coverage.Python.Text

/-!
Contract: the first occurrence of a text in two texts put together.

Owns: `in` as the infix relation, and `split(sep, 1)` of a concatenation.

Does not own: paths.
-/

namespace Ocfs2Coverage.Python

/-- No occurrence of `sep` begins in `left` and ends in `right`. -/
def Uncrossed (sep left right : Str) : Prop :=
  ∀ front back, front ≠ [] → back ≠ [] → sep = front ++ back → front <:+ left → ¬ back <+: right

theorem contains_iff {s sub : Str} : contains s sub = true ↔ sub <:+: s := by
  simp only [contains]
  induction s with
  | nil =>
      rw [splitOnce, List.infix_nil]
      cases sub with
      | nil => simp
      | cons c rest => simp
  | cons c rest inductionHypothesis =>
      rw [splitOnce, List.infix_cons_iff]
      by_cases here : startswith (c :: rest) sub = true
      · rw [if_pos here]
        exact ⟨fun _ => Or.inl (startswith_iff.1 here), fun _ => rfl⟩
      · rw [if_neg here, Option.isSome_map, inductionHypothesis]
        rw [startswith_iff] at here
        exact ⟨Or.inr, fun either => either.resolve_left here⟩

/-- Nothing crosses into a text that begins with `front`, when no end of `sep` does. -/
theorem uncrossed_of_take {sep left front rest : Str}
    (check : ∀ n ∈ List.range sep.length, n ≠ 0 → ((sep.drop n).take front.length).isPrefixOf front = false) :
    Uncrossed sep left (front ++ rest) := by
  intro start back nonempty nonempty' shape _ prefix_
  have dropped : sep.drop start.length = back := by
    rw [shape, List.drop_left]
  have inside : start.length ∈ List.range sep.length := by
    rw [List.mem_range, shape, List.length_append]
    have positive := List.length_pos_iff.2 nonempty'
    omega
  have short := (prefix_.take front.length)
  rw [List.take_left, ← dropped] at short
  have none := check _ inside fun zero => nonempty (List.length_eq_zero_iff.1 zero)
  rw [List.isPrefixOf_iff_prefix.2 short] at none
  cases none

theorem contains_append {sep left right : Str} (uncrossed : Uncrossed sep left right) :
    contains (left ++ right) sep = (contains left sep || contains right sep) := by
  rw [Bool.eq_iff_iff, Bool.or_eq_true, contains_iff, contains_iff, contains_iff,
    List.infix_append_iff_ne_nil]
  constructor
  · rintro (first | second | ⟨front, back, nonempty, nonempty', shape, suffix, prefix_⟩)
    · exact Or.inl first
    · exact Or.inr second
    · exact absurd prefix_ (uncrossed front back nonempty nonempty' shape suffix)
  · rintro (first | second)
    · exact Or.inl first
    · exact Or.inr (Or.inl second)

/-- An occurrence in the first text stays the first one. -/
theorem splitOnce_append_of_some {sep left right : Str} {parts : Str × Str}
    (found : splitOnce sep left = some parts) :
    splitOnce sep (left ++ right) = some (parts.1, parts.2 ++ right) := by
  induction left generalizing parts with
  | nil =>
      rw [splitOnce] at found
      split at found
      · next empty =>
          have none : sep = [] := List.isEmpty_iff.1 empty
          cases found
          rw [none]
          cases right with
          | nil => rfl
          | cons c rest => rfl
      · cases found
  | cons c rest inductionHypothesis =>
      rw [splitOnce] at found
      rw [List.cons_append, splitOnce]
      by_cases here : startswith (c :: rest) sep = true
      · rw [if_pos here] at found
        obtain ⟨tail, shape⟩ := startswith_iff.1 here
        have still : startswith (c :: (rest ++ right)) sep = true := by
          rw [startswith_iff, ← List.cons_append, ← shape, List.append_assoc]
          exact List.prefix_append sep (tail ++ right)
        cases found
        rw [if_pos still, ← List.cons_append, ← shape, List.append_assoc, List.drop_left,
          List.drop_left]
      · rw [if_neg here] at found
        obtain ⟨later, behind, rfl⟩ := Option.map_eq_some_iff.1 found
        have fits : sep.length ≤ (c :: rest).length := by
          have counted := congrArg List.length (splitOnce_eq_some behind)
          rw [List.length_append, List.length_append] at counted
          rw [List.length_cons]
          omega
        have still : ¬ startswith (c :: (rest ++ right)) sep = true := by
          rw [startswith_iff, ← List.cons_append]
          intro prefix_
          exact here (startswith_iff.2
            (List.prefix_of_prefix_length_le prefix_ (List.prefix_append _ right) fits))
        rw [if_neg still, inductionHypothesis behind]
        rfl

/-- Without an occurrence in the first text the second one decides. -/
theorem splitOnce_append_of_absent {sep left right : Str} (absent : contains left sep = false)
    (uncrossed : Uncrossed sep left right) :
    splitOnce sep (left ++ right) =
      (splitOnce sep right).map fun parts => (left ++ parts.1, parts.2) := by
  induction left with
  | nil => exact Option.map_id'.symm
  | cons c rest inductionHypothesis =>
      have notHere : ¬ sep <+: c :: rest := by
        intro here
        rw [contains_iff.2 here.isInfix] at absent
        cases absent
      have behind : contains rest sep = false := by
        rw [← Bool.not_eq_true, contains_iff] at absent ⊢
        exact fun inside => absent (List.infix_cons inside)
      have uncrossed' : Uncrossed sep rest right := fun front back nonempty nonempty' shape suffix =>
        uncrossed front back nonempty nonempty' shape (suffix.trans (List.suffix_cons c rest))
      have still : ¬ startswith (c :: (rest ++ right)) sep = true := by
        rw [startswith_iff, ← List.cons_append]
        intro here
        rcases List.prefix_or_prefix_of_prefix here (List.prefix_append (c :: rest) right) with
          inside | ⟨back, shape⟩
        · exact notHere inside
        · rw [← shape, List.prefix_append_right_inj] at here
          have nonempty : back ≠ [] := by
            rintro rfl
            exact notHere (by rw [← shape, List.append_nil])
          exact uncrossed (c :: rest) back (List.cons_ne_nil c rest) nonempty shape.symm
            (List.suffix_refl _) here
      rw [List.cons_append, splitOnce, if_neg still, inductionHypothesis behind uncrossed',
        Option.map_map]
      rfl

end Ocfs2Coverage.Python
