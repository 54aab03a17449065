import Ocfs2Coverage.Source.Heads

/-!
Contract: where the text of a file separates one executable line from the next.

Owns: the tests on the lines of the text that decide whether two neighbouring
executable lines are in different blocks, and the blocks as the stretches between
such borders.

Does not own: statements, bodies, comments.
-/

namespace Ocfs2Coverage.Source

open Ocfs2Coverage.Python

section Borders

variable [UnicodeData] (raw : List Str)

/-! ## Tests on the text

The executable lines read so far are listed latest first. -/

/-- A line without the blanks around it. -/
def textAt (ln : Nat) : Str := strip (lineAt raw ln)

/-- The parentheses still open after the lines. A closing gap and a final semicolon
close them all. -/
def openParens : List Nat → Nat
  | [] => 0
  | [ln] => depthAfter 0 (textAt raw ln)
  | ln :: prev :: rest =>
      depthAfter (if gapCloses raw prev ln then 0 else openParens (prev :: rest)) (textAt raw ln)

/-- The line goes on with an open parenthesis or behind a final operator. -/
def goesOn : List Nat → Nat → Bool
  | [], _ => false
  | prev :: rest, ln =>
      !gapCloses raw prev ln &&
        (decide (0 < openParens raw (prev :: rest)) || endsWithOperator (textAt raw prev))

/-- The line is the head of a control statement and goes on with nothing. -/
def headLine (seen : List Nat) (ln : Nat) : Bool :=
  !goesOn raw seen ln && blockSplitNextRe.isMatch (textAt raw ln)

/-- The line stands right behind a head without a brace. -/
def bareBody : List Nat → Nat → Bool
  | [], _ => false
  | head :: before, ln =>
      headLine raw before head && !contains (textAt raw head) "\x7b".toList &&
        !goesOn raw (head :: before) ln

/-- The text separates line `b` from line `a`, the executable line right before it. -/
def border (seen : List Nat) (a b : Nat) : Bool :=
  gapCloses raw a b ||
    (!goesOn raw (a :: seen) b &&
      (blockLeadRe.isMatch (textAt raw b) || blockEndRe.search (textAt raw a) ||
        headLine raw seen a || bareBody raw seen a))

/-! ## The loop makes these tests -/

theorem gapCloses_near {a b : Nat} (near : ¬ a < b - 1) : gapCloses raw a b = false := by
  rw [← Bool.not_eq_true, gapCloses_iff]
  rintro ⟨i, member, -⟩
  rw [List.mem_range'_1] at member
  omega

/-- The loop after some lines, in terms of their texts. -/
structure Remembers (seen : List Nat) (st : SplitState) : Prop where
  prev : st.prev = seen.head?
  depth : st.depth = openParens raw seen
  opCont : st.opCont = (seen.head?).any fun ln => endsWithOperator (textAt raw ln)
  splitNext : st.splitNext = (seen.head?).any fun ln => headLine raw seen.tail ln
  unbraced : st.splitNext = true → st.unbraced =
    (seen.head?).any fun ln => !contains (textAt raw ln) "\x7b".toList
  afterUnbraced : st.afterUnbraced = (seen.head?).any fun ln => bareBody raw seen.tail ln

variable {raw}

theorem Remembers.gap {seen : List Nat} {st : SplitState} (remembers : Remembers raw seen st)
    (ln : Nat) : st.gap raw ln = (seen.head?).any fun prev => gapCloses raw prev ln := by
  simp only [SplitState.gap]
  rw [remembers.prev]
  cases seen with
  | nil => rfl
  | cons prev rest =>
      show (decide (prev < ln - 1) && gapCloses raw prev ln) = gapCloses raw prev ln
      by_cases near : prev < ln - 1
      · rw [decide_eq_true near, Bool.true_and]
      · rw [gapCloses_near raw near, Bool.and_false]

theorem Remembers.depthAt {seen : List Nat} {st : SplitState} (remembers : Remembers raw seen st)
    (ln : Nat) : st.depthAt raw ln =
      if (seen.head?).any (fun prev => gapCloses raw prev ln) then 0 else openParens raw seen := by
  simp only [SplitState.depthAt]
  rw [remembers.gap, remembers.depth]

theorem Remembers.opContAt {seen : List Nat} {st : SplitState} (remembers : Remembers raw seen st)
    (ln : Nat) : st.opContAt raw ln =
      if (seen.head?).any (fun prev => gapCloses raw prev ln) then false
      else (seen.head?).any fun prev => endsWithOperator (textAt raw prev) := by
  simp only [SplitState.opContAt]
  rw [remembers.gap, remembers.opCont]

theorem Remembers.continues {seen : List Nat} {st : SplitState} (remembers : Remembers raw seen st)
    (ln : Nat) : st.continues raw ln = goesOn raw seen ln := by
  simp only [SplitState.continues]
  rw [remembers.depthAt, remembers.opContAt]
  cases seen with
  | nil => rfl
  | cons prev rest =>
      simp only [List.head?_cons, Option.any_some, goesOn]
      by_cases closed : gapCloses raw prev ln = true
      · simp [closed]
      · simp [closed]

/-- One more line. -/
theorem Remembers.step {seen : List Nat} {st : SplitState} (remembers : Remembers raw seen st)
    (ln : Nat) : Remembers raw (ln :: seen) (splitStep raw st ln) := by
  have opens : st.opensControl raw ln = headLine raw seen ln := by
    simp only [SplitState.opensControl, headLine]
    rw [remembers.continues]
    rfl
  have depth : depthAfter (st.depthAt raw ln) (textAt raw ln) = openParens raw (ln :: seen) := by
    rw [remembers.depthAt]
    cases seen with
    | nil => rfl
    | cons prev rest => rfl
  have body : (st.splitNext && st.unbraced && !st.continues raw ln) = bareBody raw seen ln := by
    rw [remembers.continues]
    cases seen with
    | nil =>
        rw [remembers.splitNext]
        rfl
    | cons head before =>
        cases splitNext : st.splitNext with
        | false =>
            have notHead : headLine raw before head = false := by
              rw [← splitNext, remembers.splitNext]
              rfl
            simp only [bareBody]
            rw [notHead]
            rfl
        | true =>
            have isHead : headLine raw before head = true := by
              rw [← splitNext, remembers.splitNext]
              rfl
            simp only [bareBody]
            rw [remembers.unbraced splitNext, isHead]
            rfl
  have brace : st.opensControl raw ln = true →
      (if st.opensControl raw ln then !contains (textAt raw ln) "\x7b".toList else st.unbraced) =
        !contains (textAt raw ln) "\x7b".toList := fun opened => if_pos opened
  exact ⟨rfl, depth, rfl, opens, brace, body⟩

theorem remembers_stateAfter (seen : List Nat) :
    Remembers raw seen.reverse (stateAfter raw seen) := by
  induction seen using List.reverseRecOn with
  | nil =>
      have noHead : SplitState.init.splitNext = true → SplitState.init.unbraced = false :=
        fun _ => rfl
      exact ⟨rfl, rfl, rfl, rfl, noHead, rfl⟩
  | append_singleton seen ln inductionHypothesis =>
      rw [stateAfter_concat, List.reverse_append]
      exact inductionHypothesis.step ln

/-- The loop starts a block at a border. -/
theorem startsBlock_eq_border (pre : List Nat) (a b : Nat) :
    (stateAfter raw (pre ++ [a])).startsBlock raw b = border raw pre.reverse a b := by
  have remembers := @remembers_stateAfter _ raw (pre ++ [a])
  rw [List.reverse_append] at remembers
  change Remembers raw (a :: pre.reverse) _ at remembers
  have jump : (stateAfter raw (pre ++ [a])).afterJump raw = blockEndRe.search (textAt raw a) := by
    simp only [SplitState.afterJump]
    rw [remembers.prev]
    exact (blockEnd_strip (lineAt raw a)).symm
  have gap := remembers.gap b
  have head := remembers.splitNext
  have bare := remembers.afterUnbraced
  simp only [List.head?_cons, Option.any_some, List.tail_cons] at gap head bare
  simp only [SplitState.startsBlock]
  rw [gap, remembers.continues, remembers.prev, bare, head, jump]
  simp only [List.head?_cons, Option.isNone_some, Bool.false_or, border, textAt]
  cases gapCloses raw a b with
  | true => rfl
  | false =>
      cases goesOn raw (a :: pre.reverse) b with
      | true => rfl
      | false =>
          simp only [Bool.false_eq_true, if_false, Bool.false_or, Bool.not_false, Bool.true_and]
          ac_rfl

/-! ## Blocks are the stretches between borders -/

variable (raw) in
/-- The text separates the executable line at this place from the next one. -/
def borderBehind (lines : List Nat) (k : Nat) : Bool :=
  match lines.drop k with
  | a :: b :: _ => border raw (lines.take k).reverse a b
  | _ => false

variable (raw) in
/-- The borders among the first executable lines. -/
def bordersBefore (lines : List Nat) (k : Nat) : Nat :=
  (List.range k).countP (borderBehind raw lines)

theorem bordersBefore_succ (lines : List Nat) (k : Nat) :
    bordersBefore raw lines (k + 1) =
      bordersBefore raw lines k + if borderBehind raw lines k then 1 else 0 := by
  simp only [bordersBefore]
  rw [List.range_succ, List.countP_append, List.countP_singleton]

theorem blockOf_of_shape {lines pre post : List Nat} {a : Nat} (distinct : lines.Nodup)
    (shape : lines = pre ++ a :: post) :
    blockOf raw lines a = (stateAfter raw (pre ++ [a])).bid := by
  subst shape
  exact blockOf_eq distinct

/-- A block has the number of the borders before it. -/
theorem blockOf_eq_borders {lines : List Nat} (distinct : lines.Nodup) {k : Nat}
    (inside : k < lines.length) :
    blockOf raw lines lines[k] = bordersBefore raw lines k + 1 := by
  induction k with
  | zero =>
      rcases List.exists_cons_of_length_pos inside with ⟨first, rest, rfl⟩
      have shape : first :: rest = [] ++ first :: rest := rfl
      exact blockOf_of_shape distinct shape
  | succ k inductionHypothesis =>
      have early : k < lines.length := by omega
      have cut : lines.drop k = lines[k] :: lines[k + 1] :: lines.drop (k + 2) := by
        rw [List.drop_eq_getElem_cons early, List.drop_eq_getElem_cons inside]
      have here : lines = lines.take k ++ lines[k] :: lines[k + 1] :: lines.drop (k + 2) := by
        rw [← cut, List.take_append_drop]
      have next : lines =
          (lines.take k ++ [lines[k]]) ++ lines[k + 1] :: lines.drop (k + 2) := by
        rw [List.append_assoc]
        exact here
      have behind : borderBehind raw lines k =
          border raw (lines.take k).reverse lines[k] lines[k + 1] := by
        simp only [borderBehind]
        rw [cut]
      have previous := inductionHypothesis early
      rw [blockOf_of_shape distinct here] at previous
      rw [blockOf_of_shape distinct next, stateAfter_concat, bid_splitStep, startsBlock_eq_border,
        previous, bordersBefore_succ, behind]
      split
      · rfl
      · rfl

theorem bordersBefore_le (lines : List Nat) {i j : Nat} (le : i ≤ j) :
    bordersBefore raw lines i ≤ bordersBefore raw lines j := by
  induction j, le using Nat.le_induction with
  | base => exact Nat.le_refl _
  | succ j _ inductionHypothesis =>
      rw [bordersBefore_succ]
      omega

theorem bordersBefore_eq_iff (lines : List Nat) {i j : Nat} (le : i ≤ j) :
    bordersBefore raw lines i = bordersBefore raw lines j ↔
      ∀ k, i ≤ k → k < j → borderBehind raw lines k = false := by
  induction j, le using Nat.le_induction with
  | base =>
      have none : ∀ k, i ≤ k → k < i → borderBehind raw lines k = false := by
        intro k lower upper
        omega
      exact ⟨fun _ => none, fun _ => rfl⟩
  | succ j le inductionHypothesis =>
      have grows := @bordersBefore_le _ raw lines _ _ le
      rw [bordersBefore_succ]
      cases here : borderBehind raw lines j with
      | true =>
          have different : bordersBefore raw lines i ≠ bordersBefore raw lines j + 1 := by omega
          refine ⟨fun equal => absurd equal different, fun all => ?_⟩
          rw [all j le (Nat.lt_succ_self j)] at here
          cases here
      | false =>
          show bordersBefore raw lines i = bordersBefore raw lines j ↔ _
          rw [inductionHypothesis]
          refine ⟨fun all k lower upper => ?_, fun all k lower upper => ?_⟩
          · rcases Nat.lt_succ_iff_lt_or_eq.1 upper with before | rfl
            · exact all k lower before
            · exact here
          · exact all k lower (Nat.lt_succ_of_lt upper)

/-- Two executable lines share a block exactly when no border lies between them. -/
theorem blockOf_eq_iff {lines : List Nat} (distinct : lines.Nodup) {i j : Nat} (le : i ≤ j)
    (inside : j < lines.length) :
    (blockOf raw lines (lines[i]) = blockOf raw lines lines[j] ↔
      ∀ k, i ≤ k → k < j → borderBehind raw lines k = false) := by
  rw [blockOf_eq_borders distinct, blockOf_eq_borders distinct, Nat.add_right_cancel_iff,
    bordersBefore_eq_iff lines le]

end Borders

end Ocfs2Coverage.Source
