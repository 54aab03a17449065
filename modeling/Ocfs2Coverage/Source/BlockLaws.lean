import Ocfs2Coverage.Propagation
import Ocfs2Coverage.Source.Blocks

/-!
Contract: what every run of `exec_line_blocks` keeps.

Owns: block numbers as states of the loop after a prefix of the executable
lines, their growth by at most one at each line, and the fact behind the
one-round smoothing: a straight-line pair crosses a block border only right
after an unbraced body, and then the line before the pair's first line is the
head of a control statement.

Does not own: the hits that spread over the blocks.
-/

namespace Ocfs2Coverage.Source

open Ocfs2Coverage.Python

/-- `b` is the executable line right after `a`: the pairs of `zip(lns, lns[1:])`. -/
def Adjacent (lines : List Nat) (a b : Nat) : Prop := (a, b) ∈ lines.zip lines.tail

theorem adjacent_iff {lines : List Nat} {a b : Nat} :
    Adjacent lines a b ↔ ∃ pre post, lines = pre ++ a :: b :: post := by
  simp only [Adjacent]
  induction lines with
  | nil => simp
  | cons first rest inductionHypothesis =>
      cases rest with
      | nil =>
          constructor
          · simp
          · rintro ⟨pre, post, shape⟩
            have lengths := congrArg List.length shape
            simp at lengths
            omega
      | cons second rest =>
          rw [List.tail_cons, List.zip_cons_cons, List.mem_cons, Prod.mk.injEq]
          rw [List.tail_cons] at inductionHypothesis
          rw [inductionHypothesis]
          constructor
          · rintro (⟨rfl, rfl⟩ | ⟨pre, post, shape⟩)
            · exact ⟨[], rest, rfl⟩
            · exact ⟨first :: pre, post, by rw [shape]; rfl⟩
          · rintro ⟨pre, post, shape⟩
            cases pre with
            | nil =>
                simp only [List.nil_append, List.cons.injEq] at shape
                exact Or.inl ⟨shape.1.symm, shape.2.1.symm⟩
            | cons head pre =>
                rw [List.cons_append, List.cons.injEq] at shape
                exact Or.inr ⟨pre, post, shape.2⟩

section Laws

variable [UnicodeData]

/-! ## States after a prefix -/

/-- The state of the loop after the executable lines `seen`. -/
def stateAfter (raw : List Str) (seen : List Nat) : SplitState :=
  seen.foldl (splitStep raw) .init

theorem stateAfter_concat (raw : List Str) (seen : List Nat) (ln : Nat) :
    stateAfter raw (seen ++ [ln]) = splitStep raw (stateAfter raw seen) ln := by
  simp [stateAfter]

theorem prev_stateAfter_concat (raw : List Str) (seen : List Nat) (ln : Nat) :
    (stateAfter raw (seen ++ [ln])).prev = some ln := by
  rw [stateAfter_concat]
  rfl

/-- The block of a line, as `mapping[ln]` returns it. -/
def blockOf (raw : List Str) (execIdx : List Nat) (ln : Nat) : Nat :=
  (execLineBlocks raw execIdx).get ln 0

theorem map_fst_splitStates (raw : List Str) (st : SplitState) (lines : List Nat) :
    (splitStates raw st lines).map Prod.fst = lines := by
  induction lines generalizing st with
  | nil => rfl
  | cons ln rest inductionHypothesis => simp [splitStates, inductionHypothesis]

theorem mem_splitStates (raw : List Str) (st : SplitState) (pre post : List Nat) (ln : Nat) :
    (ln, (pre ++ [ln]).foldl (splitStep raw) st) ∈ splitStates raw st (pre ++ ln :: post) := by
  induction pre generalizing st with
  | nil => simp [splitStates]
  | cons head pre inductionHypothesis =>
      rw [List.cons_append, splitStates]
      exact List.mem_cons_of_mem _ (inductionHypothesis (splitStep raw st head))

theorem items_execLineBlocks {raw : List Str} {execIdx : List Nat} (distinct : execIdx.Nodup) :
    (execLineBlocks raw execIdx).items =
      (splitStates raw .init execIdx).map fun item => (item.1, item.2.bid) := by
  apply Dict.items_ofItems
  rw [List.map_map]
  change ((splitStates raw .init execIdx).map Prod.fst).Nodup
  rw [map_fst_splitStates]
  exact distinct

/-- The block of a line is the counter of the loop right after the line. -/
theorem blockOf_eq {raw : List Str} {pre post : List Nat} {ln : Nat}
    (distinct : (pre ++ ln :: post).Nodup) :
    blockOf raw (pre ++ ln :: post) ln = (stateAfter raw (pre ++ [ln])).bid := by
  have stored : (execLineBlocks raw (pre ++ ln :: post)).get? ln =
      some (stateAfter raw (pre ++ [ln])).bid := by
    rw [Dict.get?_eq_some_iff, items_execLineBlocks distinct]
    exact List.mem_map.2 ⟨_, mem_splitStates raw .init pre post ln, rfl⟩
  simp only [blockOf, Dict.get]
  rw [stored]
  rfl

/-! ## Growth of the counter -/

theorem bid_splitStep (raw : List Str) (st : SplitState) (ln : Nat) :
    (splitStep raw st ln).bid = if st.startsBlock raw ln then st.bid + 1 else st.bid := rfl

theorem bid_le_foldl (raw : List Str) (st : SplitState) (lines : List Nat) :
    st.bid ≤ (lines.foldl (splitStep raw) st).bid := by
  induction lines generalizing st with
  | nil => exact Nat.le_refl _
  | cons ln rest inductionHypothesis =>
      calc st.bid ≤ (splitStep raw st ln).bid := by rw [bid_splitStep]; split <;> omega
        _ ≤ _ := inductionHypothesis (splitStep raw st ln)

theorem bid_stateAfter_mono (raw : List Str) (pre post : List Nat) :
    (stateAfter raw pre).bid ≤ (stateAfter raw (pre ++ post)).bid := by
  simp only [stateAfter]
  rw [List.foldl_append]
  exact bid_le_foldl raw _ post

/-- Two lines that both start a block and share it are the same line. -/
theorem same_of_starts {raw : List Str} {lines pre pre' post post' : List Nat} {b c : Nat}
    (distinct : lines.Nodup) (shapeB : lines = pre ++ b :: post)
    (shapeC : lines = pre' ++ c :: post')
    (startsB : (stateAfter raw pre).startsBlock raw b = true)
    (startsC : (stateAfter raw pre').startsBlock raw c = true)
    (shared : blockOf raw lines b = blockOf raw lines c) : pre = pre' ∧ b = c := by
  have blockB : blockOf raw lines b = (stateAfter raw pre).bid + 1 := by
    rw [shapeB] at distinct ⊢
    rw [blockOf_eq distinct, stateAfter_concat, bid_splitStep, if_pos startsB]
  have blockC : blockOf raw lines c = (stateAfter raw pre').bid + 1 := by
    rw [shapeC] at distinct ⊢
    rw [blockOf_eq distinct, stateAfter_concat, bid_splitStep, if_pos startsC]
  -- A line strictly after another one that starts a block has seen that block counted.
  have later : ∀ {x y : Nat} {front back middle : List Nat}, lines = front ++ x :: back →
      (stateAfter raw front).startsBlock raw x = true →
      (stateAfter raw (front ++ x :: middle)).bid + 1 = (stateAfter raw front).bid + 1 →
      False := by
    intro x y front back middle _ starts equal
    have grown := bid_stateAfter_mono raw (front ++ [x]) middle
    rw [stateAfter_concat, bid_splitStep, if_pos starts, List.append_assoc] at grown
    simp only [List.singleton_append] at grown
    omega
  rw [blockB, blockC] at shared
  rcases List.append_eq_append_iff.1 (shapeB.symm.trans shapeC) with
    ⟨extra, equal, tail⟩ | ⟨extra, equal, tail⟩
  · cases extra with
    | nil =>
        simp only [List.nil_append, List.cons.injEq] at tail
        exact ⟨by rw [equal, List.append_nil], tail.1⟩
    | cons head extra =>
        rw [List.cons_append, List.cons.injEq] at tail
        rw [equal, ← tail.1] at shared
        exact (@later b c _ _ _ shapeB startsB shared.symm).elim
  · cases extra with
    | nil =>
        simp only [List.nil_append, List.cons.injEq] at tail
        exact ⟨by rw [equal, List.append_nil], tail.1.symm⟩
    | cons head extra =>
        rw [List.cons_append, List.cons.injEq] at tail
        rw [equal, ← tail.1] at shared
        exact (@later c b _ _ _ shapeC startsC shared).elim

/-! ## Straight-line pairs and block borders -/

/-- Every head `BLOCK_SPLIT_NEXT_RE` accepts is a leading line. -/
theorem lead_of_splitNext {s : Str} (opens : blockSplitNextRe.isMatch s = true) :
    blockLeadRe.isMatch s = true := by
  simp only [Regex.isMatch] at opens ⊢
  rw [matchesAt_iff] at opens ⊢
  obtain ⟨stop, found⟩ := opens
  simp only [blockSplitNextRe, blockLeadRe, Regex.seqs, mem_ends_seq, mem_ends_oneOf] at found ⊢
  obtain ⟨first, start, second, ⟨keyword, listed, read⟩, close⟩ := found
  refine ⟨stop, first, start, second, ⟨keyword, ?_, read⟩, close⟩
  simp only [List.mem_cons, List.not_mem_nil, or_false] at listed ⊢
  rcases listed with rfl | rfl | rfl | rfl | rfl <;> simp

theorem blockEnd_words : ∀ w ∈ ["return".toList, "goto".toList, "break".toList,
    "continue".toList], IsWord w := by
  intro w member
  simp only [List.mem_cons, List.not_mem_nil, or_false] at member
  rcases member with rfl | rfl | rfl | rfl <;>
    exact ⟨by decide, by simp [isWordChar]⟩

/-- The loop searches the raw line, the forward pass the stripped one. -/
theorem blockEnd_strip (s : Str) : blockEndRe.search (strip s) = blockEndRe.search s := by
  rw [Bool.eq_iff_iff]
  simp only [blockEndRe]
  rw [search_wholeWord_iff blockEnd_words, search_wholeWord_iff blockEnd_words]
  exact exists_congr fun w => and_congr_right fun member => hasWord_strip (blockEnd_words w member)

/-- A border inside a straight-line pair is made by `after_unbraced` alone. -/
theorem afterUnbraced_of_crosses {raw : List Str} {st : SplitState} {a b : Nat}
    (prev : st.prev = some a) (notOpen : st.splitNext = true →
      blockLeadRe.isMatch (strip (lineAt raw a)) = true)
    (straight : straightLine raw a b = true) (starts : st.startsBlock raw b = true) :
    st.afterUnbraced = true := by
  simp only [straightLine] at straight
  simp only [Bool.and_eq_true, Bool.not_eq_true', Bool.or_eq_false_iff] at straight
  obtain ⟨⟨⟨⟨noLeadA, noJumpA⟩, noLeadB⟩, -⟩, noGap⟩ := straight
  have gap : st.gap raw b = false := by
    simp only [SplitState.gap]
    rw [prev]
    simp [noGap]
  have noSplit : st.splitNext = false := by
    rw [← Bool.not_eq_true]
    intro opens
    rw [notOpen opens] at noLeadA
    cases noLeadA
  have noJump : st.afterJump raw = false := by
    simp only [SplitState.afterJump]
    rw [prev]
    change blockEndRe.search (lineAt raw a) = false
    rw [← blockEnd_strip]
    exact noJumpA
  simp only [SplitState.startsBlock] at starts
  rw [prev, gap, noLeadB, noSplit, noJump] at starts
  by_cases continues : st.continues raw b = true
  · simp [continues] at starts
  · simpa [continues] using starts

/-- The flag `split_next` after a line says that the line is a leading line. -/
theorem splitNext_lead (raw : List Str) (st : SplitState) (ln : Nat)
    (opens : (splitStep raw st ln).splitNext = true) :
    blockLeadRe.isMatch (strip (lineAt raw ln)) = true := by
  change st.opensControl raw ln = true at opens
  simp only [SplitState.opensControl] at opens
  rw [Bool.and_eq_true] at opens
  exact lead_of_splitNext opens.2

/-- The flag `after_unbraced` after a line says that the line started a block and
follows the head of a control statement. -/
theorem afterUnbraced_spec {raw : List Str} {seen : List Nat} {a : Nat}
    (flag : (stateAfter raw (seen ++ [a])).afterUnbraced = true) :
    (stateAfter raw seen).startsBlock raw a = true ∧
      ∃ before head, seen = before ++ [head] ∧
        blockLeadRe.isMatch (strip (lineAt raw head)) = true := by
  rw [stateAfter_concat] at flag
  change ((stateAfter raw seen).splitNext && (stateAfter raw seen).unbraced &&
    !(stateAfter raw seen).continues raw a) = true at flag
  simp only [Bool.and_eq_true, Bool.not_eq_true'] at flag
  obtain ⟨⟨opens, -⟩, noContinue⟩ := flag
  constructor
  · simp only [SplitState.startsBlock]
    rw [noContinue, opens]
    simp
  · rcases List.eq_nil_or_concat' seen with rfl | ⟨before, head, rfl⟩
    · cases opens
    · rw [stateAfter_concat] at opens
      exact ⟨before, head, rfl, splitNext_lead raw _ head opens⟩

/-- The second line of a straight-line pair that crosses a border starts its block,
right after an unbraced body. -/
theorem starts_of_crosses {raw : List Str} {lines pre post : List Nat} {a b : Nat}
    (distinct : lines.Nodup) (shape : lines = pre ++ a :: b :: post)
    (straight : straightLine raw a b = true)
    (apart : blockOf raw lines a ≠ blockOf raw lines b) :
    (stateAfter raw (pre ++ [a])).startsBlock raw b = true ∧
      (stateAfter raw (pre ++ [a])).afterUnbraced = true := by
  have starts : (stateAfter raw (pre ++ [a])).startsBlock raw b = true := by
    have shape' : lines = (pre ++ [a]) ++ b :: post := by rw [shape]; simp
    have blockA : blockOf raw lines a = (stateAfter raw (pre ++ [a])).bid := by
      rw [shape] at distinct ⊢
      exact blockOf_eq distinct
    have blockB : blockOf raw lines b =
        (splitStep raw (stateAfter raw (pre ++ [a])) b).bid := by
      rw [shape'] at distinct ⊢
      rw [blockOf_eq distinct, stateAfter_concat]
    rw [blockA, blockB, bid_splitStep] at apart
    by_contra stays
    rw [if_neg stays] at apart
    exact apart rfl
  refine ⟨starts, afterUnbraced_of_crosses (prev_stateAfter_concat raw pre a) ?_ straight starts⟩
  intro opens
  rw [stateAfter_concat] at opens
  exact splitNext_lead raw _ a opens

/-- A block is entered by one straight-line pair at most. -/
theorem straightLine_entry {raw : List Str} {lines : List Nat} (distinct : lines.Nodup)
    {a b c d : Nat} (adjacentAB : Adjacent lines a b) (straightAB : straightLine raw a b = true)
    (apartAB : blockOf raw lines a ≠ blockOf raw lines b)
    (adjacentCD : Adjacent lines c d) (straightCD : straightLine raw c d = true)
    (apartCD : blockOf raw lines c ≠ blockOf raw lines d)
    (shared : blockOf raw lines b = blockOf raw lines d) : b = d := by
  obtain ⟨pre, post, shapeAB⟩ := adjacent_iff.1 adjacentAB
  obtain ⟨pre', post', shapeCD⟩ := adjacent_iff.1 adjacentCD
  have startsB := (starts_of_crosses distinct shapeAB straightAB apartAB).1
  have startsD := (starts_of_crosses distinct shapeCD straightCD apartCD).1
  have shapeB : lines = (pre ++ [a]) ++ b :: post := by rw [shapeAB]; simp
  have shapeD : lines = (pre' ++ [c]) ++ d :: post' := by rw [shapeCD]; simp
  exact (same_of_starts distinct shapeB shapeD startsB startsD shared).2

/-- Borders crossed by straight-line pairs never enclose one block. -/
theorem straightLine_noChain {raw : List Str} {lines : List Nat} (distinct : lines.Nodup)
    {a b c d : Nat} (adjacentAB : Adjacent lines a b) (straightAB : straightLine raw a b = true)
    (apartAB : blockOf raw lines a ≠ blockOf raw lines b)
    (shared : blockOf raw lines b = blockOf raw lines c)
    (adjacentCD : Adjacent lines c d) (straightCD : straightLine raw c d = true)
    (apartCD : blockOf raw lines c ≠ blockOf raw lines d) : False := by
  obtain ⟨pre, post, shapeAB⟩ := adjacent_iff.1 adjacentAB
  obtain ⟨pre', post', shapeCD⟩ := adjacent_iff.1 adjacentCD
  have startsB := (starts_of_crosses distinct shapeAB straightAB apartAB).1
  obtain ⟨startsC, before, head, seen, lead⟩ :=
    afterUnbraced_spec (starts_of_crosses distinct shapeCD straightCD apartCD).2
  have shapeB : lines = (pre ++ [a]) ++ b :: post := by rw [shapeAB]; simp
  obtain ⟨samePrefix, -⟩ := same_of_starts distinct shapeB shapeCD startsB startsC shared
  -- So `c` is `b`, and the head before it is `a`, which is no leading line.
  have sameHead : a = head := by
    rw [seen] at samePrefix
    have last := congrArg List.getLast? samePrefix
    simpa using last
  simp [straightLine, sameHead, lead] at straightAB

end Laws

end Ocfs2Coverage.Source
