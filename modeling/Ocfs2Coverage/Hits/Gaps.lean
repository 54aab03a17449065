import Ocfs2Coverage.Hits.Files
import Ocfs2Coverage.Source.Stream

/-!
Contract: the lines coverage never passes over.

Owns: runs of the two passes in any order, and the fact that neither carries
coverage over a line that is not executable and closes a construct, in whatever
state the splitter reads that line.
-/

namespace Ocfs2Coverage.Hits

open Ocfs2Coverage.Python
open Ocfs2Coverage.Source

section Gaps

variable [UnicodeData]

/-! ## Runs of the passes -/

inductive Pass where
  | block
  | forward
deriving DecidableEq, Repr

def Pass.apply (f : SourceFile) (hits : LineHits) : Pass → LineHits
  | .block => cohereBlockHits f hits
  | .forward => cohereForwardHits f hits

/-- Any calls of `cohere_block_hits` and `cohere_forward_hits` one after another. -/
def runPasses (f : SourceFile) (passes : List Pass) (hits : LineHits) : LineHits :=
  passes.foldl (Pass.apply f) hits

/-! ## Lines that close a construct -/

/-- A line that is not executable and contains a closing brace or the word `else`. -/
def Closing (f : SourceFile) (ln : Nat) : Prop :=
  ln ∉ f.lines ∧ closesGap (strip (lineAt f.raw ln)) = true

/-- Strictly between two lines. -/
def Between (p q ln : Nat) : Prop := min p q < ln ∧ ln < max p q

/-- No line between the two closes a construct. -/
def Unclosed (f : SourceFile) (p q : Nat) : Prop := ∀ ln, Between p q ln → ¬ Closing f ln

theorem Unclosed.refl (f : SourceFile) (p : Nat) : Unclosed f p p := by
  intro ln between
  simp only [Between] at between
  omega

theorem Unclosed.trans {f : SourceFile} {p q r : Nat} (first : Unclosed f p q)
    (middle : q ∈ f.lines) (second : Unclosed f q r) : Unclosed f p r := by
  intro ln between closing
  rcases Nat.lt_trichotomy ln q with below | rfl | above
  · by_cases early : Between p q ln
    · exact first ln early closing
    · refine second ln ?_ closing
      simp only [Between] at between early ⊢
      omega
  · exact closing.1 middle
  · by_cases early : Between p q ln
    · exact first ln early closing
    · refine second ln ?_ closing
      simp only [Between] at between early ⊢
      omega

/-! ## The splitter at such a line -/

/-- The pass after a line that is not executable. -/
theorem read_other {st : LineState} {s : Str} (other : ¬ (isCodeLine s st.comment).1 = true) :
    st.read s = { st with
      comment := (isCodeLine s st.comment).2
      gap := st.gap || st.begun && closesGap s } := by
  simp only [LineState.read]
  rw [if_neg other]

/-- An executable line has been seen, and since the counter was `bid` a block was
started or is about to be. -/
def Parted (bid : Nat) (st : LineState) : Prop :=
  st.begun = true ∧ (st.gap = true ∧ bid ≤ st.bid ∨ bid < st.bid)

theorem parted_read {bid : Nat} {st : LineState} (parted : Parted bid st) (s : Str) :
    Parted bid (st.read s) := by
  by_cases code : (isCodeLine s st.comment).1 = true
  · have step : st.read s = st.readCode (isCodeLine s st.comment).2 s := by
      simp only [LineState.read]
      rw [if_pos code]
    have grows := LineState.bid_le_read st s
    rw [step] at grows ⊢
    refine ⟨rfl, Or.inr ?_⟩
    rcases parted.2 with ⟨gap, lower⟩ | above
    · have starts : st.starts s = true := by
        simp only [LineState.starts]
        rw [gap, Bool.or_true]
        rfl
      show bid < if st.starts s then st.bid + 1 else st.bid
      rw [starts]
      exact Nat.lt_succ_of_le lower
    · exact Nat.lt_of_lt_of_le above grows
  · rw [read_other code]
    refine ⟨parted.1, parted.2.imp_left fun early => ⟨?_, early.2⟩⟩
    show (st.gap || _) = true
    rw [early.1, Bool.true_or]

/-- Executable lines around a closing line are in different blocks. -/
theorem blockOf_lt_of_closing {raw : List Str} {a c b : Nat} (listedA : a ∈ execLines raw)
    (listedB : b ∈ execLines raw) (lower : 1 ≤ a) (upper : b ≤ raw.length) (before : a < c)
    (behind : c < b) (other : c ∉ execLines raw)
    (closes : closesGap (strip (lineAt raw c)) = true) :
    Source.blockOf raw (execLines raw) a < Source.blockOf raw (execLines raw) b := by
  have bid : ∀ k, a ≤ k → k ≤ raw.length →
      (lineStates (raw.take k)).begun = true ∧
        (lineStates (raw.take a)).bid ≤ (lineStates (raw.take k)).bid := by
    intro k later
    induction k, later using Nat.le_induction with
    | base =>
        intro inside
        have code := ((mem_execLines_take lower inside).1).1 listedA
        refine ⟨?_, Nat.le_refl _⟩
        rw [lineStates_take lower inside]
        simp only [LineState.read]
        rw [if_pos code]
        rfl
    | succ k later inductionHypothesis =>
        intro inside
        have early := inductionHypothesis (by omega)
        have step := @lineStates_take _ raw (k + 1) (by omega) inside
        rw [Nat.add_sub_cancel] at step
        rw [step]
        refine ⟨?_, Nat.le_trans early.2 (LineState.bid_le_read _ _)⟩
        simp only [LineState.read]
        split
        · rfl
        · exact early.1
  have parted : ∀ k, c ≤ k → k ≤ raw.length →
      Parted (lineStates (raw.take a)).bid (lineStates (raw.take k)) := by
    intro k later
    induction k, later using Nat.le_induction with
    | base =>
        intro inside
        have early := bid (c - 1) (by omega) (by omega)
        have skipped := (@mem_execLines_take _ raw c (by omega) inside).1
        rw [lineStates_take (by omega) inside, read_other fun code => other (skipped.2 code)]
        refine ⟨early.1, Or.inl ⟨?_, early.2⟩⟩
        show (_ || (_ && _)) = true
        rw [early.1, closes, Bool.and_self, Bool.or_true]
    | succ k later inductionHypothesis =>
        intro inside
        have step := @lineStates_take _ raw (k + 1) (by omega) inside
        rw [Nat.add_sub_cancel] at step
        rw [step]
        exact parted_read (inductionHypothesis (by omega)) _
  have code := ((mem_execLines_take (by omega) upper).1).1 listedB
  have noGap : (lineStates (raw.take b)).gap = false := by
    rw [lineStates_take (by omega) upper]
    simp only [LineState.read]
    rw [if_pos code]
    rfl
  rw [(mem_execLines_take lower (by omega)).2 listedA,
    (mem_execLines_take (by omega) upper).2 listedB]
  rcases (parted b (by omega) upper).2 with ⟨gap, -⟩ | above
  · rw [noGap] at gap
    cases gap
  · exact above

/-! ## One pass -/

section Scanned

variable {f : SourceFile} (scanned : f.lines = execLines f.raw)

include scanned

/-- Blocks do not reach over a closing line. -/
theorem unclosed_of_block {a b : Nat} (listedA : a ∈ f.lines) (listedB : b ∈ f.lines)
    (same : f.blockOf a = f.blockOf b) : Unclosed f a b := by
  have ordered : ∀ {a b c : Nat}, a ∈ f.lines → b ∈ f.lines → f.blockOf a = f.blockOf b →
      a < c → c < b → ¬ Closing f c := by
    intro a b c listedA listedB same before behind closing
    have boundA := f.inRange a listedA
    have boundB := f.inRange b listedB
    have other := closing.1
    rw [f.blockOf_eq, f.blockOf_eq, scanned] at same
    rw [scanned] at listedA listedB other
    have less := blockOf_lt_of_closing listedA listedB boundA.1 boundB.2 before behind other
      closing.2
    omega
  intro ln between
  simp only [Between] at between
  rcases Nat.le_total a b with le | le
  · exact ordered listedA listedB same (by omega) (by omega)
  · exact ordered listedB listedA same.symm (by omega) (by omega)

omit scanned in
/-- Neither does a straight-line pair. -/
theorem unclosed_of_follows {a b : Nat} (follows : f.follows a b) : Unclosed f a b := by
  have noGap : gapCloses f.raw a b = false := by
    have straight := follows.2
    simp only [straightLine, Bool.and_eq_true, Bool.not_eq_true'] at straight
    exact straight.2
  have increasing : a < b := by
    obtain ⟨pre, post, shape⟩ := adjacent_iff.1 follows.1
    have sorted := f.increasing
    change f.lines.Pairwise (· < ·) at sorted
    rw [shape, List.pairwise_append] at sorted
    exact (List.pairwise_cons.1 sorted.2.1).1 b (by simp)
  intro ln between closing
  simp only [Between] at between
  rw [← Bool.not_eq_true, gapCloses_iff] at noGap
  apply noGap
  refine ⟨ln - 1, List.mem_range'_1.2 ⟨by omega, by omega⟩, closing.2⟩

/-- A covered line after a pass has a covered line before it that no closing line
separates it from. -/
theorem exists_source (pass : Pass) (hits : LineHits) {q : Nat} (listed : q ∈ f.lines)
    (covered : 0 < hitsAt (pass.apply f hits) q) :
    ∃ p ∈ f.lines, 0 < hitsAt hits p ∧ Unclosed f p q := by
  cases pass with
  | block =>
      change 0 < hitsAt (cohereBlockHits f hits) q at covered
      rw [hitsAt_cohereBlockHits listed, blockHits_pos_iff] at covered
      obtain ⟨p, member, same, positive⟩ := covered
      exact ⟨p, member, positive, unclosed_of_block scanned member listed same⟩
  | forward =>
      change 0 < hitsAt (cohereForwardHits f hits) q at covered
      rcases cohereForwardHits_pos_iff.1 covered with here | ⟨p, follows, positive⟩
      · exact ⟨q, listed, here, Unclosed.refl f q⟩
      · exact ⟨p, (SourceFile.adjacent_mem follows.1).1, positive, unclosed_of_follows follows⟩

/-- The same for any run. -/
theorem exists_source_run (passes : List Pass) (hits : LineHits) {q : Nat} (listed : q ∈ f.lines)
    (covered : 0 < hitsAt (runPasses f passes hits) q) :
    ∃ p ∈ f.lines, 0 < hitsAt hits p ∧ Unclosed f p q := by
  induction passes generalizing hits with
  | nil => exact ⟨q, listed, covered, Unclosed.refl f q⟩
  | cons pass passes inductionHypothesis =>
      obtain ⟨r, member, middle, last⟩ := inductionHypothesis (pass.apply f hits) covered
      obtain ⟨p, start, positive, first⟩ := exists_source scanned pass hits member middle
      exact ⟨p, start, positive, first.trans member last⟩

end Scanned

/-! ## Lines the passes do not write -/

theorem hitsAt_apply_of_notMem {f : SourceFile} (pass : Pass) (hits : LineHits) {q : Nat}
    (other : q ∉ f.lines) : hitsAt (pass.apply f hits) q = hitsAt hits q := by
  cases pass with
  | block =>
      show hitsAt (cohereBlockHits f hits) q = _
      simp only [cohereBlockHits]
      rw [hitsAt_foldl_setLines f (fun current group => groupHits current group.2)
        (fun _ _ _ agree => groupHits_congr agree) _
        (fileBlockGroups f).nodup fun group listed => (mem_items_fileBlockGroups listed).1]
      exact if_neg fun both => other both.1
  | forward =>
      apply hitsAt_cohereForwardHits_of_not
      exact fun a follows => other (SourceFile.adjacent_mem follows.1).2

theorem hitsAt_runPasses_of_notMem {f : SourceFile} (passes : List Pass) (hits : LineHits)
    {q : Nat} (other : q ∉ f.lines) : hitsAt (runPasses f passes hits) q = hitsAt hits q := by
  induction passes generalizing hits with
  | nil => rfl
  | cons pass passes inductionHypothesis =>
      exact (inductionHypothesis _).trans (hitsAt_apply_of_notMem pass hits other)

/-! ## Any run -/

/-- A closing brace alone on its line is executable neither inside nor outside a comment. -/
theorem other_of_brace {s : Str} (text : s = "\x7d".toList ∨ s = "\x7d;".toList) (comment : Bool) :
    (isCodeLine s comment).1 = false := by
  rcases text with rfl | rfl
  · cases comment with
    | false => rfl
    | true => rfl
  · cases comment with
    | false => rfl
    | true => rfl

theorem closing_of_brace {f : SourceFile} (scanned : f.lines = execLines f.raw) {ln : Nat}
    (text : strip (lineAt f.raw ln) = "\x7d".toList ∨ strip (lineAt f.raw ln) = "\x7d;".toList) :
    Closing f ln := by
  refine ⟨fun member => ?_, ?_⟩
  · have bound := f.inRange ln member
    rw [scanned] at member
    have code := (mem_execLines_take bound.1 bound.2).1.1 member
    rw [other_of_brace text] at code
    cases code
  · rw [closesGap_iff]
    left
    rcases text with brace | brace
    · rw [brace]
      decide
    · rw [brace]
      decide

/-- In every file and after any calls of the two passes, a covered line goes back to a
line that was covered at the start and that no closing line lies between, so none
whose text is a closing brace either. -/
theorem smoothing_stays_unclosed (rel text : Str) (passes : List Pass) (hits : LineHits) (q : Nat)
    (covered : 0 < hitsAt (runPasses (parsedFile rel text) passes hits) q) :
    ∃ p, 0 < hitsAt hits p ∧ ∀ ln, Between p q ln →
      (ln ∉ (parsedFile rel text).lines →
        '\x7d' ∉ lineAt (parsedFile rel text).raw ln ∧
          ¬ HasWord "else".toList (lineAt (parsedFile rel text).raw ln)) ∧
      strip (lineAt (parsedFile rel text).raw ln) ≠ "\x7d".toList ∧
      strip (lineAt (parsedFile rel text).raw ln) ≠ "\x7d;".toList := by
  have scanned : (parsedFile rel text).lines = execLines (parsedFile rel text).raw :=
    keys_kindTable text rel
  by_cases listed : q ∈ (parsedFile rel text).lines
  · obtain ⟨p, -, positive, unclosed⟩ := exists_source_run scanned passes hits listed covered
    refine ⟨p, positive, fun ln between => ?_⟩
    have open_ := unclosed ln between
    refine ⟨fun other => ?_, fun brace => ?_, fun brace => ?_⟩
    · rw [← not_or]
      intro either
      apply open_
      refine ⟨other, closesGap_iff.2 (either.imp ?_ ?_)⟩
      · exact (mem_strip_iff (by decide)).2
      · exact (hasWord_strip (else_word _ (by simp))).2
    · exact open_ (closing_of_brace scanned (Or.inl brace))
    · exact open_ (closing_of_brace scanned (Or.inr brace))
  · rw [hitsAt_runPasses_of_notMem passes hits listed] at covered
    refine ⟨q, covered, fun ln between => ?_⟩
    simp only [Between] at between
    omega

end Gaps

section Sample

attribute [local instance] asciiUnicode

/-- A comment line between two statements, and a closing brace behind them. -/
def bracedText : Str := "a = 1;\n/* note */\nb = 2;\n\x7d\nc = 3;\n".toList

theorem smoothing_stays_unclosed_braced :
    ∃ p, 0 < hitsAt ((∅ : LineHits).set 1 1) p ∧ ∀ ln, Between p 3 ln →
      (ln ∉ (parsedFile "a.c".toList bracedText).lines →
        '\x7d' ∉ lineAt (parsedFile "a.c".toList bracedText).raw ln ∧
          ¬ HasWord "else".toList (lineAt (parsedFile "a.c".toList bracedText).raw ln)) ∧
      strip (lineAt (parsedFile "a.c".toList bracedText).raw ln) ≠ "\x7d".toList ∧
      strip (lineAt (parsedFile "a.c".toList bracedText).raw ln) ≠ "\x7d;".toList :=
  smoothing_stays_unclosed "a.c".toList bracedText [.block, .forward] ((∅ : LineHits).set 1 1) 3
    (by decide +kernel)

/-- Two functions; the comment behind its closing brace makes the end of the first executable. -/
def functionsText : Str :=
  ("int f(void)\n\x7b\n\tfoo();\n\x7d /* f */\n\n".toList ++
    "int g(void)\n\x7b\n\tbar();\n\x7d\n".toList)

/-- One pass over the blocks takes the coverage of `foo();` into the function behind it:
the head of that function lies between every line covered at the start and `bar();`. -/
theorem smoothing_leaves_function :
    0 < hitsAt (runPasses (parsedFile "a.c".toList functionsText) [.block]
      ((∅ : LineHits).set 3 1)) 8 ∧
    ¬ ∃ p, 0 < hitsAt ((∅ : LineHits).set 3 1) p ∧ ∀ ln, Between p 8 ln →
      strip (lineAt (parsedFile "a.c".toList functionsText).raw ln) ≠ "int g(void)".toList := by
  refine ⟨by decide +kernel, ?_⟩
  rintro ⟨p, positive, inside⟩
  have start : p = 3 := by
    by_contra other
    have unset : hitsAt ((∅ : LineHits).set 3 1) p = 0 := by
      rw [hitsAt, Dict.get_set, if_neg (by exact_mod_cast other)]
      rfl
    omega
  subst start
  exact inside 6 ⟨by decide, by decide⟩ (by decide +kernel)

end Sample

end Ocfs2Coverage.Hits
