import Ocfs2Coverage.Hits.Smoothing

/-!
Contract: the smoothing passes as operators on sets of covered lines.

Owns: the connection of both passes with the two operators of the propagation
library, the hits each pass leaves unchanged, and the closure computed by one
round of block, forward, block.
-/

namespace Ocfs2Coverage.Hits

open Ocfs2Coverage.Python
open Ocfs2Coverage.Source
open Ocfs2Coverage.Propagation

variable [UnicodeData]

namespace SourceFile

/-- An executable line of the file. -/
def ExecLine (f : SourceFile) : Type := {ln : Nat // ln ∈ f.lines}

/-- The block of an executable line. -/
def blockAt (f : SourceFile) (x : f.ExecLine) : Nat := f.blockOf x.1

/-- The straight-line successor on executable lines. -/
def next (f : SourceFile) (x y : f.ExecLine) : Prop := f.follows x.1 y.1

end SourceFile

/-- The covered lines of a file. -/
def coveredSet (f : SourceFile) (hits : LineHits) : Set f.ExecLine :=
  {x | 0 < hitsAt hits x.1}

theorem mem_coveredSet {f : SourceFile} {hits : LineHits} {x : f.ExecLine} :
    x ∈ coveredSet f hits ↔ 0 < hitsAt hits x.1 :=
  Iff.rfl

theorem coveredSet_cohereBlockHits (f : SourceFile) (hits : LineHits) :
    coveredSet f (cohereBlockHits f hits) = blockClosure f.blockAt (coveredSet f hits) := by
  ext x
  rw [mem_coveredSet, hitsAt_cohereBlockHits x.2, blockHits_pos_iff]
  refine ⟨fun ⟨other, member, same, positive⟩ => ?_, fun ⟨other, positive, same⟩ => ?_⟩
  · exact ⟨⟨other, member⟩, positive, same⟩
  · exact ⟨other.1, other.2, same, positive⟩

theorem coveredSet_cohereForwardHits (f : SourceFile) (hits : LineHits) :
    coveredSet f (cohereForwardHits f hits) =
      Propagation.forwardStep f.next (coveredSet f hits) := by
  ext x
  rw [mem_coveredSet, cohereForwardHits_pos_iff]
  refine or_congr_right ⟨?_, ?_⟩
  · intro ⟨a, follows, positive⟩
    exact ⟨⟨a, (SourceFile.adjacent_mem follows.1).1⟩, positive, follows⟩
  · intro ⟨a, positive, follows⟩
    exact ⟨a.1, follows, positive⟩

/-- Borders crossed by straight-line pairs never enclose one block. -/
theorem noChain (f : SourceFile) (a b c d : f.ExecLine) (first : Crosses f.blockAt f.next a b)
    (same : f.blockAt b = f.blockAt c) (second : Crosses f.blockAt f.next c d) : False :=
  SourceFile.noChain first same second

/-! ## Hits the passes leave unchanged -/

omit [UnicodeData] in
theorem setLines_eq_self {hits : LineHits} {lns : List Nat} {h : Int}
    (stored : ∀ ln ∈ lns, hits.get? ln = some h) : setLines hits lns h = hits := by
  apply Dict.setAll_eq_self
  intro k member
  obtain ⟨ln, listed, rfl⟩ := List.mem_map.1 member
  exact stored ln listed

omit [UnicodeData] in
theorem get?_of_mem_keys {hits : LineHits} {ln : Nat} (defined : (ln : Int) ∈ hits.keys) :
    hits.get? ln = some (hitsAt hits ln) := by
  obtain ⟨value, stored⟩ := Option.isSome_iff_exists.1 (Dict.isSome_get?_iff.2 defined)
  simp [hitsAt, Dict.get, stored]

/-- Uniform hits are stored back as they are. -/
theorem cohereBlockHits_eq_self {f : SourceFile} {hits : LineHits} (uniform : Uniform f hits)
    (defined : ∀ ln ∈ f.lines, (ln : Int) ∈ hits.keys) : cohereBlockHits f hits = hits := by
  have run : ∀ groups : List (Nat × List Nat),
      (∀ group ∈ groups, group.2 = f.blockLines group.1) →
        groups.foldl (fun current group =>
          setLines current group.2 (groupHits current group.2)) hits = hits := by
    intro groups
    induction groups with
    | nil => exact fun _ => rfl
    | cons group rest inductionHypothesis =>
        intro shape
        have here : setLines hits group.2 (groupHits hits group.2) = hits := by
          apply setLines_eq_self
          intro ln member
          rw [shape group (by simp), SourceFile.mem_blockLines] at member
          have value := uniform.blockHits_eq member.1
          simp only [blockHits] at value
          rw [member.2, ← shape group (by simp)] at value
          rw [get?_of_mem_keys (defined ln member.1), value]
        rw [List.foldl_cons, here]
        exact inductionHypothesis fun other member => shape other (by simp [member])
  exact run _ fun group member => (mem_items_fileBlockGroups member).1

/-- A forward pass without a covered line before an uncovered successor writes
nothing. -/
theorem cohereForwardHits_eq_self {f : SourceFile} {hits : LineHits}
    (closed : ∀ a b, f.follows a b → 0 < hitsAt hits a → 0 < hitsAt hits b) :
    cohereForwardHits f hits = hits := by
  have run : ∀ pairs : List (Nat × Nat),
      (∀ pair ∈ pairs, Adjacent f.lines pair.1 pair.2) →
        pairs.foldl (forwardStep f hits) hits = hits := by
    intro pairs
    induction pairs with
    | nil => exact fun _ => rfl
    | cons pair rest inductionHypothesis =>
        intro adjacent
        have here : forwardStep f hits hits pair = hits := by
          simp only [forwardStep]
          rw [if_neg]
          simp only [Bool.and_eq_true, decide_eq_true_eq]
          rintro ⟨⟨straight, positive⟩, uncovered⟩
          have covered := closed pair.1 pair.2 ⟨adjacent pair (by simp), straight⟩ positive
          omega
        rw [List.foldl_cons, here]
        exact inductionHypothesis fun other member => adjacent other (by simp [member])
  simp only [cohereForwardHits]
  rw [f.sortedLines_eq]
  exact run _ fun pair member => member

/-- A block pass and a forward pass leave the hits of every line where they are
exactly on uniform hits that are closed under the straight-line successor. -/
theorem smoothed_fixed_iff {f : SourceFile} {hits : LineHits} :
    (∀ ln ∈ f.lines,
        hitsAt (cohereForwardHits f (cohereBlockHits f hits)) ln = hitsAt hits ln) ↔
      Uniform f hits ∧ ∀ a b, f.follows a b → 0 < hitsAt hits a → 0 < hitsAt hits b := by
  constructor
  · intro fixed
    have blocks : ∀ ln ∈ f.lines, hitsAt (cohereBlockHits f hits) ln = hitsAt hits ln := by
      intro ln member
      have upper := le_cohereForwardHits f (cohereBlockHits f hits) ln
      have lower : hitsAt hits ln ≤ blockHits f hits ln := le_blockHits member
      rw [fixed ln member] at upper
      rw [← hitsAt_cohereBlockHits member] at lower
      omega
    refine ⟨cohereBlockHits_fixed_iff.1 blocks, fun a b follows positive => ?_⟩
    by_contra uncovered
    have ends := SourceFile.adjacent_mem follows.1
    have filled : hitsAt (cohereForwardHits f (cohereBlockHits f hits)) b = _ :=
      hitsAt_cohereForwardHits follows.1
    rw [fixed b ends.2, blocks a ends.1, blocks b ends.2,
      if_pos ⟨follows.2, positive, by omega⟩] at filled
    omega
  · intro ⟨uniform, closed⟩ ln member
    have blocks := cohereBlockHits_fixed_iff.2 uniform
    by_cases second : ∃ a, Adjacent f.lines a ln
    · obtain ⟨a, adjacent⟩ := second
      rw [hitsAt_cohereForwardHits adjacent, blocks ln member,
        blocks a (SourceFile.adjacent_mem adjacent).1, if_neg]
      intro ⟨straight, positive, uncovered⟩
      have covered := closed a ln ⟨adjacent, straight⟩ positive
      omega
    · rw [hitsAt_cohereForwardHits_of_not fun a follows => second ⟨a, follows.1⟩, blocks ln member]

/-! ## One round of smoothing -/

/-- `cohere_block_hits`, `cohere_forward_hits`, `cohere_block_hits`. -/
def smoothingRound (f : SourceFile) (hits : LineHits) : LineHits :=
  cohereBlockHits f (cohereForwardHits f (cohereBlockHits f hits))

theorem coveredSet_smoothingRound (f : SourceFile) (hits : LineHits) :
    coveredSet f (smoothingRound f hits) =
      blockClosure f.blockAt (Propagation.forwardStep f.next
        (blockClosure f.blockAt (coveredSet f hits))) := by
  simp only [smoothingRound]
  rw [coveredSet_cohereBlockHits, coveredSet_cohereForwardHits, coveredSet_cohereBlockHits]

theorem closed_smoothingRound (f : SourceFile) (hits : LineHits) :
    Closed f.blockAt f.next (coveredSet f (smoothingRound f hits)) := by
  rw [coveredSet_smoothingRound]
  exact closed_round f.blockAt f.next (noChain f) _

/-- One round reaches hits both passes leave unchanged, and its covered lines are
the least superset of the covered lines closed under sharing a block and under
the straight-line successor. -/
theorem smoothingRound_closure (f : SourceFile) (hits : LineHits) :
    cohereBlockHits f (smoothingRound f hits) = smoothingRound f hits ∧
      cohereForwardHits f (smoothingRound f hits) = smoothingRound f hits ∧
      IsLeast {upper | coveredSet f hits ⊆ upper ∧ Closed f.blockAt f.next upper}
        (coveredSet f (smoothingRound f hits)) := by
  refine ⟨?_, ?_, ?_⟩
  · apply cohereBlockHits_eq_self (uniform_cohereBlockHits f _)
    intro ln member
    exact mem_keys_cohereBlockHits.2 (Or.inl ⟨ln, member, rfl⟩)
  · apply cohereForwardHits_eq_self
    intro a b follows positive
    have closed := closed_smoothingRound f hits
    have ends := SourceFile.adjacent_mem follows.1
    exact closed.successor ⟨a, ends.1⟩ ⟨b, ends.2⟩ positive follows
  · rw [coveredSet_smoothingRound]
    exact round_isLeast f.blockAt f.next (noChain f) _

end Ocfs2Coverage.Hits
