import Ocfs2Coverage.Report.Settled

/-!
Contract: node reports against the combined report.

Owns: the hits `node_file_hits` gives every line, and the exact condition under
which they stay below the combined hits. Nothing is assumed about the digest or
the probabilities: which blocks a node keeps is left open.
-/

namespace Ocfs2Coverage.Report

open Ocfs2Coverage.Python
open Ocfs2Coverage.Source
open Ocfs2Coverage.Hits
open Ocfs2Coverage.Profiles

section Bound

variable [Runtime]

section Node

variable (nodeId nodes : Int) (profile : Profile) (f : CoverageFile)

def firstLine (f : SourceFile) (ln : Nat) : Nat := (f.blockLines (f.blockOf ln)).headD 0

/-- The node keeps the block of `ln`. -/
def Kept (ln : Nat) : Prop :=
  0 < hitsAt f.hits (firstLine f.source ln) ∧
    nodeKeeps nodeId nodes profile f.source.rel (f.source.blockOf ln) = true

/-- The count a node that keeps the block of `ln` gives it. -/
def keptCount (ln : Nat) : Int :=
  nodeShare nodeId (f.source.blockOf ln) (hitsAt f.hits (firstLine f.source ln))

/-- The count before the passes. -/
def nodeValue (ln : Nat) : Int :=
  nodeCount nodeId nodes profile f.source.rel (f.source.blockOf ln)
    (hitsAt f.hits (firstLine f.source ln))

variable {nodeId nodes profile f}

theorem keptCount_pos {ln : Nat} : 0 < keptCount nodeId f ln := by
  simp only [keptCount, nodeShare]
  omega

theorem nodeValue_of_kept {ln : Nat} (kept : Kept nodeId nodes profile f ln) :
    nodeValue nodeId nodes profile f ln = keptCount nodeId f ln := by
  have positive := kept.1
  simp only [nodeValue, nodeCount]
  rw [if_neg (by omega), if_pos kept.2]
  rfl

theorem nodeValue_of_not_kept {ln : Nat} (dropped : ¬ Kept nodeId nodes profile f ln) :
    nodeValue nodeId nodes profile f ln = 0 := by
  simp only [nodeValue, nodeCount]
  split
  · rfl
  · next positive =>
      rw [if_neg]
      exact fun keeps => dropped ⟨by omega, keeps⟩

theorem nodeValue_congr {ln other : Nat} (same : f.source.blockOf ln = f.source.blockOf other) :
    nodeValue nodeId nodes profile f ln = nodeValue nodeId nodes profile f other := by
  simp only [nodeValue, firstLine]
  rw [same]

theorem blockRecorded_nodeValue {ln : Nat} (member : ln ∈ f.source.lines) :
    BlockRecorded f.source (nodeValue nodeId nodes profile f) ln ↔ Kept nodeId nodes profile f ln := by
  have positive : 0 < nodeValue nodeId nodes profile f ln ↔ Kept nodeId nodes profile f ln := by
    by_cases kept : Kept nodeId nodes profile f ln
    · rw [nodeValue_of_kept kept]
      exact ⟨fun _ => kept, fun _ => keptCount_pos⟩
    · rw [nodeValue_of_not_kept kept]
      exact ⟨fun absurdity => by omega, fun found => absurd found kept⟩
  constructor
  · intro ⟨other, _, same, found⟩
    rw [nodeValue_congr same] at found
    exact positive.1 found
  · intro kept
    exact ⟨ln, member, rfl, positive.2 kept⟩

/-- The copy of a record `node_file_hits` makes. -/
def nodeFile (nodeId nodes : Int) (profile : Profile) (f : CoverageFile) : CoverageFile :=
  forwardPass (blockPass { f with hits := nodeHits nodeId nodes profile f })

theorem nodeFileHits_eq (files : List CoverageFile) (nodeId nodes : Int) (profile : Profile) :
    nodeFileHits files nodeId nodes profile = files.map (nodeFile nodeId nodes profile) :=
  rfl

theorem hitsAt_nodeFile {ln : Nat} (member : ln ∈ f.source.lines) :
    hitsAt (nodeFile nodeId nodes profile f).hits ln =
      hitsAt (smoothFrom (nodeValue nodeId nodes profile f) f).hits ln := by
  apply smoothed_congr _ member
  intro line listed
  rw [hitsAt_hitsOf f.source.nodup_lines listed]
  exact hitsAt_foldl_fileBlockGroups (fun _ group => nodeCount nodeId nodes profile f.source.rel
    group.1 (hitsAt f.hits (group.2.headD 0))) (fun _ _ _ _ => rfl) ∅ listed

/-- A kept block has one count, so the block pass leaves it. -/
theorem blockCount_of_kept {ln : Nat} (member : ln ∈ f.source.lines)
    (kept : Kept nodeId nodes profile f ln) :
    blockCount (nodeValue nodeId nodes profile f) f.source ln = keptCount nodeId f ln := by
  apply groupHits_const
  · exact List.ne_nil_of_mem (SourceFile.mem_blockLines.2 ⟨member, rfl⟩)
  · exact Int.le_of_lt keptCount_pos
  · intro other inside
    obtain ⟨listed, same⟩ := SourceFile.mem_blockLines.1 inside
    rw [hitsAt_hitsOf f.source.nodup_lines listed, nodeValue_congr same, nodeValue_of_kept kept]

theorem nodeFile_of_kept {ln : Nat} (member : ln ∈ f.source.lines)
    (kept : Kept nodeId nodes profile f ln) :
    hitsAt (nodeFile nodeId nodes profile f).hits ln = keptCount nodeId f ln := by
  rw [hitsAt_nodeFile member,
    smoothFrom_of_recorded member ((blockRecorded_nodeValue member).2 kept),
    blockCount_of_kept member kept]

theorem nodeFile_of_entered {prev ln : Nat} (crosses : f.source.crosses prev ln)
    (kept : Kept nodeId nodes profile f prev) (dropped : ¬ Kept nodeId nodes profile f ln) :
    hitsAt (nodeFile nodeId nodes profile f).hits ln = keptCount nodeId f prev := by
  have ends := SourceFile.adjacent_mem crosses.1.1
  rw [hitsAt_nodeFile ends.2, smoothFrom_of_entered crosses ((blockRecorded_nodeValue ends.1).2 kept)
    (mt (blockRecorded_nodeValue ends.2).1 dropped), blockCount_of_kept ends.1 kept]

theorem nodeFile_zero {ln : Nat} (member : ln ∈ f.source.lines)
    (dropped : ¬ Kept nodeId nodes profile f ln)
    (alone : ∀ prev, f.source.crosses prev ln → ¬ Kept nodeId nodes profile f prev) :
    hitsAt (nodeFile nodeId nodes profile f).hits ln = 0 := by
  rw [hitsAt_nodeFile member]
  apply smoothFrom_zero member (mt (blockRecorded_nodeValue member).1 dropped)
  intro prev crosses recorded
  have ends := SourceFile.adjacent_mem crosses.1.1
  exact alone prev crosses ((blockRecorded_nodeValue ends.1).1 recorded)

/-! ## The bound -/

omit [Runtime] in
theorem nodeShare_le {bid : Nat} {merged : Int} (positive : 0 < merged) :
    nodeShare nodeId bid merged ≤ merged := by
  have divided : merged / (1 + (nodeId + bid) % 3) ≤ merged :=
    Int.ediv_le_self _ (Int.le_of_lt positive)
  simp only [nodeShare]
  omega

/-- In a settled file, a kept block stays below the combined hits when all its lines
are covered. -/
theorem keptCount_le {ln : Nat} (settled : Settled f) (member : ln ∈ f.source.lines)
    (kept : Kept nodeId nodes profile f ln)
    (covered : 0 < hitsAt f.hits ln) : keptCount nodeId f ln ≤ hitsAt f.hits ln := by
  have below : keptCount nodeId f ln ≤ hitsAt f.hits (firstLine f.source ln) :=
    nodeShare_le kept.1
  have first : firstLine f.source ln ∈ f.source.blockLines (f.source.blockOf ln) := by
    have nonempty := List.ne_nil_of_mem (SourceFile.mem_blockLines.2 ⟨member, rfl⟩)
    simp only [firstLine]
    rw [List.headD_eq_head?_getD, List.head?_eq_some_head nonempty]
    exact List.head_mem nonempty
  obtain ⟨listed, same⟩ := SourceFile.mem_blockLines.1 first
  have equal : hitsAt f.hits (firstLine f.source ln) = hitsAt f.hits ln := by
    rcases settled.shape _ listed kept.1 with whole | ⟨-, others⟩
    · exact (whole ln member same.symm).symm
    · by_cases here : ln = firstLine f.source ln
      · rw [← here]
      · have zero := others ln member same.symm here
        omega
  rw [← equal]
  exact below

theorem nodeFile_le_iff (settled : Settled f) :
    (∀ ln ∈ f.source.lines,
        hitsAt (nodeFile nodeId nodes profile f).hits ln ≤ hitsAt f.hits ln) ↔
      (∀ ln ∈ f.source.lines, Kept nodeId nodes profile f ln → 0 < hitsAt f.hits ln) ∧
        ∀ a b, f.source.crosses a b → Kept nodeId nodes profile f a →
          ¬ Kept nodeId nodes profile f b → keptCount nodeId f a ≤ hitsAt f.hits b := by
  constructor
  · intro bound
    refine ⟨fun ln member kept => ?_, fun a b crosses kept dropped => ?_⟩
    · have below := bound ln member
      rw [nodeFile_of_kept member kept] at below
      exact Int.lt_of_lt_of_le keptCount_pos below
    · have below := bound b (SourceFile.adjacent_mem crosses.1.1).2
      rw [nodeFile_of_entered crosses kept dropped] at below
      exact below
  · intro ⟨whole, entered⟩ ln member
    by_cases kept : Kept nodeId nodes profile f ln
    · rw [nodeFile_of_kept member kept]
      exact keptCount_le settled member kept (whole ln member kept)
    · by_cases reached : ∃ prev, f.source.crosses prev ln ∧ Kept nodeId nodes profile f prev
      · obtain ⟨prev, crosses, before⟩ := reached
        rw [nodeFile_of_entered crosses before kept]
        exact entered prev ln crosses before kept
      · rw [nodeFile_zero member kept fun prev crosses before => reached ⟨prev, crosses, before⟩]
        exact settled.nonneg ln member

/-- Whatever a node keeps, it stays below combined hits that leave no block partly covered
and do not fall where a straight-line pair leads from one block into the next. -/
theorem nodeFile_le_of_combined (settled : Settled f)
    (whole : ∀ ln ∈ f.source.lines, 0 < hitsAt f.hits (firstLine f.source ln) →
      0 < hitsAt f.hits ln)
    (rising : ∀ a b, f.source.crosses a b → 0 < hitsAt f.hits (firstLine f.source a) →
      hitsAt f.hits (firstLine f.source a) ≤ hitsAt f.hits b)
    {ln : Nat} (member : ln ∈ f.source.lines) :
    hitsAt (nodeFile nodeId nodes profile f).hits ln ≤ hitsAt f.hits ln := by
  apply (nodeFile_le_iff settled).2 _ ln member
  constructor
  · intro line listed kept
    exact whole line listed kept.1
  · intro a b crosses kept _
    calc keptCount nodeId f a ≤ hitsAt f.hits (firstLine f.source a) := nodeShare_le kept.1
      _ ≤ hitsAt f.hits b := rising a b crosses kept.1

end Node

/-- A node stays below the combined hits on every line if and only if every line of
every block it keeps is covered in the combined hits, and wherever a straight-line
pair leads from a kept block into one it drops, the second line has at least the
count of the kept block. -/
theorem nodeFileHits_le_iff (o : Options) (files : List CoverageFile) (profile : Profile)
    (published : publishedFiles o = some (files, profile)) (nodeId nodes : Int) :
    (∀ (i : Nat) f g, files[i]? = some f →
        (nodeFileHits files nodeId nodes profile)[i]? = some g →
        ∀ ln ∈ f.source.lines, hitsAt g.hits ln ≤ hitsAt f.hits ln) ↔
      ∀ f ∈ files,
        (∀ ln ∈ f.source.lines, Kept nodeId nodes profile f ln → 0 < hitsAt f.hits ln) ∧
        ∀ a b, f.source.crosses a b → Kept nodeId nodes profile f a →
          ¬ Kept nodeId nodes profile f b → keptCount nodeId f a ≤ hitsAt f.hits b := by
  have settled := (publishedFiles_spec published).2.2
  constructor
  · intro bound f member
    obtain ⟨i, place⟩ := List.mem_iff_getElem?.1 member
    apply (nodeFile_le_iff (settled f member)).1
    apply bound i f _ place
    rw [nodeFileHits_eq, List.getElem?_map, place]
    rfl
  · intro condition i f g place copied
    have member := List.mem_of_getElem? place
    rw [nodeFileHits_eq, List.getElem?_map, place, Option.map_some, Option.some.injEq] at copied
    rw [← copied]
    exact (nodeFile_le_iff (settled f member)).2 (condition f member)

end Bound

section SampleNode

attribute [local instance] sampleRuntime

theorem nodeFileHits_le_iff_sample :
    ∃ files profile, publishedFiles (traceRun sampleTree sampleTrace) = some (files, profile) ∧
      ((∀ (i : Nat) f g, files[i]? = some f → (nodeFileHits files 1 4 profile)[i]? = some g →
          ∀ ln ∈ f.source.lines, hitsAt g.hits ln ≤ hitsAt f.hits ln) ↔
        ∀ f ∈ files,
          (∀ ln ∈ f.source.lines, Kept 1 4 profile f ln → 0 < hitsAt f.hits ln) ∧
          ∀ a b, f.source.crosses a b → Kept 1 4 profile f a →
            ¬ Kept 1 4 profile f b → keptCount 1 f a ≤ hitsAt f.hits b) := by
  have runs : (publishedFiles (traceRun sampleTree sampleTrace)).isSome = true := by
    decide +kernel
  rcases Option.isSome_iff_exists.1 runs with ⟨⟨files, profile⟩, published⟩
  exact ⟨files, profile, published,
    nodeFileHits_le_iff (traceRun sampleTree sampleTrace) files profile published 1 4⟩

/-- Node 1 covers a line of the sample tree the combined report does not cover. -/
theorem node_exceeds :
    ∃ files profile, publishedFiles (traceRun sampleTree sampleTrace) = some (files, profile) ∧
      ∃ (i : Nat) (f g : CoverageFile), files[i]? = some f ∧
        (nodeFileHits files 1 4 profile)[i]? = some g ∧
        ∃ ln ∈ f.source.lines, hitsAt f.hits ln = 0 ∧ 0 < hitsAt g.hits ln := by
  have exceeds : (publishedFiles (traceRun sampleTree sampleTrace)).any (fun result =>
      (result.1[0]?).any fun f => ((nodeFileHits result.1 1 4 result.2)[0]?).any fun g =>
        f.source.lines.any fun ln =>
          decide (hitsAt f.hits ln = 0) && decide (0 < hitsAt g.hits ln)) = true := by
    decide +kernel
  rcases (Option.any_eq_true _ _).1 exceeds with ⟨⟨files, profile⟩, published, first⟩
  rcases (Option.any_eq_true _ _).1 first with ⟨f, place, second⟩
  rcases (Option.any_eq_true _ _).1 second with ⟨g, copied, lines⟩
  rcases List.any_eq_true.1 lines with ⟨ln, line, both⟩
  rw [Bool.and_eq_true, decide_eq_true_eq, decide_eq_true_eq] at both
  exact ⟨files, profile, published, 0, f, g, place, copied, ln, line, both⟩

end SampleNode

end Ocfs2Coverage.Report
