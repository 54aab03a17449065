import Ocfs2Coverage.Report.Published

/-!
Contract: the shape of published hits.

Owns: smoothed counts line by line, and the property every published file has,
whichever way its hits came about: a covered line shares its count with its whole
block, or its block was entered at this line and is otherwise uncovered.

Does not own: what follows for merged reports, node reports and repeated runs.
-/

namespace Ocfs2Coverage.Report

open Ocfs2Coverage.Python
open Ocfs2Coverage.Source
open Ocfs2Coverage.Hits
open Ocfs2Coverage.Trace
open Ocfs2Coverage.Profiles

section Lines

variable [UnicodeData] {f : CoverageFile} {count : Nat → Int}

theorem BlockRecorded.congr {ln other : Nat} (same : f.source.blockOf ln = f.source.blockOf other)
    (recorded : BlockRecorded f.source count ln) : BlockRecorded f.source count other := by
  obtain ⟨line, member, equal, positive⟩ := recorded
  exact ⟨line, member, equal.trans same, positive⟩

/-- The count the block pass gives a line. -/
def blockCount (count : Nat → Int) (f : SourceFile) (ln : Nat) : Int :=
  blockHits f (hitsOf f.lines count) ln

theorem blockCount_pos_iff {ln : Nat} :
    0 < blockCount count f.source ln ↔ BlockRecorded f.source count ln :=
  blockHits_hitsOf_pos

theorem blockCount_congr {ln other : Nat} (same : f.source.blockOf ln = f.source.blockOf other) :
    blockCount count f.source ln = blockCount count f.source other := by
  simp only [blockCount, blockHits]
  rw [same]

/-- The forward pass on the counts of the blocks. -/
theorem hitsAt_smoothFrom {prev ln : Nat} (adjacent : Adjacent f.source.lines prev ln) :
    hitsAt (smoothFrom count f).hits ln =
      if straightLine f.source.raw prev ln = true ∧ 0 < blockCount count f.source prev ∧
          blockCount count f.source ln ≤ 0 then
        blockCount count f.source prev
      else blockCount count f.source ln := by
  have ends := SourceFile.adjacent_mem adjacent
  have before : hitsAt (blockPass { f with hits := hitsOf f.source.lines count }).hits prev =
      blockCount count f.source prev := hitsAt_blockPass ends.1
  have here : hitsAt (blockPass { f with hits := hitsOf f.source.lines count }).hits ln =
      blockCount count f.source ln := hitsAt_blockPass ends.2
  simp only [smoothFrom]
  show hitsAt (cohereForwardHits f.source _) ln = _
  rw [hitsAt_cohereForwardHits adjacent, before, here]

/-- A line of a recorded block keeps the count of the block. -/
theorem smoothFrom_of_recorded {ln : Nat} (member : ln ∈ f.source.lines)
    (recorded : BlockRecorded f.source count ln) :
    hitsAt (smoothFrom count f).hits ln = blockCount count f.source ln := by
  have positive := blockCount_pos_iff.2 recorded
  by_cases second : ∃ prev, f.source.follows prev ln
  · obtain ⟨prev, adjacent, -⟩ := second
    rw [hitsAt_smoothFrom adjacent, if_neg]
    exact fun both => by omega
  · simp only [smoothFrom]
    show hitsAt (cohereForwardHits f.source _) ln = _
    rw [hitsAt_cohereForwardHits_of_not fun prev found => second ⟨prev, found⟩,
      hitsAt_blockPass member]
    rfl

/-- The first line of an unrecorded block takes over the count of a recorded one. -/
theorem smoothFrom_of_entered {prev ln : Nat} (crosses : f.source.crosses prev ln)
    (recorded : BlockRecorded f.source count prev)
    (unrecorded : ¬ BlockRecorded f.source count ln) :
    hitsAt (smoothFrom count f).hits ln = blockCount count f.source prev := by
  have positive := blockCount_pos_iff.2 recorded
  have nonpositive := mt blockCount_pos_iff.1 unrecorded
  rw [hitsAt_smoothFrom crosses.1.1, if_pos ⟨crosses.1.2, positive, by omega⟩]

theorem smoothFrom_zero {ln : Nat} (member : ln ∈ f.source.lines)
    (unrecorded : ¬ BlockRecorded f.source count ln)
    (alone : ∀ prev, f.source.crosses prev ln → ¬ BlockRecorded f.source count prev) :
    hitsAt (smoothFrom count f).hits ln = 0 := by
  have nonneg : 0 ≤ hitsAt (smoothFrom count f).hits ln := nonneg_smoothFrom member
  have uncovered : ¬ 0 < hitsAt (smoothFrom count f).hits ln := by
    intro covered
    rcases (smoothFrom_pos_iff member).1 covered with here | ⟨prev, follows, before⟩
    · exact unrecorded here
    · by_cases inside : f.source.blockOf prev = f.source.blockOf ln
      · exact unrecorded (before.congr inside)
      · exact alone prev ⟨follows, inside⟩ before
  omega

end Lines

/-! ## Published files -/

/-- The hits of a published file. -/
structure Settled [UnicodeData] (f : CoverageFile) : Prop where
  defined : Defined f.source f.hits
  nonneg : ∀ ln ∈ f.source.lines, 0 ≤ hitsAt f.hits ln
  shape : ∀ ln ∈ f.source.lines, 0 < hitsAt f.hits ln →
    (∀ other ∈ f.source.lines, f.source.blockOf other = f.source.blockOf ln →
      hitsAt f.hits other = hitsAt f.hits ln) ∨
    ((∃ prev, f.source.crosses prev ln ∧ 0 < hitsAt f.hits prev) ∧
      ∀ other ∈ f.source.lines, f.source.blockOf other = f.source.blockOf ln → other ≠ ln →
        hitsAt f.hits other = 0)

theorem settled_smoothFrom [UnicodeData] (count : Nat → Int) (f : CoverageFile) :
    Settled (smoothFrom count f) where
  defined := defined_smoothFrom
  nonneg := fun _ member => nonneg_smoothFrom member
  shape := by
    show ∀ ln ∈ f.source.lines, _
    intro ln member covered
    by_cases recorded : BlockRecorded f.source count ln
    · left
      show ∀ other ∈ f.source.lines, f.source.blockOf other = f.source.blockOf ln → _
      intro other listed same
      rw [smoothFrom_of_recorded listed (recorded.congr same.symm),
        smoothFrom_of_recorded member recorded]
      exact blockCount_congr same
    · right
      -- The block was entered at `ln`, and only there.
      have entered : ∃ prev, f.source.crosses prev ln ∧ BlockRecorded f.source count prev := by
        by_contra none
        have zero := smoothFrom_zero member recorded fun prev crosses before =>
          none ⟨prev, crosses, before⟩
        rw [zero] at covered
        exact Int.lt_irrefl 0 covered
      obtain ⟨prev, crosses, before⟩ := entered
      refine ⟨⟨prev, crosses, ?_⟩, fun other listed same different => ?_⟩
      · have ends := SourceFile.adjacent_mem crosses.1.1
        rw [smoothFrom_of_recorded ends.1 before]
        exact blockCount_pos_iff.2 before
      · apply smoothFrom_zero listed (fun found => recorded (found.congr same))
        intro back crosses' _
        exact different (SourceFile.entry crosses' crosses same)

theorem settled_of_coherent [UnicodeData] {f : CoverageFile} (coherent : Coherent f) :
    Settled f where
  defined := coherent.defined
  nonneg := coherent.uniform.nonneg
  shape := by
    intro ln member _
    exact Or.inl fun other listed same => coherent.uniform.sameBlock other listed ln member same

section Published

variable [Runtime]

/-- Without executable lines there is nothing to hand out. -/
theorem settled_assignRecords {files : List CoverageFile} (fresh : ∀ f ∈ files, f.hits = ∅)
    (lcov : Dict Str LineHits) (none : scoreTotal files = 0) :
    ∀ f ∈ assignRecords lcov files, Settled f := by
  intro f member
  have empty : f.source.lines = [] ∧ f.hits = ∅ := by
    obtain ⟨g, listed, rfl⟩ := List.mem_map.1 member
    have zero := List.sum_eq_zero_iff_forall_eq_nat.1 none _ (List.mem_map_of_mem listed)
    have noLines : g.source.lines = [] := List.length_eq_zero_iff.1 zero
    cases matchedRecord lcov g with
    | none => exact ⟨noLines, fresh g listed⟩
    | some m =>
        refine ⟨noLines, ?_⟩
        show hitsOf g.source.lines (hitsAt m) = ∅
        rw [noLines]
        rfl
  refine ⟨fun k => ?_, fun ln line => ?_, fun ln line => ?_⟩
  · rw [empty.1, empty.2]
    simp
  · rw [empty.1] at line
    cases line
  · rw [empty.1] at line
    cases line

theorem sources_assignRecords (lcov : Dict Str LineHits) (files : List CoverageFile) :
    (assignRecords lcov files).map CoverageFile.source = files.map CoverageFile.source := by
  simp only [assignRecords]
  rw [List.map_map]
  apply List.map_congr_left
  intro f _
  simp only [Function.comp_apply]
  cases matchedRecord lcov f <;> rfl

theorem traceOrSynthetic_spec {files : List CoverageFile} (fresh : ∀ f ∈ files, f.hits = ∅)
    (profile : Profile) (nodes : Int) (lcov : Dict Str LineHits) :
    (traceOrSynthetic files profile nodes lcov).map CoverageFile.source =
        files.map CoverageFile.source ∧
      ∀ f ∈ traceOrSynthetic files profile nodes lcov, Settled f := by
  by_cases enough : 3 ≤ mappedCount lcov files
  · rw [traceOrSynthetic_eq fresh profile nodes enough]
    refine ⟨by rw [List.map_map]; rfl, fun f member => ?_⟩
    obtain ⟨g, -, rfl⟩ := List.mem_map.1 member
    exact settled_smoothFrom _ g
  · have sources := sources_assignRecords lcov files
    simp only [traceOrSynthetic]
    simp only [if_neg enough]
    refine ⟨(sources_applyLineHits _ _ _).trans sources, fun f member => ?_⟩
    by_cases some : 0 < scoreTotal (assignRecords lcov files)
    · exact settled_of_coherent (coherent_applyLineHits _ _ some f member)
    · simp only [applyLineHits] at member
      rw [if_pos (by omega)] at member
      apply settled_assignRecords fresh lcov _ f member
      rw [← scoreTotal_congr sources]
      omega

theorem publishedFiles_spec {o : Options} {files : List CoverageFile} {profile : Profile}
    (published : publishedFiles o = some (files, profile)) :
    readTree o.tree ≠ [] ∧
      files.map CoverageFile.source = (readTree o.tree).map CoverageFile.source ∧
      ∀ f ∈ files, Settled f := by
  have nonempty : readTree o.tree ≠ [] := by
    intro empty
    simp only [publishedFiles] at published
    simp [empty] at published
  refine ⟨nonempty, ?_⟩
  by_cases noMerge : o.mergeDirs = []
  · simp only [publishedFiles] at published
    simp only [List.isEmpty_iff, nonempty, noMerge, if_false, if_true, Option.some.injEq,
      Prod.mk.injEq] at published
    rw [← published.1]
    exact traceOrSynthetic_spec (hits_readTree o.tree) o.profile _ _
  · obtain ⟨done, run, shape⟩ := publishedFiles_merge noMerge published
    rw [shape, List.map_map]
    refine ⟨(mergeMaps_spec run).1, fun f member => ?_⟩
    obtain ⟨g, -, rfl⟩ := List.mem_map.1 member
    exact settled_smoothFrom _ g

end Published

end Ocfs2Coverage.Report
