import Ocfs2Coverage.Report.Settled

/-!
Contract: merging reports against the union of what they cover.

Owns: stored reports of one source tree, the covered lines of each, and the exact
condition under which the merged report covers what some report covers.
-/

namespace Ocfs2Coverage.Report

open Ocfs2Coverage.Python
open Ocfs2Coverage.Source
open Ocfs2Coverage.Hits
open Ocfs2Coverage.Trace
open Ocfs2Coverage.Profiles
open Ocfs2Coverage.Propagation

section Merging

variable [Runtime]

/-- A report `generate` published for a tree from a trace, in its directory. -/
structure StoredReport (tree : SourceTree) where
  root : LcovFsRoot
  options : Options
  published : Published
  dir : ReportDir
  run : generate root options = some published
  ofTree : options.tree = tree
  noMerge : options.mergeDirs = []
  holds : Holds dir published.report.hitsBlob

/-- The line of the file with this path is covered in the report. -/
def StoredReport.Covers {tree : SourceTree} (report : StoredReport tree) (rel : Str) (ln : Nat) :
    Prop :=
  ∃ g ∈ report.published.files, g.source.rel = rel ∧ 0 < hitsAt g.hits ln

/-! ## What a report covers -/

section Report

variable {tree : SourceTree} (report : StoredReport tree)

theorem StoredReport.spec :
    readTree tree ≠ [] ∧
      report.published.files.map CoverageFile.source =
        (readTree tree).map CoverageFile.source ∧
      (∀ f ∈ report.published.files, Settled f) ∧
      report.published.report.hitsBlob = hitsBlob report.published.files := by
  have run := report.run
  simp only [generate] at run
  obtain ⟨result, published, equal⟩ := Option.map_eq_some_iff.1 run
  have spec := publishedFiles_spec published
  rw [report.ofTree] at spec
  rw [← equal]
  exact ⟨spec.1, spec.2.1, spec.2.2, rfl⟩

theorem StoredReport.distinct :
    (report.published.files.map fun f => f.source.rel).Nodup := by
  have same := congrArg (List.map SourceFile.rel) report.spec.2.1
  rw [List.map_map, List.map_map] at same
  have rels := distinct_readTree tree
  show (report.published.files.map (SourceFile.rel ∘ CoverageFile.source)).Nodup
  rw [same]
  exact rels

/-- The map the merge works with. -/
def StoredReport.table : Dict Str LineHits := snapshotHits report.published.files

theorem StoredReport.loadLineHits_eq : loadLineHits report.dir = some report.table := by
  obtain ⟨nonempty, sources, -, blob⟩ := report.spec
  have holds := report.holds
  rw [blob] at holds
  apply loadLineHits_of_holds holds _ report.distinct
  intro empty
  rw [empty] at sources
  exact nonempty (List.map_eq_nil_iff.1 sources.symm)

/-- The published record of a file of the tree. -/
theorem StoredReport.record {f : CoverageFile} (member : f ∈ readTree tree) :
    ∃ g ∈ report.published.files, g.source = f.source ∧
      report.table.get f.source.rel ∅ = g.hits := by
  have inTree : f.source ∈ report.published.files.map CoverageFile.source := by
    rw [report.spec.2.1]
    exact List.mem_map_of_mem member
  obtain ⟨g, listed, same⟩ := List.mem_map.1 inTree
  refine ⟨g, listed, same, ?_⟩
  have stored : report.table.get? f.source.rel = some g.hits := by
    rw [Dict.get?_eq_some_iff, StoredReport.table, items_snapshotHits report.distinct, ← same]
    exact List.mem_map.2 ⟨g, listed, rfl⟩
  simp only [Dict.get]
  rw [stored]
  rfl

theorem StoredReport.covers_iff {f : CoverageFile} (member : f ∈ readTree tree) {ln : Nat} :
    report.Covers f.source.rel ln ↔ 0 < hitsAt (report.table.get f.source.rel ∅) ln := by
  obtain ⟨g, listed, same, stored⟩ := report.record member
  rw [stored]
  refine ⟨fun ⟨h, other, rel, covered⟩ => ?_, fun covered => ?_⟩
  · have equal : h = g := List.inj_on_of_nodup_map report.distinct other listed (by rw [rel, same])
    rw [← equal]
    exact covered
  · exact ⟨g, listed, by rw [same], covered⟩

end Report

/-! ## Covered sets -/

omit [Runtime] in
theorem seeded_of_settled [UnicodeData] {g : CoverageFile} (settled : Settled g) :
    Seeded g.source.blockAt g.source.next (coveredSet g.source g.hits) := by
  intro x covered
  rcases settled.shape x.1 x.2 covered with whole | ⟨⟨prev, crosses, before⟩, -⟩
  · left
    intro y same
    show 0 < hitsAt g.hits y.1
    rw [whole y.1 y.2 same]
    exact covered
  · right
    have ends := SourceFile.adjacent_mem crosses.1.1
    exact ⟨⟨prev, ends.1⟩, before, crosses⟩

/-- The lines of a file some report covers. -/
def unionSet {tree : SourceTree} (reports : List (StoredReport tree)) (f : SourceFile) :
    Set f.ExecLine :=
  {x | ∃ report ∈ reports, report.Covers f.rel x.1}

theorem seeded_unionSet {tree : SourceTree} (reports : List (StoredReport tree))
    {f : CoverageFile} (member : f ∈ readTree tree) :
    Seeded f.source.blockAt f.source.next (unionSet reports f.source) := by
  have family : unionSet reports f.source = ⋃ report : {report // report ∈ reports},
      coveredSet f.source (report.1.table.get f.source.rel ∅) := by
    ext x
    rw [Set.mem_iUnion]
    constructor
    · intro ⟨report, listed, covers⟩
      exact ⟨⟨report, listed⟩, (report.covers_iff member).1 covers⟩
    · intro ⟨⟨report, listed⟩, covers⟩
      exact ⟨report, listed, (report.covers_iff member).2 covers⟩
  rw [family]
  apply Seeded.iUnion
  intro ⟨report, listed⟩
  obtain ⟨g, inFiles, same, stored⟩ := report.record member
  rw [stored]
  have settled := seeded_of_settled (report.spec.2.2.1 g inFiles)
  rw [same] at settled
  exact settled

/-- The merged report covers exactly the lines some report covers if and only if,
wherever a straight-line pair enters another block from a line some report covers,
every line of that block is covered by some report. -/
theorem mergedCoverage_iff (tree : SourceTree) (reports : List (StoredReport tree)) :
    ∃ maps, reports.map (fun report => loadLineHits report.dir) = maps.map some ∧
      ((∀ f ∈ applyUnionHits (readTree tree) maps, ∀ ln ∈ f.source.lines,
          0 < hitsAt f.hits ln ↔ ∃ report ∈ reports, report.Covers f.source.rel ln) ↔
        ∀ f ∈ readTree tree, ∀ a b, f.source.crosses a b →
          (∃ report ∈ reports, report.Covers f.source.rel a) →
          ∀ c ∈ f.source.lines, f.source.blockOf c = f.source.blockOf b →
            ∃ report ∈ reports, report.Covers f.source.rel c) := by
  refine ⟨reports.map StoredReport.table, ?_, ?_⟩
  · rw [List.map_map]
    exact List.map_congr_left fun report _ => report.loadLineHits_eq
  · rw [applyUnionHits_eq, List.forall_mem_map]
    apply forall₂_congr
    intro f member
    have counted : {x : f.source.ExecLine |
        0 < unionCount (reports.map StoredReport.table) f.source.rel x.1} =
          unionSet reports f.source := by
      ext x
      show 0 < unionCount _ _ _ ↔ ∃ report ∈ reports, report.Covers f.source.rel x.1
      rw [unionCount_pos_iff]
      simp only [List.mem_map, exists_exists_and_eq_and]
      apply exists_congr
      intro report
      apply and_congr_right
      intro _
      exact (report.covers_iff member).symm
    calc (∀ ln ∈ f.source.lines, 0 < hitsAt (smoothFrom _ f).hits ln ↔ _)
        ↔ coveredSet f.source (smoothFrom (unionCount (reports.map StoredReport.table)
            f.source.rel) f).hits = unionSet reports f.source := by
          rw [Set.ext_iff]
          exact ⟨fun all x => all x.1 x.2, fun all ln line => all ⟨ln, line⟩⟩
      _ ↔ Closed f.source.blockAt f.source.next (unionSet reports f.source) := by
          rw [coveredSet_smoothFrom, counted, forwardStep_blockClosure_eq_iff]
      _ ↔ _ := by
          rw [(seeded_unionSet reports member).closed_iff]
          constructor
          · intro behind a b crosses covers c line same
            have ends := SourceFile.adjacent_mem crosses.1.1
            exact behind ⟨a, ends.1⟩ ⟨b, ends.2⟩ crosses covers ⟨c, line⟩ same
          · intro behind a b crosses covers c same
            exact behind a.1 b.1 crosses covers c.1 c.2 same

end Merging

section SampleUnion

attribute [local instance] sampleRuntime

/-- Merging the report of the sample tree with nothing else covers a line it does
not cover. -/
theorem mergedCoverage_grows :
    ∃ report : StoredReport sampleTree, ∃ m, loadLineHits report.dir = some m ∧
      ∃ f ∈ applyUnionHits (readTree sampleTree) [m], ∃ ln ∈ f.source.lines,
        0 < hitsAt f.hits ln ∧ ¬ report.Covers f.source.rel ln := by
  have grows : (generate sampleRoot (traceRun sampleTree sampleTrace)).any (fun r =>
      (loadLineHits (r.report.store true emptyDir)).any fun m =>
        (applyUnionHits (readTree sampleTree) [m]).any fun f => f.source.lines.any fun ln =>
          decide (0 < hitsAt f.hits ln) &&
            r.files.all fun g => g.source.rel != f.source.rel || decide (hitsAt g.hits ln ≤ 0)) =
      true := by decide +kernel
  rcases (Option.any_eq_true _ _).1 grows with ⟨r, run, loads⟩
  rcases (Option.any_eq_true _ _).1 loads with ⟨m, loaded, found⟩
  rcases List.any_eq_true.1 found with ⟨f, member, lines⟩
  rcases List.any_eq_true.1 lines with ⟨ln, line, both⟩
  simp only [Bool.and_eq_true, decide_eq_true_eq, List.all_eq_true, Bool.or_eq_true, bne_iff_ne] at both
  refine ⟨{ root := sampleRoot
            options := traceRun sampleTree sampleTrace
            published := r
            dir := r.report.store true emptyDir
            run
            ofTree := rfl
            noMerge := rfl
            holds := holds_store _ (Or.inl rfl) },
    m, loaded, f, member, ln, line, both.1, ?_⟩
  intro ⟨g, listed, rel, covered⟩
  rcases both.2 g listed with different | none
  · exact different rel
  · omega

end SampleUnion

end Ocfs2Coverage.Report
