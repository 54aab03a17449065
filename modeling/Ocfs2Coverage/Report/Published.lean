import Ocfs2Coverage.Profiles.Target
import Ocfs2Coverage.Report.Generate
import Ocfs2Coverage.Report.RoundTrip
import Ocfs2Coverage.Source.Leading
import Ocfs2Coverage.Source.Stream

/-!
Contract: the hits `generate` publishes, in terms of what was recorded.

Owns: published hits as smoothed counts, the lines a trace or a stored report can
make covered, and the recorded lines that are reported as covered.

Does not own: repeated runs, merged reports, node reports.
-/

namespace Ocfs2Coverage.Report

open Ocfs2Coverage.Python
open Ocfs2Coverage.Source
open Ocfs2Coverage.Hits
open Ocfs2Coverage.Trace
open Ocfs2Coverage.Profiles
open Ocfs2Coverage.Propagation (blockClosure)

/-! ## Smoothed counts -/

section Smoothed

variable [UnicodeData]

/-- The record with these counts, made coherent block by block, then forward. -/
def smoothFrom (count : Nat → Int) (f : CoverageFile) : CoverageFile :=
  forwardPass (blockPass { f with hits := hitsOf f.source.lines count })

/-- Some line of the block of `ln` has a positive count. -/
def BlockRecorded (f : SourceFile) (count : Nat → Int) (ln : Nat) : Prop :=
  ∃ other ∈ f.lines, f.blockOf other = f.blockOf ln ∧ 0 < count other

variable {f : CoverageFile} {count : Nat → Int}

theorem defined_smoothFrom : Defined f.source (smoothFrom count f).hits :=
  (defined_hitsOf f.source count).cohereBlockHits.cohereForwardHits

/-- Only the counts of executable lines matter. -/
theorem smoothFrom_congr {other : Nat → Int} (agree : ∀ ln ∈ f.source.lines, count ln = other ln) :
    smoothFrom count f = smoothFrom other f := by
  have table : hitsOf f.source.lines count = hitsOf f.source.lines other := by
    unfold hitsOf
    rw [List.map_congr_left fun ln member => by rw [agree ln member]]
  unfold smoothFrom
  rw [table]

theorem blockHits_hitsOf_pos {ln : Nat} :
    0 < blockHits f.source (hitsOf f.source.lines count) ln ↔ BlockRecorded f.source count ln := by
  rw [blockHits_pos_iff]
  apply exists_congr
  intro other
  apply and_congr_right
  intro member
  rw [hitsAt_hitsOf f.source.nodup_lines member]

/-- What the block pass leaves before the forward pass. -/
theorem hitsAt_blockPass {ln : Nat} (member : ln ∈ f.source.lines) :
    hitsAt (blockPass { f with hits := hitsOf f.source.lines count }).hits ln =
      blockHits f.source (hitsOf f.source.lines count) ln :=
  hitsAt_cohereBlockHits member

theorem smoothFrom_pos_iff {ln : Nat} (member : ln ∈ f.source.lines) :
    0 < hitsAt (smoothFrom count f).hits ln ↔
      BlockRecorded f.source count ln ∨
        ∃ prev, f.source.follows prev ln ∧ BlockRecorded f.source count prev := by
  unfold smoothFrom
  show 0 < hitsAt (cohereForwardHits f.source _) ln ↔ _
  rw [cohereForwardHits_pos_iff, hitsAt_blockPass member, blockHits_hitsOf_pos]
  apply or_congr_right
  apply exists_congr
  intro prev
  apply and_congr_right
  intro follows
  rw [hitsAt_blockPass (SourceFile.adjacent_mem follows.1).1, blockHits_hitsOf_pos]

theorem le_smoothFrom {ln : Nat} (member : ln ∈ f.source.lines) :
    count ln ≤ hitsAt (smoothFrom count f).hits ln := by
  calc count ln = hitsAt (hitsOf f.source.lines count) ln :=
        (hitsAt_hitsOf f.source.nodup_lines member).symm
    _ ≤ blockHits f.source (hitsOf f.source.lines count) ln := le_blockHits member
    _ = hitsAt (blockPass { f with hits := hitsOf f.source.lines count }).hits ln :=
        (hitsAt_blockPass member).symm
    _ ≤ hitsAt (smoothFrom count f).hits ln := le_cohereForwardHits f.source _ ln

theorem nonneg_smoothFrom {ln : Nat} (member : ln ∈ f.source.lines) :
    0 ≤ hitsAt (smoothFrom count f).hits ln := by
  calc 0 ≤ blockHits f.source (hitsOf f.source.lines count) ln := blockHits_nonneg f.source _ ln
    _ = hitsAt (blockPass { f with hits := hitsOf f.source.lines count }).hits ln :=
        (hitsAt_blockPass member).symm
    _ ≤ hitsAt (smoothFrom count f).hits ln := le_cohereForwardHits f.source _ ln

/-- Both passes, on the lines with a positive count. -/
theorem coveredSet_smoothFrom (count : Nat → Int) (f : CoverageFile) :
    coveredSet f.source (smoothFrom count f).hits =
      Propagation.forwardStep f.source.next
        (blockClosure f.source.blockAt {x | 0 < count x.1}) := by
  have start : coveredSet f.source (hitsOf f.source.lines count) = {x | 0 < count x.1} := by
    ext x
    rw [mem_coveredSet, hitsAt_hitsOf f.source.nodup_lines x.2]
    rfl
  simp only [smoothFrom]
  show coveredSet f.source (cohereForwardHits f.source (cohereBlockHits f.source _)) = _
  rw [coveredSet_cohereForwardHits, coveredSet_cohereBlockHits, start]

end Smoothed

/-! ## The three sources of hits -/

section Sources

variable [Runtime]

/-- The count a trace has for a line of a file. -/
def recordCount (lcov : Dict Str LineHits) (f : CoverageFile) (ln : Nat) : Int :=
  match matchedRecord lcov f with
  | some m => hitsAt m ln
  | none => 0

theorem applyUnionHits_eq (files : List CoverageFile) (maps : List (Dict Str LineHits)) :
    applyUnionHits files maps = files.map fun f => smoothFrom (unionCount maps f.source.rel) f :=
  rfl

/-- With three files or more in the trace, its counts are what is smoothed. -/
theorem traceOrSynthetic_eq {files : List CoverageFile} (fresh : ∀ f ∈ files, f.hits = ∅)
    (profile : Profile) (nodes : Int) {lcov : Dict Str LineHits}
    (enough : 3 ≤ mappedCount lcov files) :
    traceOrSynthetic files profile nodes lcov =
      files.map fun f => smoothFrom (recordCount lcov f) f := by
  unfold traceOrSynthetic assignRecords
  simp only
  rw [if_pos enough, List.map_map]
  apply List.map_congr_left
  intro f member
  have empty := fresh f member
  unfold smoothFrom recordCount
  simp only [Function.comp_apply]
  cases matchedRecord lcov f with
  | none =>
      unfold fillZero
      rw [empty]
      rfl
  | some m =>
      unfold fillZero recordHits
      simp only
      split
      · next none =>
          have noLines : f.source.lines = [] := by
            unfold Dict.isEmpty at none
            rw [items_hitsOf f.source.nodup_lines] at none
            simpa using none
          rw [noLines]
          rfl
      · rfl

/-- The map `generate` merges for a directory: its stored hits, or the hits
`apply_line_hits` makes up when there are none. -/
def mapFor (nodes : Int) (files : List CoverageFile) (dir : Str × ReportDir) :
    Option (Dict Str LineHits) :=
  (loadLineHits dir.2).map fun m =>
    if m.isEmpty then
      let prof := inferProfile dir.1
      snapshotHits (applyLineHits files (targetPctFor prof nodes) prof)
    else m

theorem map_snd_mergeStep (nodes : Int) (files : List CoverageFile) (dir : Str × ReportDir) :
    (mergeStep nodes files dir).map Prod.snd = mapFor nodes files dir := by
  unfold mergeStep mapFor
  rw [Option.map_map]
  congr 1
  funext m
  simp only [Function.comp_apply]
  split <;> rfl

theorem sources_mergeStep {nodes : Int} {files : List CoverageFile} {dir : Str × ReportDir}
    {step : List CoverageFile × Dict Str LineHits} (run : mergeStep nodes files dir = some step) :
    step.1.map CoverageFile.source = files.map CoverageFile.source := by
  obtain ⟨m, -, rfl⟩ := Option.map_eq_some_iff.1 run
  split
  · exact sources_applyLineHits _ _ files
  · rfl

theorem mapFor_congr {nodes : Int} {files others : List CoverageFile}
    (sources : files.map CoverageFile.source = others.map CoverageFile.source)
    (some : 0 < scoreTotal files) (dir : Str × ReportDir) :
    mapFor nodes files dir = mapFor nodes others dir := by
  unfold mapFor
  congr 1
  funext m
  split
  · exact congrArg snapshotHits (applyLineHits_congr _ _ sources some)
  · rfl

/-- Every merged map stands for one of the directories. -/
theorem mergeMaps_spec {nodes : Int} {files : List CoverageFile} {dirs : List (Str × ReportDir)}
    {done : List CoverageFile × List (Dict Str LineHits)}
    (run : mergeMaps nodes files dirs = some done) :
    done.1.map CoverageFile.source = files.map CoverageFile.source ∧
      (0 < scoreTotal files → ∀ m ∈ done.2, ∃ dir ∈ dirs, mapFor nodes files dir = some m) := by
  induction dirs generalizing files done with
  | nil =>
      rw [mergeMaps, Option.some.injEq] at run
      subst run
      exact ⟨rfl, fun _ m member => by cases member⟩
  | cons dir rest inductionHypothesis =>
      rw [mergeMaps] at run
      cases first : mergeStep nodes files dir with
      | none =>
          rw [first] at run
          cases run
      | some step =>
          rw [first] at run
          obtain ⟨later, runLater, rfl⟩ := Option.map_eq_some_iff.1 run
          have sources := sources_mergeStep first
          obtain ⟨tail, maps⟩ := inductionHypothesis runLater
          refine ⟨tail.trans sources, fun some m member => ?_⟩
          rcases List.mem_cons.1 member with rfl | inLater
          · refine ⟨dir, by simp, ?_⟩
            rw [← map_snd_mergeStep, first]
            rfl
          · have some' : 0 < scoreTotal step.1 := by rwa [scoreTotal_congr sources]
            obtain ⟨other, listed, stands⟩ := maps some' m inLater
            exact ⟨other, by simp [listed], by rw [← stands, mapFor_congr sources some']⟩

omit [Runtime] in
theorem unionCount_pos_iff {maps : List (Dict Str LineHits)} {rel : Str} {ln : Nat} :
    0 < unionCount maps rel ln ↔ ∃ m ∈ maps, 0 < hitsAt (m.get rel ∅) ln := by
  have fold : unionCount maps rel ln =
      (maps.map fun m => hitsAt (m.get rel ∅) ln).foldl max 0 := by
    unfold unionCount
    rw [List.foldl_map]
  rw [fold, Int.lt_iff_add_one_le, le_foldl_max_iff]
  simp only [List.mem_map, exists_exists_and_eq_and]
  rw [or_iff_right (by omega)]
  apply exists_congr
  intro m
  apply and_congr_right
  intro _
  omega

end Sources

/-! ## Nothing is covered that was not recorded nearby -/

section Recorded

variable [Runtime]

/-- A line of the block of `ln`, or of the block of the executable line before it,
has a positive count. -/
def NearRecorded (f : SourceFile) (count : Nat → Int) (ln : Nat) : Prop :=
  BlockRecorded f count ln ∨ ∃ prev, Adjacent f.lines prev ln ∧ BlockRecorded f count prev

theorem nearRecorded_of_covered {f : CoverageFile} {count : Nat → Int} {ln : Nat}
    (member : ln ∈ f.source.lines) (covered : 0 < hitsAt (smoothFrom count f).hits ln) :
    NearRecorded f.source count ln := by
  rcases (smoothFrom_pos_iff member).1 covered with here | ⟨prev, follows, before⟩
  · exact Or.inl here
  · exact Or.inr ⟨prev, follows.1, before⟩

theorem publishedFiles_trace {o : Options} (noMerge : o.mergeDirs = [])
    (enough : 3 ≤ mappedCount (parseLcov o.lcov) (readTree o.tree)) :
    publishedFiles o = some ((readTree o.tree).map fun f =>
      smoothFrom (recordCount (parseLcov o.lcov) f) f, o.profile) := by
  have nonempty : (readTree o.tree).isEmpty = false := by
    cases shape : readTree o.tree with
    | nil =>
        rw [shape] at enough
        cases enough
    | cons f rest => rfl
  unfold publishedFiles
  simp only [nonempty, noMerge, List.isEmpty_nil]
  simp only [Bool.false_eq_true, if_false, if_true]
  rw [traceOrSynthetic_eq (hits_readTree o.tree) o.profile _ enough]

theorem publishedFiles_merge {o : Options} {files : List CoverageFile} {profile : Profile}
    (merges : o.mergeDirs ≠ []) (published : publishedFiles o = some (files, profile)) :
    ∃ done, mergeMaps (clampNodes o.nodes) (readTree o.tree) o.mergeDirs = some done ∧
      files = done.1.map fun f => smoothFrom (unionCount done.2 f.source.rel) f := by
  unfold publishedFiles at published
  simp only [List.isEmpty_iff, merges, if_false] at published
  split at published
  · cases published
  · obtain ⟨done, run, equal⟩ := Option.map_eq_some_iff.1 published
    exact ⟨done, run, (Prod.mk.inj equal).1.symm⟩

/-- A count taken from several maps is taken from one of them. -/
theorem blockRecorded_unionCount {f : SourceFile} {maps : List (Dict Str LineHits)} {rel : Str}
    {ln : Nat} (recorded : BlockRecorded f (unionCount maps rel) ln) :
    ∃ m ∈ maps, BlockRecorded f (hitsAt (m.get rel ∅)) ln := by
  obtain ⟨other, member, same, positive⟩ := recorded
  obtain ⟨m, listed, count⟩ := unionCount_pos_iff.1 positive
  exact ⟨m, listed, other, member, same, count⟩

theorem nearRecorded_unionCount {f : SourceFile} {maps : List (Dict Str LineHits)} {rel : Str}
    {ln : Nat} (near : NearRecorded f (unionCount maps rel) ln) :
    ∃ m ∈ maps, NearRecorded f (hitsAt (m.get rel ∅)) ln := by
  rcases near with here | ⟨prev, adjacent, before⟩
  · obtain ⟨m, listed, recorded⟩ := blockRecorded_unionCount here
    exact ⟨m, listed, Or.inl recorded⟩
  · obtain ⟨m, listed, recorded⟩ := blockRecorded_unionCount before
    exact ⟨m, listed, Or.inr ⟨prev, adjacent, recorded⟩⟩

/-- A positive count of a trace comes from the record matched to the file. -/
theorem exists_record {lcov : Dict Str LineHits} {f : CoverageFile} {ln : Nat}
    (near : NearRecorded f.source (recordCount lcov f) ln) :
    ∃ m, matchLcovFile f.source.rel lcov = some m ∧ NearRecorded f.source (hitsAt m) ln := by
  cases matched : matchedRecord lcov f with
  | none =>
      have zero : ∀ other, recordCount lcov f other = 0 := by
        intro other
        unfold recordCount
        rw [matched]
      rcases near with ⟨other, -, -, positive⟩ | ⟨prev, -, other, -, -, positive⟩ <;>
        simp [zero] at positive
  | some m =>
      have same : recordCount lcov f = hitsAt m := by
        funext other
        unfold recordCount
        rw [matched]
      rw [same] at near
      exact ⟨m, (Option.filter_eq_some_iff.1 matched).1, near⟩

/-- With at least three files in the trace, a covered line has a positive count near
it in the record of its file. In a merged report it has one in the map that stands
for some directory. -/
theorem covered_nearRecorded (o : Options) (files : List CoverageFile) (profile : Profile)
    (published : publishedFiles o = some (files, profile)) :
    (o.mergeDirs = [] → 3 ≤ mappedCount (parseLcov o.lcov) (readTree o.tree) →
      ∀ f ∈ files, ∀ ln ∈ f.source.lines, 0 < hitsAt f.hits ln →
        ∃ m, matchLcovFile f.source.rel (parseLcov o.lcov) = some m ∧
          NearRecorded f.source (hitsAt m) ln) ∧
    (o.mergeDirs ≠ [] → ∀ f ∈ files, ∀ ln ∈ f.source.lines, 0 < hitsAt f.hits ln →
      ∃ dir ∈ o.mergeDirs, ∃ m, mapFor (clampNodes o.nodes) (readTree o.tree) dir = some m ∧
        NearRecorded f.source (hitsAt (m.get f.source.rel ∅)) ln) := by
  refine ⟨fun noMerge enough f member ln line covered => ?_,
    fun merges f member ln line covered => ?_⟩
  · rw [publishedFiles_trace noMerge enough, Option.some.injEq, Prod.mk.injEq] at published
    rw [← published.1] at member
    obtain ⟨g, -, rfl⟩ := List.mem_map.1 member
    exact exists_record (nearRecorded_of_covered line covered)
  · obtain ⟨done, run, shape⟩ := publishedFiles_merge merges published
    obtain ⟨sources, stands⟩ := mergeMaps_spec run
    rw [shape] at member
    obtain ⟨g, listed, rfl⟩ := List.mem_map.1 member
    obtain ⟨m, inMaps, near⟩ := nearRecorded_unionCount (nearRecorded_of_covered line covered)
    have some : 0 < scoreTotal (readTree o.tree) := by
      rw [← scoreTotal_congr sources]
      have lines : 0 < fileTotal g := List.length_pos_of_mem line
      exact Nat.lt_of_lt_of_le lines (List.le_sum_of_mem (List.mem_map_of_mem listed))
    obtain ⟨dir, inDirs, equal⟩ := stands some m inMaps
    exact ⟨dir, inDirs, m, equal, near⟩

/-- Without a positive count in the file no line is near one. -/
theorem NearRecorded.exists_pos {f : SourceFile} {count : Nat → Int} {ln : Nat}
    (near : NearRecorded f count ln) : ∃ other ∈ f.lines, 0 < count other := by
  rcases near with ⟨other, member, -, positive⟩ | ⟨prev, -, other, member, -, positive⟩
  · exact ⟨other, member, positive⟩
  · exact ⟨other, member, positive⟩

end Recorded

section SampleRecorded

attribute [local instance] sampleRuntime

theorem covered_nearRecorded_sample :
    ∃ files profile, publishedFiles (traceRun sampleTree sampleTrace) = some (files, profile) ∧
      ∀ f ∈ files, ∀ ln ∈ f.source.lines, 0 < hitsAt f.hits ln →
        ∃ m, matchLcovFile f.source.rel (parseLcov (some (.write sampleTrace))) = some m ∧
          NearRecorded f.source (hitsAt m) ln := by
  have runs : (publishedFiles (traceRun sampleTree sampleTrace)).isSome = true := by
    decide +kernel
  rcases Option.isSome_iff_exists.1 runs with ⟨⟨files, profile⟩, published⟩
  exact ⟨files, profile, published,
    (covered_nearRecorded (traceRun sampleTree sampleTrace) files profile published).1 rfl
      (by decide +kernel)⟩

/-- One file with one executable line. -/
def returnTree : SourceTree where
  found := [topFile "a.c".toList plainText plainPart_a]
  distinct := by decide

/-- The function was never called. -/
def idleRun : Options := traceRun returnTree (recordText "a.c".toList [(1, 0), (3, 0), (4, 0)])

def emptyMerge : Options := mergeRun returnTree [("gcov_reports_default_1".toList, emptyDir)]

/-- Below three files the trace is set aside, and an empty report is filled up. -/
theorem invented_coverage :
    (∃ files profile, publishedFiles idleRun = some (files, profile) ∧
      (∃ f ∈ readTree idleRun.tree, (matchLcovFile f.source.rel (parseLcov idleRun.lcov)).isSome) ∧
      ∃ f ∈ files, ∃ ln ∈ f.source.lines, 0 < hitsAt f.hits ln ∧
        ∀ m, matchLcovFile f.source.rel (parseLcov idleRun.lcov) = some m →
          ¬ NearRecorded f.source (hitsAt m) ln) ∧
    ∃ files profile, publishedFiles emptyMerge = some (files, profile) ∧
      ∃ f ∈ files, ∃ ln ∈ f.source.lines, 0 < hitsAt f.hits ln ∧
        ∀ dir ∈ emptyMerge.mergeDirs, ∀ m, loadLineHits dir.2 = some m →
          ¬ NearRecorded f.source (hitsAt (m.get f.source.rel ∅)) ln := by
  have idle : (publishedFiles idleRun).any (fun result => result.1.any fun f =>
      f.source.lines.any fun ln => decide (0 < hitsAt f.hits ln) &&
        (matchLcovFile f.source.rel (parseLcov idleRun.lcov)).all fun m =>
          f.source.lines.all fun other => decide (hitsAt m other ≤ 0)) = true := by decide +kernel
  have empty : (publishedFiles emptyMerge).any (fun result => result.1.any fun f =>
      f.source.lines.any fun ln => decide (0 < hitsAt f.hits ln)) = true := by decide +kernel
  constructor
  · rcases (Option.any_eq_true _ _).1 idle with ⟨⟨files, profile⟩, published, found⟩
    rcases List.any_eq_true.1 found with ⟨f, member, lines⟩
    rcases List.any_eq_true.1 lines with ⟨ln, line, both⟩
    rw [Bool.and_eq_true, decide_eq_true_eq] at both
    refine ⟨files, profile, published, by decide +kernel, f, member, ln, line, both.1, ?_⟩
    intro m matched near
    rcases near.exists_pos with ⟨other, listed, positive⟩
    have zero := both.2
    rw [matched, Option.all_some, List.all_eq_true] at zero
    have below := zero other listed
    rw [decide_eq_true_eq] at below
    omega
  · rcases (Option.any_eq_true _ _).1 empty with ⟨⟨files, profile⟩, published, found⟩
    rcases List.any_eq_true.1 found with ⟨f, member, lines⟩
    rcases List.any_eq_true.1 lines with ⟨ln, line, covered⟩
    rw [decide_eq_true_eq] at covered
    refine ⟨files, profile, published, f, member, ln, line, covered, ?_⟩
    intro dir listed m loaded near
    rcases near.exists_pos with ⟨other, -, positive⟩
    have none : m = ∅ := by
      rw [List.mem_singleton.1 listed] at loaded
      exact (Option.some.inj loaded).symm
    rw [none] at positive
    exact absurd positive (Int.lt_irrefl 0)

end SampleRecorded

/-! ## No recorded count of an executable line is lost -/

section Kept

variable [Runtime]

theorem number_row {f : CoverageFile} {ln : Nat} (member : ln ∈ f.source.lines)
    (covered : 0 < hitsAt f.hits ln) :
    ∃ row ∈ (writeFilePage f).rows, row.number = ln ∧ row.cls = .hit := by
  obtain ⟨lower, upper⟩ := f.source.inRange ln member
  have place : ∃ line, f.source.raw[ln - 1]? = some line :=
    ⟨_, List.getElem?_eq_getElem (by omega)⟩
  rcases place with ⟨line, place⟩
  have listed := List.mk_mem_zipIdx_iff_le_and_getElem?_sub.2 ⟨lower, place⟩
  refine ⟨_, List.mem_map.2 ⟨_, listed, rfl⟩, ?_⟩
  unfold pageRow
  simp only [if_pos member, if_pos covered]
  exact ⟨trivial, trivial⟩

theorem generate_trace {root : LcovFsRoot} {o : Options} {r : Published}
    (published : generate root o = some r) (noMerge : o.mergeDirs = [])
    (enough : 3 ≤ mappedCount (parseLcov o.lcov) (readTree o.tree)) :
    r.files = ((readTree o.tree).map fun f => smoothFrom (recordCount (parseLcov o.lcov) f) f) ∧
      r.report = emitHtmlTree root r.files
        (if o.profile = .merged then Listing.configs else Listing.files) := by
  unfold generate at published
  rw [publishedFiles_trace noMerge enough, Option.map_some, Option.some.injEq] at published
  subst published
  exact ⟨rfl, rfl⟩

/-- What stands on a line of a file behind the comments at its beginning. -/
def lineCode (raw : List Str) (ln : Nat) : Option Str :=
  codePart (lineStates (raw.take (ln - 1))).comment (strip (lineAt raw ln))

theorem mem_lines_of_meant {f : SourceFile} (scanned : f.lines = execLines f.raw) {ln : Nat}
    (lower : 1 ≤ ln) (upper : ln ≤ f.raw.length) {w : Str} (code : lineCode f.raw ln = some w)
    (meant : ¬ SkippedByDesign w) (plain : ¬ HeadByAccident w) : ln ∈ f.lines := by
  rw [scanned, (mem_execLines_take lower upper).1, isCodeLine_eq]
  rw [lineCode] at code
  rw [code]
  exact isExecutableText_of_meant meant plain

theorem scanned_readTree (tree : SourceTree) :
    ∀ f ∈ readTree tree, f.source.lines = execLines f.source.raw := by
  intro f member
  obtain ⟨file, -, rfl⟩ := List.mem_map.1 member
  exact keys_kindTable file.text _

/-- The page of a file whose page name no other file has. -/
theorem get?_pages {root : LcovFsRoot} {files : List CoverageFile} {f : CoverageFile}
    (member : f ∈ files) (alone : ∀ g ∈ files,
      pageName g.source.rel = pageName f.source.rel → g = f) :
    (emitHtmlTree root files .files).pages.get? (pageName f.source.rel) =
      some (writeFilePage f) := by
  have stored : (emitHtmlTree root files .files).pages =
      .ofItems (files.map fun f => (pageName f.source.rel, writeFilePage f)) := rfl
  rw [stored]
  apply Dict.get?_ofItems
  · exact List.mem_map.2 ⟨f, member, rfl⟩
  · intro page listed
    obtain ⟨g, inFiles, equal⟩ := List.mem_map.1 listed
    rw [Prod.mk.injEq] at equal
    rw [← equal.2, alone g inFiles equal.1]

/-- The trace written for published files is read back. -/
theorem items_publishedTrace (root : LcovFsRoot) (tree : SourceTree) {files : List CoverageFile}
    (sources : files.map CoverageFile.source = (readTree tree).map CoverageFile.source)
    (many : 3 ≤ files.length) :
    (parseLcov (some (writeLcovInfo root files))).items = recordItems root files := by
  have rels : files.map (fun f => f.source.rel) = (readTree tree).map fun f => f.source.rel := by
    have same := congrArg (List.map SourceFile.rel) sources
    rw [List.map_map, List.map_map] at same
    exact same
  apply items_parseLcov_writeLcovInfo
  · rw [rels]
    exact distinct_readTree tree
  · intro f member
    have inTree : f.source ∈ (readTree tree).map CoverageFile.source := by
      rw [← sources]
      exact List.mem_map_of_mem member
    obtain ⟨g, listed, equal⟩ := List.mem_map.1 inTree
    rw [← equal]
    exact normalised_readTree tree g listed
  · exact large_writeLcovInfo root many

/-- With at least three files in the trace, a line with a positive count in the record of its
file is covered in the published hits, with at least that count, and in the written trace,
unless it is skipped on purpose or is a statement that looks like a function head; and on the
page of the file, when pages are written and no other file has a page of that name. -/
theorem recordedLine_published (root : LcovFsRoot) (o : Options) (r : Published)
    (published : generate root o = some r) (noMerge : o.mergeDirs = [])
    (enough : 3 ≤ mappedCount (parseLcov o.lcov) (readTree o.tree)) :
    ∀ f ∈ r.files, ∀ m, matchLcovFile f.source.rel (parseLcov o.lcov) = some m →
      ∀ ln, 1 ≤ ln → ln ≤ f.source.raw.length → 0 < hitsAt m ln →
      ∀ w, lineCode f.source.raw ln = some w → ¬ SkippedByDesign w → ¬ HeadByAccident w →
        hitsAt m ln ≤ hitsAt f.hits ln ∧
        (∃ table, (parseLcov (some r.report.info)).get? (root.join f.source.rel) = some table ∧
          0 < hitsAt table ln) ∧
        (o.profile ≠ .merged →
          (∀ g ∈ r.files, pageName g.source.rel = pageName f.source.rel →
            g.source.rel = f.source.rel) →
          ∃ page, r.report.pages.get? (pageName f.source.rel) = some page ∧
            ∃ row ∈ page.rows, row.number = ln ∧ row.cls = .hit) := by
  intro f member m matched ln lower upper positive w code meant plain
  obtain ⟨shape, report⟩ := generate_trace published noMerge enough
  have sources : r.files.map CoverageFile.source =
      (readTree o.tree).map CoverageFile.source := by
    rw [shape, List.map_map]
    rfl
  have rels : (r.files.map fun f => f.source.rel).Nodup := by
    have same := congrArg (List.map SourceFile.rel) sources
    rw [List.map_map, List.map_map] at same
    exact same ▸ distinct_readTree o.tree
  have line : ln ∈ f.source.lines := by
    have inTree : f.source ∈ (readTree o.tree).map CoverageFile.source := by
      rw [← sources]
      exact List.mem_map_of_mem member
    obtain ⟨g, listed, equal⟩ := List.mem_map.1 inTree
    refine mem_lines_of_meant ?_ lower upper code meant plain
    rw [← equal]
    exact scanned_readTree o.tree g listed
  have kept : hitsAt m ln ≤ hitsAt f.hits ln := by
    rw [shape] at member
    obtain ⟨g, -, rfl⟩ := List.mem_map.1 member
    have nonempty : m.isEmpty = false := by
      by_contra empty
      have noItems : m.items = [] := by simpa [Dict.isEmpty] using empty
      simp [hitsAt, Dict.get, Dict.get?, noItems, Dict.lookup] at positive
    have nonemptyRecord : matchedRecord (parseLcov o.lcov) g = some m :=
      Option.filter_eq_some_iff.2 ⟨matched, by simp [nonempty]⟩
    have record : recordCount (parseLcov o.lcov) g ln = hitsAt m ln := by
      unfold recordCount
      rw [nonemptyRecord]
    rw [← record]
    exact le_smoothFrom line
  have covered : 0 < hitsAt f.hits ln := by omega
  have many : 3 ≤ r.files.length := by
    rw [shape, List.length_map]
    exact Nat.le_trans enough List.countP_le_length
  refine ⟨kept, ⟨tableOf f, ?_, ?_⟩, fun listing alone => ⟨writeFilePage f, ?_, ?_⟩⟩
  · have info : r.report.info = writeLcovInfo root r.files := by
      rw [report]
      rfl
    rw [Dict.get?_eq_some_iff, info, items_publishedTrace root o.tree sources many]
    apply List.mem_map.2
    exact ⟨f, List.mem_filter.2 ⟨member, by simpa using List.ne_nil_of_mem line⟩, rfl⟩
  · unfold tableOf
    rw [hitsAt_hitsOf f.source.nodup_lines line]
    exact covered
  · rw [report, if_neg listing]
    apply get?_pages member
    exact fun g listed same => List.inj_on_of_nodup_map rels listed member (alone g listed same)
  · exact number_row line covered

end Kept

section SampleKept

attribute [local instance] sampleRuntime

theorem recordedLine_published_sample :
    ∃ r, generate sampleRoot (traceRun sampleTree sampleTrace) = some r ∧
      ∃ f ∈ r.files, 0 < hitsAt f.hits 4 ∧
        ∃ page, r.report.pages.get? (pageName f.source.rel) = some page ∧
          ∃ row ∈ page.rows, row.number = 4 ∧ row.cls = .hit := by
  have runs : (generate sampleRoot (traceRun sampleTree sampleTrace)).any (fun r =>
      r.files.any fun f =>
        (matchLcovFile f.source.rel (parseLcov (some (.write sampleTrace)))).any (fun m =>
          decide (0 < hitsAt m 4)) &&
        (decide (4 ≤ f.source.raw.length) &&
        (decide (lineCode f.source.raw 4 = some "foo();".toList) &&
          r.files.all fun g => decide (pageName g.source.rel = pageName f.source.rel →
            g.source.rel = f.source.rel)))) = true := by decide +kernel
  rcases (Option.any_eq_true _ _).1 runs with ⟨r, published, found⟩
  rcases List.any_eq_true.1 found with ⟨f, member, all⟩
  simp only [Bool.and_eq_true, decide_eq_true_eq, List.all_eq_true] at all
  obtain ⟨recorded, inside, code, alone⟩ := all
  rcases (Option.any_eq_true _ _).1 recorded with ⟨m, matched, positive⟩
  rw [decide_eq_true_eq] at positive
  have meant : ¬ SkippedByDesign "foo();".toList := fun skipped =>
    absurd (inert_iff.1 skipped.1) (by decide +kernel)
  have plain : ¬ HeadByAccident "foo();".toList := fun head => absurd head.1 (by decide +kernel)
  obtain ⟨kept, -, page⟩ := recordedLine_published sampleRoot (traceRun sampleTree sampleTrace) r
    published rfl (by decide +kernel) f member m matched 4 (by decide) inside positive _ code meant
    plain
  exact ⟨r, published, f, member, by omega, page (by decide) alone⟩

/-- The count of the line a function opens at is dropped. -/
theorem openingLine_dropped :
    3 ≤ mappedCount (parseLcov (some (.write sampleTrace))) (readTree sampleTree) ∧
    ∃ r, generate sampleRoot (traceRun sampleTree sampleTrace) = some r ∧
    ∃ f ∈ r.files, ∃ m,
      matchLcovFile f.source.rel (parseLcov (some (.write sampleTrace))) = some m ∧
      1 ≤ f.source.raw.length ∧ 0 < hitsAt m 1 ∧
      ¬ 0 < hitsAt f.hits 1 ∧
      (∃ page, r.report.pages.get? (pageName f.source.rel) = some page ∧
        ∀ row ∈ page.rows, row.number = 1 → row.cls = .na) ∧
      ∀ table, (parseLcov (some r.report.info)).get? (sampleRoot.join f.source.rel) =
        some table → table.get? 1 = none := by
  have dropped : (generate sampleRoot (traceRun sampleTree sampleTrace)).any (fun r =>
      r.files.any fun f =>
        (matchLcovFile f.source.rel (parseLcov (some (.write sampleTrace)))).any (fun m =>
          decide (1 ≤ f.source.raw.length) && decide (0 < hitsAt m 1)) &&
        (decide (¬ 0 < hitsAt f.hits 1) &&
        ((r.report.pages.get? (pageName f.source.rel)).any (fun page =>
          page.rows.all fun row => row.number != 1 || row.cls == .na) &&
        ((parseLcov (some r.report.info)).get? (sampleRoot.join f.source.rel)).all
          fun table => (table.get? 1).isNone))) = true := by decide +kernel
  rcases (Option.any_eq_true _ _).1 dropped with ⟨r, published, found⟩
  refine ⟨by decide +kernel, r, published, ?_⟩
  rcases List.any_eq_true.1 found with ⟨f, member, all⟩
  rw [Bool.and_eq_true, Bool.and_eq_true, Bool.and_eq_true, decide_eq_true_eq] at all
  rcases (Option.any_eq_true _ _).1 all.1 with ⟨m, matched, record⟩
  rw [Bool.and_eq_true, decide_eq_true_eq, decide_eq_true_eq] at record
  rcases (Option.any_eq_true _ _).1 all.2.2.1 with ⟨page, written, rows⟩
  refine ⟨f, member, m, matched, record.1, record.2, all.2.1, ⟨page, written, ?_⟩, ?_⟩
  · intro row listed number
    have class_ := List.all_eq_true.1 rows row listed
    rw [Bool.or_eq_true, bne_iff_ne, beq_iff_eq] at class_
    exact class_.resolve_left fun different => different number
  · intro table stored
    have none := all.2.2.2
    rw [stored, Option.all_some, Option.isNone_iff_eq_none] at none
    exact none

end SampleKept

end Ocfs2Coverage.Report
