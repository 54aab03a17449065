import Ocfs2Coverage.Report.Settled

/-!
Contract: running `generate` on the trace it has written.

Owns: the lookup in a trace of published files, the second run as another round of
smoothing, and the exact condition under which it publishes the same hits.
-/

namespace Ocfs2Coverage.Report

open Ocfs2Coverage.Python
open Ocfs2Coverage.Source
open Ocfs2Coverage.Hits
open Ocfs2Coverage.Trace
open Ocfs2Coverage.Profiles

/-! ## Smoothing smoothed counts -/

section Smoothing

variable [UnicodeData] {f : CoverageFile} {count : Nat → Int}

/-- Where a straight-line pair leads from a recorded block into another one, that
block is recorded as well or consists of the line alone. -/
def NoPartialBlock (f : SourceFile) (count : Nat → Int) : Prop :=
  ∀ a b, f.crosses a b → BlockRecorded f count a →
    BlockRecorded f count b ∨ ∀ c ∈ f.lines, f.blockOf c = f.blockOf b → c = b

/-- An unrecorded line other than the one its block was entered at is uncovered. -/
theorem smoothFrom_behind_entry {a b c : Nat} (crosses : f.source.crosses a b)
    (unrecorded : ¬ BlockRecorded f.source count b) (member : c ∈ f.source.lines)
    (same : f.source.blockOf c = f.source.blockOf b) (different : c ≠ b) :
    hitsAt (smoothFrom count f).hits c = 0 := by
  apply smoothFrom_zero member fun found => unrecorded (found.congr same)
  intro prev other _
  exact different (SourceFile.entry other crosses same)

theorem covered_of_recorded {ln : Nat} (member : ln ∈ f.source.lines)
    (recorded : BlockRecorded f.source count ln) :
    0 < hitsAt (smoothFrom count f).hits ln := by
  rw [smoothFrom_of_recorded member recorded]
  exact blockCount_pos_iff.2 recorded

/-- An uncovered block has no entry; a covered unrecorded line is one. -/
theorem exists_entry {ln : Nat} (member : ln ∈ f.source.lines)
    (unrecorded : ¬ BlockRecorded f.source count ln)
    (covered : 0 < hitsAt (smoothFrom count f).hits ln) :
    ∃ prev, f.source.crosses prev ln ∧ BlockRecorded f.source count prev := by
  by_contra none
  have zero := smoothFrom_zero member unrecorded fun prev crosses before =>
    none ⟨prev, crosses, before⟩
  omega

theorem noPartialBlock_of_fixed (uniform : Uniform f.source (smoothFrom count f).hits)
    (closed : ∀ a b, f.source.follows a b → 0 < hitsAt (smoothFrom count f).hits a →
      0 < hitsAt (smoothFrom count f).hits b) : NoPartialBlock f.source count := by
  intro a b crosses recorded
  by_contra neither
  rw [not_or] at neither
  obtain ⟨unrecorded, more⟩ := neither
  apply more
  intro c member same
  by_contra different
  have ends := SourceFile.adjacent_mem crosses.1.1
  have entered := closed a b crosses.1 (covered_of_recorded ends.1 recorded)
  have zero := smoothFrom_behind_entry crosses unrecorded member same different
  have equal := uniform.sameBlock c member b ends.2 same
  omega

theorem uniform_of_noPartialBlock (noPartial : NoPartialBlock f.source count) :
    Uniform f.source (smoothFrom count f).hits where
  nonneg := fun _ member => nonneg_smoothFrom member
  sameBlock := by
    show ∀ ln ∈ f.source.lines, ∀ other ∈ f.source.lines,
      f.source.blockOf ln = f.source.blockOf other → _
    intro ln member other listed same
    by_cases recorded : BlockRecorded f.source count ln
    · rw [smoothFrom_of_recorded member recorded,
        smoothFrom_of_recorded listed (recorded.congr same)]
      exact blockCount_congr same
    · -- An entered block is its entry alone.
      have alone : ∀ x ∈ f.source.lines, ∀ y ∈ f.source.lines,
          f.source.blockOf x = f.source.blockOf ln → f.source.blockOf y = f.source.blockOf ln →
          0 < hitsAt (smoothFrom count f).hits x → y = x := by
        intro x xLine y yLine xSame ySame covered
        obtain ⟨prev, crosses, before⟩ :=
          exists_entry xLine (fun found => recorded (found.congr xSame)) covered
        rcases noPartial prev x crosses before with found | single
        · exact absurd (found.congr xSame) recorded
        · exact single y yLine (ySame.trans xSame.symm)
      have nonneg : 0 ≤ hitsAt (smoothFrom count f).hits ln := nonneg_smoothFrom member
      have nonneg' : 0 ≤ hitsAt (smoothFrom count f).hits other := nonneg_smoothFrom listed
      by_cases covered : 0 < hitsAt (smoothFrom count f).hits ln
      · rw [alone ln member other listed rfl same.symm covered]
      · by_cases covered' : 0 < hitsAt (smoothFrom count f).hits other
        · rw [alone other listed ln member same.symm rfl covered']
        · omega

theorem closed_of_noPartialBlock (noPartial : NoPartialBlock f.source count) (a b : Nat)
    (follows : f.source.follows a b) (covered : 0 < hitsAt (smoothFrom count f).hits a) :
    0 < hitsAt (smoothFrom count f).hits b := by
  have ends := SourceFile.adjacent_mem follows.1
  by_cases inside : f.source.blockOf a = f.source.blockOf b
  · rw [← (uniform_of_noPartialBlock noPartial).sameBlock a ends.1 b ends.2 inside]
    exact covered
  · have crosses : f.source.crosses a b := ⟨follows, inside⟩
    by_cases recorded : BlockRecorded f.source count a
    · by_cases recorded' : BlockRecorded f.source count b
      · exact covered_of_recorded ends.2 recorded'
      · rw [smoothFrom_of_entered crosses recorded recorded']
        exact blockCount_pos_iff.2 recorded
    · obtain ⟨prev, before, -⟩ := exists_entry ends.1 recorded covered
      exact (SourceFile.noChain before rfl crosses).elim

/-- Smoothing the result of smoothing changes nothing exactly without partial blocks. -/
theorem smoothFrom_fixed_iff :
    (∀ ln ∈ f.source.lines, hitsAt (smoothFrom (hitsAt (smoothFrom count f).hits) f).hits ln =
        hitsAt (smoothFrom count f).hits ln) ↔ NoPartialBlock f.source count := by
  have again : ∀ ln ∈ f.source.lines,
      hitsAt (smoothFrom (hitsAt (smoothFrom count f).hits) f).hits ln =
        hitsAt (cohereForwardHits f.source (cohereBlockHits f.source (smoothFrom count f).hits))
          ln := by
    intro ln member
    apply smoothed_congr _ member
    intro line listed
    exact hitsAt_hitsOf f.source.nodup_lines listed
  rw [forall₂_congr fun ln member => by rw [again ln member], smoothed_fixed_iff]
  constructor
  · intro ⟨uniform, closed⟩
    exact noPartialBlock_of_fixed uniform closed
  · intro noPartial
    exact ⟨uniform_of_noPartialBlock noPartial, closed_of_noPartialBlock noPartial⟩

/-- The count both passes leave on a line: the largest one recorded in its block, else
the one of the block a straight-line pair leads here from. -/
def settledCount (count : Nat → Int) (f : SourceFile) (ln : Nat) : Int :=
  if 0 < blockCount count f ln then blockCount count f ln
  else
    match (f.lines.zip f.lines.tail).find? fun pair =>
        decide (pair.2 = ln) && straightLine f.raw pair.1 pair.2 with
    | some pair => blockCount count f pair.1
    | none => 0

theorem hitsAt_smoothFrom_eq {ln : Nat} (member : ln ∈ f.source.lines) :
    hitsAt (smoothFrom count f).hits ln = settledCount count f.source ln := by
  have nonneg : ∀ line, 0 ≤ blockCount count f.source line :=
    fun line => blockHits_nonneg f.source _ line
  by_cases recorded : BlockRecorded f.source count ln
  · rw [smoothFrom_of_recorded member recorded, settledCount, if_pos (blockCount_pos_iff.2 recorded)]
  · have nonpositive := mt blockCount_pos_iff.1 recorded
    rw [settledCount, if_neg nonpositive]
    split
    · next pair found =>
        have test := List.find?_some found
        rw [Bool.and_eq_true, decide_eq_true_eq] at test
        have adjacent : Adjacent f.source.lines pair.1 ln := by
          rw [← test.1]
          exact List.mem_of_find?_eq_some found
        rw [hitsAt_smoothFrom adjacent]
        rw [test.1] at test
        split
        · rfl
        · next stays =>
            -- Neither of the two blocks is recorded.
            have zero : ¬ 0 < blockCount count f.source pair.1 :=
              fun positive => stays ⟨test.2, positive, by omega⟩
            have := nonneg pair.1
            have := nonneg ln
            omega
    · next none =>
        apply smoothFrom_zero member recorded
        intro prev crosses
        have test := List.find?_eq_none.1 none (prev, ln) crosses.1.1
        simp [crosses.1.2] at test

end Smoothing

/-! ## The trace of a report as input -/

section Lookup

variable [UnicodeData]

/-- The file whose record the lookup in the trace of these files finds for a path. -/
def recordFor (root : LcovFsRoot) (files : List CoverageFile) (rel : Str) : Option CoverageFile :=
  (files.filter fun f => !f.source.lines.isEmpty).find? fun g =>
    endswith (root.join g.source.rel) rel

/-- How many of the files find a record in their trace. -/
def foundCount (root : LcovFsRoot) (files : List CoverageFile) : Nat :=
  files.countP fun f => (recordFor root files f.source.rel).isSome

theorem recordFor_spec {root : LcovFsRoot} {files : List CoverageFile} {rel : Str}
    {g : CoverageFile} (found : recordFor root files rel = some g) :
    g ∈ files ∧ g.source.lines ≠ [] := by
  have member := List.mem_filter.1 (List.mem_of_find?_eq_some found)
  exact ⟨member.1, by simpa using member.2⟩

/-- A file with executable lines finds a record, if only its own. -/
theorem exists_recordFor (root : LcovFsRoot) {files : List CoverageFile} {f : CoverageFile}
    (member : f ∈ files) (lines : f.source.lines ≠ []) :
    ∃ g, recordFor root files f.source.rel = some g := by
  apply Option.isSome_iff_exists.1
  apply List.find?_isSome.2
  refine ⟨f, List.mem_filter.2 ⟨member, by simpa using lines⟩, ?_⟩
  apply endswith_iff.2
  simp only [LcovFsRoot.join]
  exact (List.suffix_cons '/' f.source.rel).trans (List.suffix_append root.text _)

end Lookup

section Regeneration

variable [Runtime]

/-- The options of the second run. -/
def regenerated (o : Options) (r : Published) : Options := { o with lcov := some r.report.info }

/-- The second run publishes the hits of the first for every file and line. -/
def SameHits (r r' : Published) : Prop :=
  ∀ (i : Nat) f g, r.files[i]? = some f → r'.files[i]? = some g →
    ∀ ln ∈ f.source.lines, hitsAt g.hits ln = hitsAt f.hits ln

/-- The counts in the record written for `g`. -/
def writtenCount (lcov : Dict Str LineHits) (g : CoverageFile) (ln : Nat) : Int :=
  if ln ∈ g.source.lines then settledCount (recordCount lcov g) g.source ln else 0

/-- The counts of the file settle as before when it reads the record written for `g`:
no partial block when that is its own, and equal counts when it is another's. -/
def Steady (lcov : Dict Str LineHits) (f g : CoverageFile) : Prop :=
  (g = f → NoPartialBlock f.source (recordCount lcov f)) ∧
  (g ≠ f → ∀ ln ∈ f.source.lines,
    settledCount (writtenCount lcov g) f.source ln = settledCount (recordCount lcov f) f.source ln)

/-- The files with the hits made up for the profile of a run. -/
def madeUp (o : Options) : List CoverageFile :=
  applyLineHits (readTree o.tree) (targetPctFor o.profile (clampNodes o.nodes)) o.profile

/-- The counts made up for the profile are those the trace leaves. -/
def MadeUpAlike (o : Options) : Prop :=
  ∀ (i : Nat) f g, (readTree o.tree)[i]? = some f → (madeUp o)[i]? = some g →
    ∀ ln ∈ f.source.lines,
      hitsAt g.hits ln = settledCount (recordCount (parseLcov o.lcov) f) f.source ln

/-- No file has executable lines; or at least three files find a record in the written
trace and settle as before with it; or fewer do, and the counts made up are the same. -/
def RegeneratesAlike (root : LcovFsRoot) (o : Options) : Prop :=
  (∀ f ∈ readTree o.tree, f.source.lines = []) ∨
  (3 ≤ foundCount root (readTree o.tree) ∧
    ∀ f ∈ readTree o.tree, ∀ g, recordFor root (readTree o.tree) f.source.rel = some g →
      Steady (parseLcov o.lcov) f g) ∨
  (foundCount root (readTree o.tree) < 3 ∧ MadeUpAlike o)

theorem foundCount_eq_zero (root : LcovFsRoot) {files : List CoverageFile}
    (none : ∀ f ∈ files, f.source.lines = []) : foundCount root files = 0 := by
  apply List.countP_eq_zero.2
  intro f _ found
  obtain ⟨g, here⟩ := Option.isSome_iff_exists.1 found
  obtain ⟨member, lines⟩ := recordFor_spec here
  exact lines (none g member)

/-- Two files without an executed line may read each other's record. -/
theorem steady_of_unexecuted {lcov : Dict Str LineHits} {f g : CoverageFile}
    (idle : ∀ ln ∈ f.source.lines, recordCount lcov f ln ≤ 0)
    (idle' : ∀ ln ∈ f.source.lines, writtenCount lcov g ln ≤ 0) : Steady lcov f g := by
  have unrecorded : ∀ count : Nat → Int, (∀ ln ∈ f.source.lines, count ln ≤ 0) →
      ∀ ln, ¬ BlockRecorded f.source count ln := by
    intro count low ln recorded
    obtain ⟨other, member, -, positive⟩ := recorded
    exact absurd positive (Int.not_lt.2 (low other member))
  have zero : ∀ count : Nat → Int, (∀ ln ∈ f.source.lines, count ln ≤ 0) →
      ∀ ln ∈ f.source.lines, settledCount count f.source ln = 0 := by
    intro count low ln member
    rw [← hitsAt_smoothFrom_eq member]
    exact smoothFrom_zero member (unrecorded count low ln) fun prev _ => unrecorded count low prev
  constructor
  · intro _ a b _ recorded
    exact absurd recorded (unrecorded _ idle a)
  · intro _ ln member
    rw [zero _ idle' ln member, zero _ idle ln member]

section SecondRun

variable {root : LcovFsRoot} {o : Options} {r : Published}

/-- The lookup in the trace of smoothed files. -/
theorem matchedRecord_items {files : List CoverageFile} {count : CoverageFile → Nat → Int}
    {lcov : Dict Str LineHits}
    (items : lcov.items = recordItems root (files.map fun g => smoothFrom (count g) g))
    (f : CoverageFile) :
    matchedRecord lcov f =
      (recordFor root files f.source.rel).map fun g => tableOf (smoothFrom (count g) g) := by
  have found : matchLcovFile f.source.rel lcov =
      (recordFor root files f.source.rel).map fun g => tableOf (smoothFrom (count g) g) := by
    simp only [matchLcovFile, recordFor]
    rw [items, recordItems, List.filter_map, List.map_map, List.find?_map, Option.map_map]
    simp only [Function.comp_def, keyMatches_eq]
    rfl
  rw [matchedRecord, found]
  cases here : recordFor root files f.source.rel with
  | none => rfl
  | some g =>
      have filled : (tableOf (smoothFrom (count g) g)).isEmpty = false := by
        simp only [Dict.isEmpty, tableOf]
        rw [items_hitsOf (smoothFrom (count g) g).source.nodup_lines]
        have lines : (smoothFrom (count g) g).source.lines ≠ [] := (recordFor_spec here).2
        simpa using lines
      simp [filled]

/-- The second run reads the record written for some file. -/
theorem matchedRecord_second (published : generate root o = some r) (noMerge : o.mergeDirs = [])
    (enough : 3 ≤ mappedCount (parseLcov o.lcov) (readTree o.tree)) (f : CoverageFile) :
    matchedRecord (parseLcov (some r.report.info)) f =
      (recordFor root (readTree o.tree) f.source.rel).map fun g =>
        tableOf (smoothFrom (recordCount (parseLcov o.lcov) g) g) := by
  obtain ⟨shape, report⟩ := generate_trace published noMerge enough
  have many : 3 ≤ r.files.length := by
    rw [shape, List.length_map]
    exact Nat.le_trans enough List.countP_le_length
  have sources : r.files.map CoverageFile.source =
      (readTree o.tree).map CoverageFile.source := by
    rw [shape, List.map_map]
    rfl
  have items : (parseLcov (some r.report.info)).items = recordItems root r.files := by
    rw [report]
    exact items_publishedTrace root o.tree sources many
  rw [shape] at items
  exact matchedRecord_items items f

theorem mappedCount_second (published : generate root o = some r) (noMerge : o.mergeDirs = [])
    (enough : 3 ≤ mappedCount (parseLcov o.lcov) (readTree o.tree)) :
    mappedCount (parseLcov (some r.report.info)) (readTree o.tree) =
      foundCount root (readTree o.tree) := by
  apply List.countP_congr
  intro f _
  rw [matchedRecord_second published noMerge enough, Option.isSome_map]

theorem recordCount_second (published : generate root o = some r) (noMerge : o.mergeDirs = [])
    (enough : 3 ≤ mappedCount (parseLcov o.lcov) (readTree o.tree)) {f g : CoverageFile}
    (found : recordFor root (readTree o.tree) f.source.rel = some g) (ln : Nat) :
    recordCount (parseLcov (some r.report.info)) f ln = writtenCount (parseLcov o.lcov) g ln := by
  rw [recordCount, matchedRecord_second published noMerge enough, found]
  show hitsAt (hitsOf g.source.lines _) ln = _
  rw [writtenCount]
  split
  · next member => rw [hitsAt_hitsOf g.source.nodup_lines member, hitsAt_smoothFrom_eq member]
  · next absent => exact hitsAt_hitsOf_of_notMem g.source.nodup_lines absent

/-- What the second run smooths for a file settles as in the first run. -/
theorem steady_iff (published : generate root o = some r) (noMerge : o.mergeDirs = [])
    (enough : 3 ≤ mappedCount (parseLcov o.lcov) (readTree o.tree)) {f : CoverageFile}
    (member : f ∈ readTree o.tree) :
    (∀ ln ∈ f.source.lines,
      hitsAt (smoothFrom (recordCount (parseLcov (some r.report.info)) f) f).hits ln =
        hitsAt (smoothFrom (recordCount (parseLcov o.lcov) f) f).hits ln) ↔
      ∀ g, recordFor root (readTree o.tree) f.source.rel = some g →
        Steady (parseLcov o.lcov) f g := by
  by_cases lines : f.source.lines = []
  · rw [lines]
    constructor
    · intro _ g _
      refine ⟨fun _ a b crosses => ?_, fun _ ln line => ?_⟩
      · have ends := SourceFile.adjacent_mem crosses.1.1
        rw [lines] at ends
        cases ends.1
      · rw [lines] at line
        cases line
    · intro _ ln line
      cases line
  · obtain ⟨g, found⟩ := exists_recordFor root member lines
    have counts : ∀ ln ∈ f.source.lines, recordCount (parseLcov (some r.report.info)) f ln =
        writtenCount (parseLcov o.lcov) g ln :=
      fun ln _ => recordCount_second published noMerge enough found ln
    rw [found, smoothFrom_congr counts]
    simp only [Option.some.injEq, forall_eq']
    by_cases own : g = f
    · -- The file reads what was published for it.
      have again : ∀ ln ∈ f.source.lines, writtenCount (parseLcov o.lcov) g ln =
          hitsAt (smoothFrom (recordCount (parseLcov o.lcov) f) f).hits ln := by
        intro ln line
        rw [own, writtenCount, if_pos line, hitsAt_smoothFrom_eq line]
      rw [smoothFrom_congr again, smoothFrom_fixed_iff]
      simp [Steady, own]
    · simp only [Steady, own, false_implies, true_and, ne_eq, not_false_eq_true, true_implies]
      apply forall₂_congr
      intro ln line
      rw [hitsAt_smoothFrom_eq line, hitsAt_smoothFrom_eq line]

theorem sameHits_iff {r' : Published} {files : List CoverageFile}
    {count : CoverageFile → Nat → Int} (shape : r.files = files.map fun f => smoothFrom (count f) f) :
    SameHits r r' ↔ ∀ (i : Nat) f g, files[i]? = some f → r'.files[i]? = some g →
      ∀ ln ∈ f.source.lines, hitsAt g.hits ln = hitsAt (smoothFrom (count f) f).hits ln := by
  simp only [SameHits]
  rw [shape]
  constructor
  · intro same i f g place place'
    exact same i (smoothFrom (count f) f) g (by rw [List.getElem?_map, place]; rfl) place'
  · intro same i h g place place'
    rw [List.getElem?_map] at place
    obtain ⟨f, found, rfl⟩ := Option.map_eq_some_iff.1 place
    exact same i f g found place'

/-- With three files or more in the written trace. -/
theorem regenerate_found_iff (published : generate root o = some r) (noMerge : o.mergeDirs = [])
    (enough : 3 ≤ mappedCount (parseLcov o.lcov) (readTree o.tree)) {r' : Published}
    (published' : generate root (regenerated o r) = some r')
    (many : 3 ≤ foundCount root (readTree o.tree)) :
    SameHits r r' ↔ ∀ f ∈ readTree o.tree, ∀ g,
      recordFor root (readTree o.tree) f.source.rel = some g → Steady (parseLcov o.lcov) f g := by
  have enough' : 3 ≤ mappedCount (parseLcov (regenerated o r).lcov)
      (readTree (regenerated o r).tree) := by
    show 3 ≤ mappedCount (parseLcov (some r.report.info)) (readTree o.tree)
    rw [mappedCount_second published noMerge enough]
    exact many
  have shape := (generate_trace published noMerge enough).1
  have shape' := (generate_trace published' noMerge enough').1
  rw [sameHits_iff shape]
  rw [shape']
  constructor
  · intro same f member
    apply (steady_iff published noMerge enough member).1
    obtain ⟨i, place⟩ := List.mem_iff_getElem?.1 member
    exact same i f _ place (by
      rw [List.getElem?_map]
      show Option.map _ (readTree o.tree)[i]? = _
      rw [place]
      rfl)
  · intro steady i f g place place'
    rw [List.getElem?_map] at place'
    change Option.map _ (readTree o.tree)[i]? = some g at place'
    rw [place, Option.map_some, Option.some.injEq] at place'
    have member := List.mem_of_getElem? place
    rw [← place']
    exact (steady_iff published noMerge enough member).2 (steady f member)

/-- With fewer, the hits of the second run are made up. -/
theorem regenerate_madeUp_iff (published : generate root o = some r) (noMerge : o.mergeDirs = [])
    (enough : 3 ≤ mappedCount (parseLcov o.lcov) (readTree o.tree)) {r' : Published}
    (published' : generate root (regenerated o r) = some r')
    (few : foundCount root (readTree o.tree) < 3) : SameHits r r' ↔ MadeUpAlike o := by
  have few' : ¬ 3 ≤ mappedCount (parseLcov (some r.report.info)) (readTree o.tree) := by
    rw [mappedCount_second published noMerge enough]
    omega
  have shape' : r'.files = applyLineHits
      (assignRecords (parseLcov (some r.report.info)) (readTree o.tree))
      (targetPctFor o.profile (clampNodes o.nodes)) o.profile := by
    obtain ⟨⟨files, profile⟩, run, equal⟩ := Option.map_eq_some_iff.1 published'
    have filled : (readTree o.tree).isEmpty = false := by
      cases tree : readTree o.tree with
      | nil =>
          rw [tree] at enough
          cases enough
      | cons f rest => rfl
    simp only [publishedFiles, regenerated, filled, noMerge, List.isEmpty_nil, Bool.false_eq_true,
      if_false, if_true, Option.some.injEq, Prod.mk.injEq] at run
    rw [← equal, ← run.1]
    simp only [traceOrSynthetic]
    rw [if_neg few']
  have sources := sources_assignRecords (parseLcov (some r.report.info)) (readTree o.tree)
  rw [sameHits_iff (generate_trace published noMerge enough).1]
  by_cases some : 0 < scoreTotal (readTree o.tree)
  · have alike : r'.files = madeUp o := by
      rw [shape', madeUp]
      apply applyLineHits_congr _ _ sources
      rw [scoreTotal_congr sources]
      exact some
    rw [alike]
    simp only [MadeUpAlike]
    constructor
    · intro same i f g place place' ln line
      rw [← hitsAt_smoothFrom_eq line]
      exact same i f g place place' ln line
    · intro same i f g place place' ln line
      rw [hitsAt_smoothFrom_eq line]
      exact same i f g place place' ln line
  · have noLines : ∀ f ∈ readTree o.tree, f.source.lines = [] := by
      intro f member
      have zero := List.sum_eq_zero_iff_forall_eq_nat.1 (Nat.eq_zero_of_not_pos some) _
        (List.mem_map_of_mem member)
      exact List.length_eq_zero_iff.1 zero
    have vacuous : ∀ (i : Nat) (f : CoverageFile), (readTree o.tree)[i]? = Option.some f →
        ∀ ln, ln ∉ f.source.lines := by
      intro i f place ln line
      rw [noLines f (List.mem_of_getElem? place)] at line
      cases line
    constructor
    · intro _ i f g place _ ln line
      exact absurd line (vacuous i f place ln)
    · intro _ i f g place _ ln line
      exact absurd line (vacuous i f place ln)

end SecondRun

/-- The second run publishes the hits of the first exactly when the records written for
the files settle as those it read, or no line is left to settle. -/
theorem regenerate_iff (root : LcovFsRoot) (o : Options) (r : Published)
    (published : generate root o = some r) (noMerge : o.mergeDirs = [])
    (enough : 3 ≤ mappedCount (parseLcov o.lcov) (readTree o.tree)) :
    (∃ r', generate root (regenerated o r) = some r' ∧ SameHits r r') ↔
      RegeneratesAlike root o := by
  have runs : ∃ r', generate root (regenerated o r) = some r' := by
    obtain ⟨result, run, -⟩ := Option.map_eq_some_iff.1 published
    have nonempty := (publishedFiles_spec run).1
    simp only [generate, publishedFiles, regenerated, List.isEmpty_iff, nonempty, noMerge, if_false,
      if_true, Option.map_some]
    exact ⟨_, rfl⟩
  obtain ⟨r', published'⟩ := runs
  have same : (∃ r', generate root (regenerated o r) = some r' ∧ SameHits r r') ↔
      SameHits r r' := by
    rw [published']
    simp
  rw [same, RegeneratesAlike]
  by_cases many : 3 ≤ foundCount root (readTree o.tree)
  · have lines : ¬ ∀ f ∈ readTree o.tree, f.source.lines = [] := by
      intro none
      rw [foundCount_eq_zero root none] at many
      cases many
    rw [regenerate_found_iff published noMerge enough published' many]
    simp only [lines, many, Nat.not_lt.2 many, false_or, true_and, false_and, or_false]
  · have few := Nat.lt_of_not_ge many
    rw [regenerate_madeUp_iff published noMerge enough published' few]
    simp only [many, few, false_and, false_or, true_and]
    constructor
    · exact Or.inr
    · rintro (none | alike)
      · intro i f g place _ ln line
        rw [none f (List.mem_of_getElem? place)] at line
        cases line
      · exact alike

end Regeneration

section SampleRegeneration

attribute [local instance] sampleRuntime

theorem regenerate_iff_sample :
    ∃ r, generate sampleRoot (traceRun sampleTree sampleTrace) = some r ∧
      ((∃ r', generate sampleRoot (regenerated (traceRun sampleTree sampleTrace) r) = some r' ∧
          SameHits r r') ↔
        RegeneratesAlike sampleRoot (traceRun sampleTree sampleTrace)) := by
  have runs : (generate sampleRoot (traceRun sampleTree sampleTrace)).isSome = true := by
    decide +kernel
  rcases Option.isSome_iff_exists.1 runs with ⟨r, published⟩
  exact ⟨r, published, regenerate_iff sampleRoot (traceRun sampleTree sampleTrace) r published rfl
    (by decide +kernel)⟩

/-- The second run covers a line of the sample tree the first one left uncovered. -/
theorem regenerate_grows :
    3 ≤ mappedCount (parseLcov (some (.write sampleTrace))) (readTree sampleTree) ∧
    ∃ r, generate sampleRoot (traceRun sampleTree sampleTrace) = some r ∧
    ∃ r', generate sampleRoot (regenerated (traceRun sampleTree sampleTrace) r) = some r' ∧
      ∃ (i : Nat) (f g : CoverageFile), r.files[i]? = some f ∧ r'.files[i]? = some g ∧
        ∃ ln ∈ f.source.lines, hitsAt f.hits ln = 0 ∧ 0 < hitsAt g.hits ln := by
  have grows : (generate sampleRoot (traceRun sampleTree sampleTrace)).any (fun r =>
      (generate sampleRoot (regenerated (traceRun sampleTree sampleTrace) r)).any fun r' =>
        (r.files[0]?).any fun f => (r'.files[0]?).any fun g => f.source.lines.any fun ln =>
          decide (hitsAt f.hits ln = 0) && decide (0 < hitsAt g.hits ln)) = true := by
    decide +kernel
  rcases (Option.any_eq_true _ _).1 grows with ⟨r, published, again⟩
  rcases (Option.any_eq_true _ _).1 again with ⟨r', published', first⟩
  rcases (Option.any_eq_true _ _).1 first with ⟨f, place, second⟩
  rcases (Option.any_eq_true _ _).1 second with ⟨g, place', lines⟩
  rcases List.any_eq_true.1 lines with ⟨ln, line, both⟩
  rw [Bool.and_eq_true, decide_eq_true_eq, decide_eq_true_eq] at both
  exact ⟨by decide +kernel, r, published, r', published', 0, f, g, place, place', ln, line, both⟩

end SampleRegeneration

end Ocfs2Coverage.Report
