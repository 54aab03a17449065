import Ocfs2Coverage.Overwriting
import Ocfs2Coverage.Report.RoundTrip
import Ocfs2Coverage.Trace.Recovery

/-!
Contract: reloading a report from its trace alone or from its stored hits alone.

Owns: the counts `load_line_hits` gives either way, and the exact condition under
which they are the same.

Does not own: how a report is merged.
-/

namespace Ocfs2Coverage.Report

open Ocfs2Coverage.Python
open Ocfs2Coverage.Hits
open Ocfs2Coverage.Trace

/-- `LCOV_FS_ROOT` below the directory of the program. -/
def checkoutRoot (here : Str) (plain : ∀ c ∈ here, c ≠ '\\' ∧ isLineBreak c = false) :
    LcovFsRoot where
  text := here ++ "/fs/ocfs2".toList
  plain := by
    intro c member
    rcases List.mem_append.1 member with inHere | inRest
    · exact plain c inHere
    · have rest : ∀ d ∈ "/fs/ocfs2".toList, d ≠ '\\' ∧ isLineBreak d = false := by decide
      exact rest c inRest

section Reloading

variable [Runtime]

/-- A report of any source tree, written by the program in the directory `here`. -/
structure WrittenReport where
  here : Str
  absolute : here = [] ∨ here.head? = some '/'
  plain : ∀ c ∈ here, c ≠ '\\' ∧ isLineBreak c = false
  files : List CoverageFile
  distinct : (files.map fun f => f.source.rel).Nodup
  normalised : ∀ f ∈ files, Normalised f.source.rel
  defined : ∀ f ∈ files, Defined f.source f.hits
  listing : Listing
  reportRoot : Bool
  large : 64 ≤ (emitHtmlTree (checkoutRoot here plain) files listing).info.size

/-- A directory with none of the files that are read back. -/
def bareDir : ReportDir := ⟨none, none, none, none, none, none⟩

namespace WrittenReport

variable (r : WrittenReport)

def root : LcovFsRoot := checkoutRoot r.here r.plain

def emitted : Emitted := emitHtmlTree r.root r.files r.listing

/-- Only `kernel_ocfs2.info` is left. -/
def infoOnly : ReportDir := { bareDir with kernelInfo := some r.emitted.info }

/-- All but the trace is left. -/
def storedOnly : ReportDir := { r.emitted.store r.reportRoot bareDir with kernelInfo := none }

end WrittenReport

/-- The count `load_line_hits` has for a line; `none` is an exception. -/
def loadedCount (dir : ReportDir) (rel : Str) (line : Int) : Option Int :=
  (loadLineHits dir).map fun table => (table.get rel ∅).get line 0

/-- Both ways of reloading give every line of every path the same count. -/
def WrittenReport.ReloadsAlike (r : WrittenReport) : Prop :=
  ∀ rel line, loadedCount r.infoOnly rel line = loadedCount r.storedOnly rel line

/-- The files with a line in the trace. -/
def WrittenReport.counted (r : WrittenReport) : List CoverageFile :=
  r.files.filter fun f => !f.source.lines.isEmpty

/-- A file with a count: the trace is longer than 64 bytes, the directory and the path
hold no marker, and no later file is shortened to the path by one. -/
def WrittenReport.Survives (r : WrittenReport) : Prop :=
  ∀ pre f post, r.counted = pre ++ f :: post → (∃ ln ∈ f.source.lines, hitsAt f.hits ln ≠ 0) →
    64 < r.emitted.info.size ∧ PlainCheckout r.here ∧ ¬ Marked f.source.rel ∧
      ∀ g ∈ post, ∀ parts, splitOnce srcMarker ('/' :: g.source.rel) = some parts →
        parts.2 ≠ f.source.rel

/-! ## The tables as entries -/

/-- The counts of a file as a function. -/
def countsOf (hits : LineHits) : Int → Int := fun line => hits.get line 0

omit [Runtime] in
/-- A table of renamed entries. -/
theorem get_ofItems {α : Type} (rename : Str → Str) (name : α → Str) (table : α → LineHits)
    (xs : List α) (k : Str) :
    countsOf ((Dict.ofItems (xs.map fun x => (rename (name x), table x))).get k ∅) =
      Overwriting.valueAt rename (fun _ => 0) (xs.map fun x => (name x, countsOf (table x))) k := by
  induction xs using List.reverseRecOn with
  | nil => rfl
  | append_singleton front last inductionHypothesis =>
      have grown : Dict.ofItems ((front ++ [last]).map fun x => (rename (name x), table x)) =
          (Dict.ofItems (front.map fun x => (rename (name x), table x))).set (rename (name last))
            (table last) := by
        simp only [Dict.ofItems]
        rw [List.map_append, List.foldl_append]
        rfl
      rw [grown, Dict.get_set]
      simp only [Overwriting.valueAt] at inductionHypothesis ⊢
      rw [List.map_append, List.map_singleton, Overwriting.final_concat]
      by_cases here : k = rename (name last)
      · rw [if_pos here, Overwriting.renamed_eq_some.2 ⟨here.symm, rfl⟩]
        rfl
      · have none : Overwriting.renamed rename (name last, countsOf (table last)) k = none :=
          if_neg (Ne.symm here)
        rw [if_neg here, none, Option.none_or, inductionHypothesis]

namespace WrittenReport

variable {r : WrittenReport}

/-- The counts of all files, by their own paths. -/
def entries (r : WrittenReport) : List (Str × (Int → Int)) :=
  r.counted.map fun f => (f.source.rel, countsOf f.hits)

theorem distinct_entries : (r.entries.map Prod.fst).Nodup := by
  simp only [entries]
  rw [List.map_map]
  exact r.distinct.sublist (List.filter_sublist.map _)

theorem loadLineHits_storedOnly : loadLineHits r.storedOnly = some (snapshotHits r.files) := by
  by_cases none : r.files = []
  · -- Without files the stored tables are empty, and there is no trace.
    have blob : r.emitted.hitsBlob = hitsBlob r.files := rfl
    have read : readLineHits r.emitted.hitsBlob = some ∅ := by
      rw [blob, readLineHits_hitsBlob, none]
      rfl
    have first : firstLineHits [r.storedOnly.lineHits, r.storedOnly.kernelLineHits] = some ∅ := by
      show firstLineHits [if r.reportRoot then some r.emitted.hitsBlob else Option.none,
        some r.emitted.hitsBlob] = _
      cases r.reportRoot with
      | true =>
          simp only [if_true, firstLineHits]
          rw [read]
          rfl
      | false =>
          simp only [Bool.false_eq_true, if_false, firstLineHits]
          rw [read]
          rfl
    simp only [loadLineHits]
    rw [first, none]
    rfl
  · have holds : Holds r.storedOnly (hitsBlob r.files) := holds_store r.emitted (Or.inr rfl)
    exact loadLineHits_of_holds holds none r.distinct

/-- From the stored hits every file has its own counts. -/
theorem loadedCount_storedOnly (rel : Str) (line : Int) :
    loadedCount r.storedOnly rel line =
      some (Overwriting.valueAt id (fun _ => 0) r.entries rel line) := by
  have counts := get_ofItems id (fun f : CoverageFile => f.source.rel) (fun f => f.hits) r.files rel
  have distinct : ((r.files.map fun f => (f.source.rel, countsOf f.hits)).map Prod.fst).Nodup := by
    rw [List.map_map]
    exact r.distinct
  have same : Overwriting.valueAt id (fun _ => 0)
      (r.files.map fun f => (f.source.rel, countsOf f.hits)) rel =
        Overwriting.valueAt id (fun _ => 0) r.entries rel := by
    symm
    apply Overwriting.valueAt_id_sublist (List.filter_sublist.map _) distinct
    intro item member dropped
    rcases List.mem_map.1 member with ⟨f, listed, rfl⟩
    have empty : f.source.lines = [] := by
      by_contra lines
      apply dropped
      exact List.mem_map.2 ⟨f, List.mem_filter.2 ⟨listed, by simpa using lines⟩, rfl⟩
    funext line
    have absent : (line : Int) ∉ f.hits.keys := by
      rw [r.defined f listed line, empty]
      simp
    show (f.hits.get? line).getD 0 = 0
    rw [Dict.get?_eq_none_iff.2 absent]
    rfl
  simp only [loadedCount]
  rw [loadLineHits_storedOnly, Option.map_some, ← same, ← counts]
  rfl

/-- From a trace of more than 64 bytes every file has its counts under the recovered path. -/
theorem loadedCount_infoOnly (long : 64 < r.emitted.info.size) (rel : Str) (line : Int) :
    loadedCount r.infoOnly rel line =
      some (Overwriting.valueAt (recovered r.here) (fun _ => 0) r.entries rel line) := by
  have items : (parseLcov (some r.emitted.info)).items = recordItems r.root r.files :=
    items_parseLcov_writeLcovInfo r.root r.files r.distinct r.normalised r.large
  have named : (parseLcov (some r.emitted.info)).items.map (fun item => (relFromSf item.1, item.2)) =
      r.counted.map fun f => (recovered r.here f.source.rel, tableOf f) := by
    rw [items]
    simp only [recordItems]
    rw [List.map_map]
    apply List.map_congr_left
    intro f member
    have path : r.root.join f.source.rel = sfPath r.here f.source.rel := by
      simp [LcovFsRoot.join, root, checkoutRoot, sfPath]
    have normalised := r.normalised f (List.mem_filter.1 member).1
    have plain : '\\' ∉ sfPath r.here f.source.rel := by
      rw [← path]
      exact fun slash => (mem_join_root normalised slash).1 rfl
    show (relFromSf (r.root.join f.source.rel), _) = _
    rw [path, relFromSf_sfPath plain]
  have counts := get_ofItems (recovered r.here) (fun f : CoverageFile => f.source.rel) tableOf
    r.counted rel
  have loaded : loadLineHits r.infoOnly = some (Dict.ofItems (r.counted.map fun f =>
      (recovered r.here f.source.rel, tableOf f))) := by
    show some (firstTrace [some r.emitted.info, none]) = _
    simp only [firstTrace]
    rw [if_neg (by omega), named]
    split
    · next empty =>
        have none : (Dict.ofItems (r.counted.map fun f =>
            (recovered r.here f.source.rel, tableOf f))).items = [] := List.isEmpty_iff.1 empty
        exact congrArg some (Dict.ext none.symm)
    · rfl
  have same : (r.counted.map fun f => (f.source.rel, countsOf (tableOf f))) = r.entries := by
    apply List.map_congr_left
    intro f member
    have defined := r.defined f (List.mem_filter.1 member).1
    have table := (defined_hitsOf f.source (hitsAt f.hits)).get?_eq defined fun ln listed =>
      hitsAt_hitsOf f.source.nodup_lines listed
    have counts : countsOf (tableOf f) = countsOf f.hits := by
      funext line
      show ((tableOf f).get? line).getD 0 = (f.hits.get? line).getD 0
      rw [← table line]
      rfl
    rw [counts]
  simp only [loadedCount]
  rw [loaded, Option.map_some, ← same, ← counts]
  rfl

/-- A trace of 64 bytes is not loaded. -/
theorem loadedCount_short (short : ¬ 64 < r.emitted.info.size) (rel : Str) (line : Int) :
    loadedCount r.infoOnly rel line = some 0 := by
  have none : loadLineHits r.infoOnly = some ∅ := by
    show some (firstTrace [some r.emitted.info, Option.none]) = _
    rw [firstTrace, if_pos (by omega)]
    rfl
  simp only [loadedCount]
  rw [none]
  rfl

/-- A file has a count when its counts are not all zero. -/
theorem counts_ne_iff {f : CoverageFile} (member : f ∈ r.files) :
    countsOf f.hits ≠ (fun _ => 0) ↔ ∃ ln ∈ f.source.lines, hitsAt f.hits ln ≠ 0 := by
  constructor
  · intro different
    by_contra none
    apply different
    funext line
    by_cases listed : line ∈ f.hits.keys
    · rcases (r.defined f member line).1 listed with ⟨ln, inside, rfl⟩
      by_contra count
      exact none ⟨ln, inside, count⟩
    · show (f.hits.get? line).getD 0 = 0
      rw [Dict.get?_eq_none_iff.2 listed]
      rfl
  · rintro ⟨ln, -, count⟩ equal
    exact count (congrFun equal (ln : Int))

/-- The entries of a trace of more than 64 bytes are kept exactly when the files
survive. -/
theorem kept_iff (long : 64 < r.emitted.info.size) :
    Overwriting.Kept (recovered r.here) (fun _ => 0) r.entries ↔ r.Survives := by
  have inFiles : ∀ {pre f post}, r.counted = pre ++ f :: post → f ∈ r.files := by
    intro pre f post shape
    have member : f ∈ r.counted := by
      rw [shape]
      simp
    exact (List.mem_filter.1 member).1
  constructor
  · intro kept pre f post shape counted
    have split : r.entries = pre.map (fun f => (f.source.rel, countsOf f.hits)) ++
        (f.source.rel, countsOf f.hits) :: post.map fun f => (f.source.rel, countsOf f.hits) := by
      simp only [entries]
      rw [shape, List.map_append, List.map_cons]
    have survives := kept _ _ _ split ((counts_ne_iff (inFiles shape)).2 counted)
    have right := recovered_eq_iff.1 survives.1
    refine ⟨long, right.1, right.2, fun g later parts found => ?_⟩
    have other := survives.2 _ (List.mem_map.2 ⟨g, later, rfl⟩)
    change recovered r.here g.source.rel ≠ f.source.rel at other
    rw [recovered_of_plain right.1, found] at other
    exact other
  · intro survives pre item post shape counts
    rcases List.map_eq_append_iff.1 shape with ⟨before, rest, split, rfl, tail⟩
    rcases List.map_eq_cons_iff.1 tail with ⟨f, after, rfl, rfl, rfl⟩
    have kept := survives before f after split ((counts_ne_iff (inFiles split)).1 counts)
    refine ⟨recovered_eq_iff.2 ⟨kept.2.1, kept.2.2.1⟩, fun later listed => ?_⟩
    rcases List.mem_map.1 listed with ⟨g, inside, rfl⟩
    show recovered r.here g.source.rel ≠ f.source.rel
    rw [recovered_of_plain kept.2.1]
    split
    · next parts found => exact kept.2.2.2 g inside parts found
    · intro same
      have distinct := @distinct_entries _ r
      rw [shape, List.map_append, List.map_cons, List.nodup_append, List.nodup_cons] at distinct
      exact distinct.2.1.1 (List.mem_map.2 ⟨_, listed, same⟩)

/-- The trace and the stored hits reload alike exactly when every file with a count
survives in the trace. -/
theorem reloadsAlike_iff (r : WrittenReport) : r.ReloadsAlike ↔ r.Survives := by
  by_cases long : 64 < r.emitted.info.size
  · rw [← kept_iff long]
    rcases exists_rank r.here with ⟨rank, descends⟩
    rw [← Overwriting.valueAt_renamed_iff distinct_entries descends]
    simp only [ReloadsAlike]
    constructor
    · intro alike rel
      funext line
      have counts := alike rel line
      rw [loadedCount_infoOnly long, loadedCount_storedOnly] at counts
      exact Option.some.inj counts
    · intro same rel line
      rw [loadedCount_infoOnly long, loadedCount_storedOnly, same]
  · -- No count may be left.
    constructor
    · intro alike pre f post shape counted
      have member : f ∈ r.counted := by
        rw [shape]
        simp
      have inside := (List.mem_filter.1 member).1
      have own := @Overwriting.valueAt_id _ _ _ (fun _ => 0) _ (@distinct_entries _ r) _
        (List.mem_map.2 ⟨f, member, rfl⟩)
      refine absurd ?_ ((counts_ne_iff inside).2 counted)
      funext line
      have counts := alike f.source.rel line
      rw [loadedCount_short long, loadedCount_storedOnly] at counts
      exact (congrFun own line).symm.trans (Option.some.inj counts).symm
    · intro survives rel line
      rw [loadedCount_short long, loadedCount_storedOnly]
      rcases @Overwriting.valueAt_cases _ _ _ id (fun _ => 0) r.entries rel with zero |
        ⟨pre, item, post, shape, -, value, -⟩
      · rw [zero]
      · rcases List.map_eq_append_iff.1 shape with ⟨before, rest, split, rfl, tail⟩
        rcases List.map_eq_cons_iff.1 tail with ⟨f, after, rfl, rfl, rfl⟩
        have inside : f ∈ r.files := by
          have member : f ∈ r.counted := by
            rw [split]
            simp
          exact (List.mem_filter.1 member).1
        rw [value]
        by_contra count
        have counted := (counts_ne_iff inside).1 fun zero => count (congrArg some (congrFun zero line).symm)
        exact long (survives before f after split counted).1

end WrittenReport

end Reloading

section Sample

attribute [local instance] Profiles.sampleRuntime

/-- The numbered files, written by a program that lies in another checkout of its kind. -/
def nestedReport : WrittenReport where
  here := "/srv/ocfs2_src/kit".toList
  absolute := Or.inr rfl
  plain := by decide
  files := numberedFiles
  distinct := by
    show (((readTree sampleTree).map _).map _).Nodup
    rw [List.map_map]
    exact distinct_readTree sampleTree
  normalised := by
    intro f member
    rcases List.mem_map.1 member with ⟨g, listed, rfl⟩
    exact normalised_readTree sampleTree g listed
  defined := by
    intro f member
    rcases List.mem_map.1 member with ⟨g, _, rfl⟩
    exact defined_hitsOf g.source _
  listing := .files
  reportRoot := true
  large := large_writeLcovInfo _ (by decide +kernel)

/-- The stored hits of the report have counts that its trace gives under other paths. -/
theorem nestedReport_differs :
    loadedCount nestedReport.infoOnly "a.c".toList 4 = some 0 ∧
      loadedCount nestedReport.storedOnly "a.c".toList 4 = some 4 ∧
      ¬ nestedReport.ReloadsAlike := by
  have info : loadedCount nestedReport.infoOnly "a.c".toList 4 = some 0 := by decide +kernel
  have stored : loadedCount nestedReport.storedOnly "a.c".toList 4 = some 4 := by decide +kernel
  refine ⟨info, stored, fun alike => ?_⟩
  have same := alike "a.c".toList 4
  rw [info, stored] at same
  exact absurd same (by decide)

end Sample

end Ocfs2Coverage.Report
