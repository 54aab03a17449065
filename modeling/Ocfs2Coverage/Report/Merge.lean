import Ocfs2Coverage.Report.Published

/-!
Contract: what a merge of hit maps covers.

Owns: `apply_union_hits` as the union, over the maps, of what each of them covers
when it is merged alone.

Does not own: where the maps come from, which reports are published.
-/

namespace Ocfs2Coverage.Report

open Ocfs2Coverage.Python
open Ocfs2Coverage.Source
open Ocfs2Coverage.Hits
open Ocfs2Coverage.Propagation

section Merge

variable [Runtime]

/-- The covered lines of a list of files, each by the place of its file in the list
and its number. -/
def coveredLines (files : List CoverageFile) : Set (Nat × Int) :=
  {place | ∃ f, files[place.1]? = some f ∧ 0 < f.hits.get place.2 0}

/-- What one map marks in a file. -/
def markedBy (f : SourceFile) (m : Dict Str LineHits) : Set f.ExecLine :=
  coveredSet f (m.get f.rel ∅)

/-- What is covered once the marks went through the block pass and the forward pass. -/
def spread (f : SourceFile) (marked : Set f.ExecLine) : Set f.ExecLine :=
  Propagation.forwardStep f.next (blockClosure f.blockAt marked)

/-! ## One file -/

/-- The counts of a merge are positive where one of its maps is. -/
theorem coveredSet_merge (f : CoverageFile) (maps : List (Dict Str LineHits)) :
    coveredSet f.source (smoothFrom (unionCount maps f.source.rel) f).hits =
      ⋃ m : {m // m ∈ maps}, spread f.source (markedBy f.source m.1) := by
  have marked : {x : f.source.ExecLine | 0 < unionCount maps f.source.rel x.1} =
      ⋃ m : {m // m ∈ maps}, markedBy f.source m.1 := by
    ext x
    rw [Set.mem_ofPred_eq, unionCount_pos_iff, Set.mem_iUnion, Subtype.exists]
    simp only [exists_prop]
    rfl
  simp only [spread]
  rw [coveredSet_smoothFrom, marked, blockClosure_iUnion, forwardStep_iUnion]

/-- Only executable lines are ever covered. -/
theorem exists_execLine {f : CoverageFile} {count : Nat → Int} {k : Int}
    (positive : 0 < (smoothFrom count f).hits.get k 0) :
    ∃ x : f.source.ExecLine, (x.1 : Int) = k := by
  by_contra none
  have absent : k ∉ (smoothFrom count f).hits.keys := by
    rw [defined_smoothFrom k]
    intro ⟨ln, member, equal⟩
    exact none ⟨⟨ln, member⟩, equal⟩
  simp only [Dict.get] at positive
  rw [Dict.get?_eq_none_iff.2 absent] at positive
  exact absurd positive (by decide)

/-! ## A list of files -/

/-- A merge covers what the marks of one of its maps spread to. -/
theorem mem_coveredLines {files : List CoverageFile} {maps : List (Dict Str LineHits)}
    {place : Nat × Int} :
    place ∈ coveredLines (applyUnionHits files maps) ↔
      ∃ m ∈ maps, ∃ f, files[place.1]? = some f ∧
        ∃ x ∈ spread f.source (markedBy f.source m), (x.1 : Int) = place.2 := by
  have onLine : ∀ (f : CoverageFile) (x : f.source.ExecLine),
      0 < (smoothFrom (unionCount maps f.source.rel) f).hits.get (x.1 : Int) 0 ↔
        ∃ m ∈ maps, x ∈ spread f.source (markedBy f.source m) := by
    intro f x
    have covered := Set.ext_iff.1 (coveredSet_merge f maps) x
    rw [Set.mem_iUnion, Subtype.exists] at covered
    simp only [exists_prop] at covered
    exact covered
  have place_iff : place ∈ coveredLines (applyUnionHits files maps) ↔
      ∃ f, files[place.1]? = some f ∧
        0 < (smoothFrom (unionCount maps f.source.rel) f).hits.get place.2 0 := by
    show (∃ f, (applyUnionHits files maps)[place.1]? = some f ∧ _) ↔ _
    rw [applyUnionHits_eq, List.getElem?_map]
    simp only [Option.map_eq_some_iff]
    constructor
    · rintro ⟨_, ⟨f, found, rfl⟩, positive⟩
      exact ⟨f, found, positive⟩
    · rintro ⟨f, found, positive⟩
      exact ⟨_, ⟨f, found, rfl⟩, positive⟩
  rw [place_iff]
  constructor
  · rintro ⟨f, found, positive⟩
    obtain ⟨x, number⟩ := exists_execLine positive
    rw [← number] at positive
    obtain ⟨m, listed, inside⟩ := (onLine f x).1 positive
    exact ⟨m, listed, f, found, x, inside, number⟩
  · rintro ⟨m, listed, f, found, x, inside, number⟩
    refine ⟨f, found, ?_⟩
    rw [← number]
    exact (onLine f x).2 ⟨m, listed, inside⟩

theorem coveredLines_mono (files : List CoverageFile) {maps more : List (Dict Str LineHits)}
    (included : ∀ m ∈ maps, m ∈ more) :
    coveredLines (applyUnionHits files maps) ⊆ coveredLines (applyUnionHits files more) := by
  intro place covered
  obtain ⟨m, listed, inside⟩ := mem_coveredLines.1 covered
  exact mem_coveredLines.2 ⟨m, included m listed, inside⟩

/-- Merging is a union: of the maps of two calls, of the maps one after another in any
order and number, and never less than what a map records. -/
theorem coveredLines_applyUnionHits (files : List CoverageFile)
    (maps more : List (Dict Str LineHits)) :
    coveredLines (applyUnionHits files (maps ++ more)) =
        coveredLines (applyUnionHits files maps) ∪ coveredLines (applyUnionHits files more) ∧
      (∀ index f, files[index]? = some f → ∀ m ∈ maps, ∀ ln ∈ f.source.lines,
        0 < hitsAt (m.get f.source.rel ∅) ln →
          (index, (ln : Int)) ∈ coveredLines (applyUnionHits files maps)) ∧
      (∀ groups : List (List (Dict Str LineHits)),
        coveredLines (applyUnionHits files groups.flatten) =
          ⋃ group ∈ groups, coveredLines (applyUnionHits files group)) ∧
      ((∀ m, m ∈ maps ↔ m ∈ more) →
        coveredLines (applyUnionHits files maps) = coveredLines (applyUnionHits files more)) ∧
      ((∀ m ∈ maps, m ∈ more) →
        coveredLines (applyUnionHits files maps) ⊆ coveredLines (applyUnionHits files more)) := by
  refine ⟨?_, ?_, ?_, ?_, coveredLines_mono files⟩
  · ext place
    rw [Set.mem_union, mem_coveredLines, mem_coveredLines, mem_coveredLines]
    simp only [List.mem_append, or_and_right, exists_or]
  · intro index f found m listed ln member positive
    have marked : (⟨ln, member⟩ : f.source.ExecLine) ∈ markedBy f.source m := positive
    refine mem_coveredLines.2 ⟨m, listed, f, found, ⟨ln, member⟩, ?_, rfl⟩
    exact subset_forwardStep f.source.next _ (subset_blockClosure f.source.blockAt _ marked)
  · intro groups
    ext place
    simp only [mem_coveredLines, List.mem_flatten, Set.mem_iUnion]
    constructor
    · intro ⟨m, ⟨group, listed, member⟩, inside⟩
      exact ⟨group, listed, m, member, inside⟩
    · intro ⟨group, listed, m, member, inside⟩
      exact ⟨m, ⟨group, listed, member⟩, inside⟩
  · intro same
    apply Set.Subset.antisymm
    · exact coveredLines_mono files fun m => (same m).1
    · exact coveredLines_mono files fun m => (same m).2

end Merge

end Ocfs2Coverage.Report
