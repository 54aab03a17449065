import Mathlib.Algebra.Order.BigOperators.Group.List
import Ocfs2Coverage.Hits.Closure
import Ocfs2Coverage.Python.Runtime
import Ocfs2Coverage.Source.Kinds

/-!
Contract: file records with their hits.

Owns: the record made of a parsed file, the record with hits a report is made of,
hits stored for the executable lines, and `score_files`.

Does not own: where hits come from, what is written.
-/

namespace Ocfs2Coverage.Hits

open Ocfs2Coverage.Python
open Ocfs2Coverage.Source

/-! ## Parsed files -/

section Parsed

variable [UnicodeData]

/-- `kinds[ln] = classify_line(raw[ln - 1], rel)` for every executable line. -/
def kindTable (parsed : ParsedFile) (rel : Str) : Dict Nat LineKind :=
  .ofItems (parsed.execIdx.map fun ln => (ln, classifyLine (lineAt parsed.raw ln) rel))

theorem keys_kindTable (text rel : Str) :
    (kindTable (parseCFile text) rel).keys = (parseCFile text).execIdx := by
  have keys : ∀ lines : List Nat, (lines.map fun ln =>
      (ln, classifyLine (lineAt (parseCFile text).raw ln) rel)).map Prod.fst = lines := by
    intro lines
    rw [List.map_map]
    exact List.map_id lines
  simp only [kindTable, Dict.keys]
  rw [Dict.items_ofItems]
  · exact keys _
  · rw [keys]
    exact (parseCFile_increasing text).imp Nat.ne_of_lt

/-- The record `generate` makes of a file. -/
def parsedFile (rel text : Str) : SourceFile :=
  let parsed := parseCFile text
  { rel
    raw := parsed.raw
    execKinds := kindTable parsed rel
    blocks := execLineBlocks parsed.raw parsed.execIdx
    increasing := by
      rw [keys_kindTable]
      exact parseCFile_increasing text
    inRange := by
      rw [keys_kindTable]
      exact parseCFile_inRange text
    blocks_eq := by rw [keys_kindTable] }

end Parsed

/-- A parsed source file with the hits of its lines. -/
structure CoverageFile [UnicodeData] where
  source : SourceFile
  hits : LineHits

section Passes

variable [UnicodeData]

/-- `cohere_block_hits` on the record. -/
def blockPass (f : CoverageFile) : CoverageFile :=
  { f with hits := cohereBlockHits f.source f.hits }

/-- `cohere_forward_hits` on the record. -/
def forwardPass (f : CoverageFile) : CoverageFile :=
  { f with hits := cohereForwardHits f.source f.hits }

/-- Give every line of a block of the file at `index` the count `h`. -/
def setBlock (files : List CoverageFile) (index : Nat) (lns : List Nat) (h : Int) :
    List CoverageFile :=
  files.modify index fun f => { f with hits := setLines f.hits lns h }

end Passes

/-! ## Hits of the executable lines -/

/-- `{ln: value(ln) for ln in lines}`. -/
def hitsOf (lines : List Nat) (value : Nat → Int) : LineHits :=
  .ofItems (lines.map fun ln : Nat => ((ln : Int), value ln))

theorem items_hitsOf {lines : List Nat} {value : Nat → Int} (distinct : lines.Nodup) :
    (hitsOf lines value).items = lines.map fun ln : Nat => ((ln : Int), value ln) := by
  apply Dict.items_ofItems
  rw [List.map_map]
  exact distinct.map Nat.cast_injective

theorem mem_keys_hitsOf {lines : List Nat} {value : Nat → Int} {k : Int}
    (distinct : lines.Nodup) : k ∈ (hitsOf lines value).keys ↔ ∃ ln ∈ lines, (ln : Int) = k := by
  simp only [Dict.keys]
  rw [items_hitsOf distinct, List.map_map, List.mem_map]
  rfl

theorem hitsAt_hitsOf {lines : List Nat} {value : Nat → Int} {ln : Nat}
    (distinct : lines.Nodup) (member : ln ∈ lines) : hitsAt (hitsOf lines value) ln = value ln := by
  have stored : (hitsOf lines value).get? ln = some (value ln) := by
    rw [Dict.get?_eq_some_iff, items_hitsOf distinct]
    exact List.mem_map.2 ⟨ln, member, rfl⟩
  simp [hitsAt, Dict.get, stored]

theorem hitsAt_hitsOf_of_notMem {lines : List Nat} {value : Nat → Int} {ln : Nat}
    (distinct : lines.Nodup) (absent : ln ∉ lines) : hitsAt (hitsOf lines value) ln = 0 := by
  have missing : (hitsOf lines value).get? ln = none := by
    rw [Dict.get?_eq_none_iff, mem_keys_hitsOf distinct]
    intro ⟨line, member, equal⟩
    exact absent (Int.ofNat_inj.1 equal ▸ member)
  simp [hitsAt, Dict.get, missing]

variable [UnicodeData]

/-- The hits are defined on exactly the executable lines. -/
def Defined (f : SourceFile) (hits : LineHits) : Prop :=
  ∀ k : Int, k ∈ hits.keys ↔ ∃ ln ∈ f.lines, (ln : Int) = k

theorem defined_hitsOf (f : SourceFile) (value : Nat → Int) : Defined f (hitsOf f.lines value) :=
  fun _ => mem_keys_hitsOf f.nodup_lines

theorem Defined.mem_keys {f : SourceFile} {hits : LineHits} (defined : Defined f hits) {ln : Nat}
    (member : ln ∈ f.lines) : (ln : Int) ∈ hits.keys :=
  (defined ln).2 ⟨ln, member, rfl⟩

theorem Defined.cohereBlockHits {f : SourceFile} {hits : LineHits} (defined : Defined f hits) :
    Defined f (cohereBlockHits f hits) := by
  intro k
  rw [mem_keys_cohereBlockHits, defined k, or_self]

theorem Defined.cohereForwardHits {f : SourceFile} {hits : LineHits} (defined : Defined f hits) :
    Defined f (cohereForwardHits f hits) := by
  intro k
  rw [mem_keys_cohereForwardHits fun ln member => defined.mem_keys member, defined k]

theorem Defined.setLines {f : SourceFile} {hits : LineHits} (defined : Defined f hits)
    {lns : List Nat} (inside : ∀ ln ∈ lns, ln ∈ f.lines) (h : Int) :
    Defined f (setLines hits lns h) := by
  intro k
  rw [mem_keys_setLines, defined k, or_iff_right_iff_imp]
  exact fun ⟨ln, member, equal⟩ => ⟨ln, inside ln member, equal⟩

/-- Two hits defined on the executable lines are equal as maps when they agree there. -/
theorem Defined.get?_eq {f : SourceFile} {hits other : LineHits} (defined : Defined f hits)
    (defined' : Defined f other) (agree : ∀ ln ∈ f.lines, hitsAt hits ln = hitsAt other ln)
    (k : Int) : hits.get? k = other.get? k := by
  by_cases line : ∃ ln ∈ f.lines, (ln : Int) = k
  · obtain ⟨ln, member, rfl⟩ := line
    rw [get?_of_mem_keys (defined.mem_keys member), get?_of_mem_keys (defined'.mem_keys member),
      agree ln member]
  · rw [Dict.get?_eq_none_iff.2 fun member => line ((defined k).1 member),
      Dict.get?_eq_none_iff.2 fun member => line ((defined' k).1 member)]

/-! ## Coherent records -/

/-- The hits are defined on the executable lines and equal within each block. -/
structure Coherent (f : CoverageFile) : Prop where
  defined : Defined f.source f.hits
  uniform : Uniform f.source f.hits

theorem coherent_blockPass {f : CoverageFile} (defined : Defined f.source f.hits) :
    Coherent (blockPass f) :=
  ⟨defined.cohereBlockHits, uniform_cohereBlockHits f.source f.hits⟩

theorem Coherent.blockPass_eq {f : CoverageFile} (coherent : Coherent f) : blockPass f = f := by
  simp only [blockPass]
  rw [cohereBlockHits_eq_self coherent.uniform fun ln member => coherent.defined.mem_keys member]

theorem Coherent.setLines {f : CoverageFile} (coherent : Coherent f) (bid : Nat) {h : Int}
    (nonneg : 0 ≤ h) :
    Coherent { f with hits := Hits.setLines f.hits (f.source.blockLines bid) h } where
  defined := coherent.defined.setLines (fun _ member => (SourceFile.mem_blockLines.1 member).1) h
  uniform := by
    refine ⟨fun ln member => ?_, fun ln member other otherMember same => ?_⟩
    · rw [hitsAt_setLines]
      split
      · exact nonneg
      · exact coherent.uniform.nonneg ln member
    · have inside : ln ∈ f.source.blockLines bid ↔ other ∈ f.source.blockLines bid := by
        rw [SourceFile.mem_blockLines, SourceFile.mem_blockLines, same]
        simp [member, otherMember]
      rw [hitsAt_setLines, hitsAt_setLines, if_congr inside rfl rfl]
      split
      · rfl
      · exact coherent.uniform.sameBlock ln member other otherMember same

/-! ## `score_files` -/

/-- `f["hit"]`: the covered lines. -/
def fileHit (f : CoverageFile) : Nat :=
  f.source.lines.countP fun ln => decide (0 < hitsAt f.hits ln)

/-- `f["total"]`: the executable lines. -/
def fileTotal (f : CoverageFile) : Nat := f.source.lines.length

def scoreHit (files : List CoverageFile) : Nat := (files.map fileHit).sum

def scoreTotal (files : List CoverageFile) : Nat := (files.map fileTotal).sum

/-- `100.0 * hit / total`, or `0.0` without lines. -/
def percentage {F : Type} [FloatOps F] (hit total : Nat) : F :=
  if total = 0 then FloatOps.lit 0
  else FloatOps.div (FloatOps.mul (FloatOps.lit 100) (FloatOps.ofInt hit)) (FloatOps.ofInt total)

/-- `score_files`. -/
def scoreFiles {F : Type} [FloatOps F] (files : List CoverageFile) : Nat × Nat × F :=
  (scoreHit files, scoreTotal files, percentage (scoreHit files) (scoreTotal files))

theorem scoreTotal_congr {files others : List CoverageFile}
    (sources : files.map CoverageFile.source = others.map CoverageFile.source) :
    scoreTotal files = scoreTotal others := by
  have totals : ∀ xs : List CoverageFile,
      scoreTotal xs = ((xs.map CoverageFile.source).map fun f => f.lines.length).sum := by
    intro xs
    rw [List.map_map]
    rfl
  rw [totals, totals, sources]

end Ocfs2Coverage.Hits
