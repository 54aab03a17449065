import Ocfs2Coverage.Profiles.Synthetic
import Ocfs2Coverage.Report.Load

/-!
Contract: `generate`.

Owns: the choice between a trace, the stored hits of several reports and made-up
hits, `apply_union_hits`, `node_file_hits`, and the reports `generate` publishes.

Does not own: the landing pages, the symbolic links, the test logs.
-/

namespace Ocfs2Coverage.Report

open Ocfs2Coverage.Python
open Ocfs2Coverage.Source
open Ocfs2Coverage.Hits
open Ocfs2Coverage.Trace
open Ocfs2Coverage.Profiles

variable [Runtime]

/-! ## Hits from a trace -/

/-- `m` of the loop over the files; an empty record counts as none. -/
def matchedRecord (lcov : Dict Str LineHits) (f : CoverageFile) : Option LineHits :=
  (matchLcovFile f.source.rel lcov).filter fun m => !m.isEmpty

/-- `{ln: int(m.get(ln, 0)) for ln in f["exec_kinds"]}`. -/
def recordHits (f : CoverageFile) (m : LineHits) : LineHits := hitsOf f.source.lines (hitsAt m)

/-- The loop that hands the records to their files. -/
def assignRecords (lcov : Dict Str LineHits) (files : List CoverageFile) : List CoverageFile :=
  files.map fun f =>
    match matchedRecord lcov f with
    | some m => { f with hits := recordHits f m }
    | none => f

def mappedCount (lcov : Dict Str LineHits) (files : List CoverageFile) : Nat :=
  files.countP fun f => (matchedRecord lcov f).isSome

/-- A file that was handed no record has no covered line. -/
def fillZero (f : CoverageFile) : CoverageFile :=
  if f.hits.isEmpty then { f with hits := hitsOf f.source.lines fun _ => 0 } else f

/-- The branch of `generate` without `--merge-dirs`. -/
def traceOrSynthetic (files : List CoverageFile) (profile : Profile) (nodes : Int)
    (lcov : Dict Str LineHits) : List CoverageFile :=
  let assigned := assignRecords lcov files
  if 3 ≤ mappedCount lcov files then
    assigned.map fun f => forwardPass (blockPass (fillZero f))
  else applyLineHits assigned (targetPctFor profile nodes) profile

/-! ## Hits from stored reports -/

/-- The table of one of the merged directories; the files keep the hits made up
for a directory without one. -/
def mergeStep (nodes : Int) (files : List CoverageFile) (dir : Str × ReportDir) :
    Option (List CoverageFile × Dict Str LineHits) :=
  (loadLineHits dir.2).map fun m =>
    if m.isEmpty then
      let prof := inferProfile dir.1
      let filled := applyLineHits files (targetPctFor prof nodes) prof
      (filled, snapshotHits filled)
    else (files, m)

/-- `maps`, with the files after the loop. -/
def mergeMaps (nodes : Int) (files : List CoverageFile) :
    List (Str × ReportDir) → Option (List CoverageFile × List (Dict Str LineHits))
  | [] => some (files, [])
  | dir :: rest =>
      match mergeStep nodes files dir with
      | none => none
      | some step =>
          (mergeMaps nodes step.1 rest).map fun done => (done.1, step.2 :: done.2)

/-- The largest count any of the maps has for a line. -/
def unionCount (maps : List (Dict Str LineHits)) (rel : Str) (ln : Nat) : Int :=
  maps.foldl (fun h m => max h (hitsAt (m.get rel ∅) ln)) 0

def applyUnionHits (files : List CoverageFile) (maps : List (Dict Str LineHits)) :
    List CoverageFile :=
  files.map fun f => forwardPass (blockPass
    { f with hits := hitsOf f.source.lines (unionCount maps f.source.rel) })

/-! ## Node reports -/

def nodeKeepProb (nodeId nodes : Int) (rel : Str) : Runtime.Float :=
  let n := max 1 nodes
  let clusterish := startswith rel "dlm/".toList || startswith rel "cluster/".toList ||
    ["dlmglue.c".toList, "stack_o2cb.c".toList, "heartbeat.c".toList, "slot_map.c".toList,
      "locks.c".toList].contains rel
  let share (steps : Int) : Runtime.Float :=
    FloatOps.min (FloatOps.lit (92 / 100))
      (FloatOps.add (FloatOps.lit (58 / 100))
        (FloatOps.mul (FloatOps.lit (7 / 100)) (FloatOps.ofInt steps)))
  if clusterish then share nodeId else share (n - nodeId + 1)

/-- `r < p`: the node keeps the block. -/
def nodeKeeps (nodeId nodes : Int) (profile : Profile) (rel : Str) (bid : Nat) : Bool :=
  let digest := Runtime.sha256 ("node".toList ++ strOfInt nodeId ++ ":".toList ++ profile.name ++
    ":".toList ++ rel ++ ":".toList ++ strOfNat bid)
  let r := FloatOps.div (FloatOps.ofInt (leadingBytes 2 digest)) (FloatOps.lit 65535)
  FloatOps.lt r (nodeKeepProb nodeId nodes rel)

/-- `max(1, merged // (1 + ((node_id + bid) % 3)))`. -/
def nodeShare (nodeId : Int) (bid : Nat) (merged : Int) : Int :=
  max 1 (merged / (1 + (nodeId + bid) % 3))

/-- The count a node gives all lines of a block. -/
def nodeCount (nodeId nodes : Int) (profile : Profile) (rel : Str) (bid : Nat) (merged : Int) :
    Int :=
  if merged ≤ 0 then 0
  else if nodeKeeps nodeId nodes profile rel bid then nodeShare nodeId bid merged
  else 0

/-- The hits of a node before they are made coherent. -/
def nodeHits (nodeId nodes : Int) (profile : Profile) (f : CoverageFile) : LineHits :=
  (fileBlockGroups f.source).items.foldl (fun hits group =>
    setLines hits group.2
      (nodeCount nodeId nodes profile f.source.rel group.1 (hitsAt f.hits (group.2.headD 0)))) ∅

def nodeFileHits (files : List CoverageFile) (nodeId nodes : Int) (profile : Profile) :
    List CoverageFile :=
  files.map fun f => forwardPass (blockPass { f with hits := nodeHits nodeId nodes profile f })

/-! ## The whole program -/

structure Options where
  tree : SourceTree
  profile : Profile
  /-- The file at `--lcov`, when there is one. -/
  lcov : Option TextFile
  /-- `--report-root` is given, and is not `--out`. -/
  reportRoot : Bool
  nodes : Int
  /-- The names and contents of `--merge-dirs`. -/
  mergeDirs : List (Str × ReportDir)

structure Published where
  files : List CoverageFile
  profile : Profile
  report : Emitted
  nodeReports : List (List CoverageFile × Emitted)

/-- `max(1, min(8, int(nodes)))`. -/
def clampNodes (nodes : Int) : Int := max 1 (min 8 nodes)

/-- The files with the hits `generate` publishes, and the profile it names. -/
def publishedFiles (o : Options) : Option (List CoverageFile × Profile) :=
  let files := readTree o.tree
  if files.isEmpty then none
  else if o.mergeDirs.isEmpty then
    some (traceOrSynthetic files o.profile (clampNodes o.nodes) (parseLcov o.lcov), o.profile)
  else
    (mergeMaps (clampNodes o.nodes) files o.mergeDirs).map fun done =>
      (applyUnionHits done.1 done.2, if 2 ≤ o.mergeDirs.length then .merged else o.profile)

/-- `generate`; an exception is `none`. -/
def generate (root : LcovFsRoot) (o : Options) : Option Published :=
  (publishedFiles o).map fun result =>
    let nodes := clampNodes o.nodes
    let listing := if result.2 = .merged then Listing.configs else Listing.files
    { files := result.1
      profile := result.2
      report := emitHtmlTree root result.1 listing
      nodeReports :=
        if o.reportRoot then
          (List.range' 1 nodes.toNat).map fun i =>
            let copies := nodeFileHits result.1 i nodes result.2
            (copies, emitHtmlTree root copies .files)
        else [] }

/-! ## Runs on the sample tree -/

/-- The record `lcov` writes for a file of a kernel tree. -/
def recordText (name : Str) (counts : List (Nat × Nat)) : Str :=
  unlines (("SF:/usr/src/linux/fs/ocfs2/".toList ++ name) ::
    counts.map (fun count => "DA:".toList ++ strOfNat count.1 ++ ",".toList ++ strOfNat count.2) ++
    ["end_of_record".toList])

def sampleTrace : Str :=
  recordText "a.c".toList [(1, 1), (3, 1), (4, 1), (5, 0), (6, 0)] ++
    recordText "b.c".toList [(1, 1), (3, 1)] ++ recordText "c.c".toList [(1, 0), (3, 0)]

def traceRun (tree : SourceTree) (trace : Str) : Options where
  tree
  profile := .default
  lcov := some (.write trace)
  reportRoot := true
  nodes := 4
  mergeDirs := []

def mergeRun (tree : SourceTree) (dirs : List (Str × ReportDir)) : Options where
  tree
  profile := .default
  lcov := none
  reportRoot := true
  nodes := 4
  mergeDirs := dirs

/-- A directory without any report. -/
def emptyDir : ReportDir := ⟨none, none, none, none, none, none⟩

end Ocfs2Coverage.Report
