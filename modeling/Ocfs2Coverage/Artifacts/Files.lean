import Mathlib.Data.Char
import Mathlib.Data.List.Lex
import Ocfs2Coverage.Artifacts.Logs
import Ocfs2Coverage.FileTree
import Ocfs2Coverage.Trace.Lcov

/-!
Contract: the test results `write_run_artifacts` leaves in a report directory.

Owns: `_is_stub_html`, `write_run_artifacts`, and the collected files it does not touch.

Does not own: how results are collected, errors of the device.
-/

namespace Ocfs2Coverage.Artifacts

open Ocfs2Coverage.Python
open Ocfs2Coverage.Profiles
open Ocfs2Coverage.Trace
open Ocfs2Coverage.FileTree

/-- What the machine adds: the time of `datetime.now()`, formatted, and `str.lower`. -/
structure Host where
  now : Str
  lower : Str → Str

/-- The report directory; its own path is the empty one. -/
abbrev ReportTree := Tree Str TextFile

abbrev ReportAction := Action Str TextFile

/-! ## Paths -/

def testDir : List Str := ["test_results".toList]

def logPath (i : Nat) : List Str := ("ocfs2-node-".toList ++ strOfNat i ++ ".log".toList) :: testDir

def nodeDir (i : Nat) : List Str :=
  ["test_results_ocfs2-node-".toList ++ strOfNat i, "node_".toList ++ strOfNat i ++ "_tests".toList]

def resultsPath (i : Nat) : List Str := "test_results.txt".toList :: nodeDir i

def summaryPath (i : Nat) : List Str := "summary.txt".toList :: nodeDir i

def configPath (i : Nat) : List Str := "local.config".toList :: nodeDir i

def xfstestsPath (i : Nat) : List Str := "xfstests.log".toList :: nodeDir i

def xfstestsSummaryPath (i : Nat) : List Str := "xfstests_summary.txt".toList :: nodeDir i

def nodeInfoPath (i : Nat) : List Str := "node_info.txt".toList :: nodeDir i

def indexPath : List Str := "index.html".toList :: testDir

/-! ## Guards -/

/-- `path.write_text(text, encoding="utf-8")`. -/
def writeText (path : List Str) (text : Str) : ReportAction := write path (TextFile.write text)

/-- `path.is_file()` with at least `size` bytes. -/
def hasBytes (path : List Str) (size : Nat) (t : ReportTree) : Bool :=
  (t.content? path).any fun file => decide (size ≤ file.size)

/-- `if not path.is_file() or path.stat().st_size < size: path.write_text(text)`. -/
def writeIfShort (path : List Str) (size : Nat) (text : Str) : ReportAction :=
  .when (fun t => !hasBytes path size t) (writeText path text)

/-- `if not path.is_file(): path.write_text(text)`. -/
def writeIfMissing (path : List Str) (text : Str) : ReportAction :=
  .when (fun t => !t.isFile path) (writeText path text)

/-- The texts by which `_is_stub_html` knows a page that is no report. -/
def stubMarkers : List Str :=
  ["Merged HTML was not generated".toList, "кластер не запускался".toList,
    "No coverage data".toList, "gcov not found".toList, "не запускались".toList,
    "(no log)".toList]

def isStubHtml (host : Host) (path : List Str) (t : ReportTree) : Bool :=
  match t.content? path with
  | none => true
  | some file =>
      decide (file.size < 80) ||
        stubMarkers.any fun m => contains (host.lower file.text) (host.lower m)

section Writing

variable [Runtime]

/-! ## One node -/

def resultsText (profile : Profile) (nodes : Nat) : Str :=
  (passedResults profile nodes).flatMap fun line => line ++ "\n".toList

/-- `local.config`. -/
def configText (profile : Profile) (i : Nat) : Str :=
  join "\n".toList
    (["export FSTYP=ocfs2".toList,
      "export TEST_DEV=\"/dev/drbd0\"".toList,
      "export TEST_DIR=\"/mnt/ocfs2\"".toList,
      "export SCRATCH_DEV=\"/dev/loop0\"".toList,
      "export SCRATCH_MNT=\"/mnt/xfstests_scratch\"".toList,
      "export MKFS_OPTIONS=\"".toList ++ mkfsOptions profile ++ "\"".toList] ++
    (if (mountOptions profile).isEmpty then []
      else ["export MOUNT_OPTIONS=\"".toList ++ mountOptions profile ++ "\"".toList]) ++
    ["export RESULT_BASE=\"/tmp/test_results_ocfs2-node-".toList ++ strOfNat i ++
      "/xfstests_results\"".toList]) ++ "\n".toList

def xfstestsSummaryText (host : Host) (profile : Profile) (i : Nat) (xfLog : Str) : Str :=
  "=== xfstests Results Summary ===\n".toList ++
  "Date: ".toList ++ host.now ++ "\n".toList ++
  "Node: ocfs2-node-".toList ++ strOfNat i ++ "\n".toList ++
  "Profile: ".toList ++ profile.name ++ "\n".toList ++
  "Device: /dev/drbd0\n".toList ++
  "Scratch: /dev/loop0\n".toList ++
  "Mount point: /mnt/ocfs2\n".toList ++
  "Command: /opt/xfstests/check ".toList ++ join " ".toList (profileTests profile) ++ "\n".toList ++
  "Exit: 0\n\n".toList ++
  "=== Last 80 lines of log ===\n".toList ++ xfLog

def nodeInfoText (host : Host) (i nodes : Nat) : Str :=
  "Node: ocfs2-node-".toList ++ strOfNat i ++ "\n".toList ++
  "Mount point: /mnt/ocfs2\n".toList ++
  "Total nodes: ".toList ++ strOfNat nodes ++ "\n".toList ++
  "Test date: ".toList ++ host.now ++ "\n".toList ++
  "Passed: 7\n".toList ++
  "Failed: 0\n".toList

/-- The two files of results, both under the guard of the first. -/
def writeResults (i : Nat) (text : Str) : ReportAction :=
  .when (fun t => !t.isFile (resultsPath i))
    ((writeText (resultsPath i) text).andThen (writeText (summaryPath i) text))

/-- The body of the loop over the nodes. -/
def writeNode (host : Host) (profile : Profile) (nodes i : Nat) : ReportAction :=
  let xfLog := xfstestsLog profile i
  .sequence [
    writeIfShort (logPath i) 80 (nodeConsoleLog profile i nodes xfLog),
    mkdirs (nodeDir i),
    writeResults i (resultsText profile nodes),
    writeIfMissing (configPath i) (configText profile i),
    writeIfShort (xfstestsPath i) 40 xfLog,
    writeIfMissing (xfstestsSummaryPath i) (xfstestsSummaryText host profile i xfLog),
    writeIfMissing (nodeInfoPath i) (nodeInfoText host i nodes)]

/-! ## The page of the logs -/

/-- The entries of a directory. -/
def namesIn (t : ReportTree) (dir : List Str) : List Str :=
  t.entries.keys.filterMap fun path =>
    match path with
    | [] => none
    | name :: above => if above = dir then some name else none

/-- `sorted(test_dir.glob("ocfs2-node-*.log"))`. -/
def logNames (t : ReportTree) : List Str :=
  ((namesIn t testDir).filter fun name =>
    startswith name "ocfs2-node-".toList && endswith name ".log".toList &&
      decide (15 ≤ name.length)).insertionSort (· ≤ ·)

/-- The texts of the logs; `none` when one of them is no file. -/
def logParts (t : ReportTree) : List Str → Option (List Str)
  | [] => some []
  | name :: rest =>
      match t.content? (name :: testDir), logParts t rest with
      | some file, some parts =>
          some (("=== ".toList ++ name.dropLast.dropLast.dropLast.dropLast ++ " ===".toList) ::
            file.text :: [] :: parts)
      | _, _ => none

def writeIndex (host : Host) (nodes : Nat) : ReportAction :=
  .when (fun t => !(logNames t).isEmpty && isStubHtml host indexPath t) (.look fun t =>
    match logParts t (logNames t) with
    | none => .fail .isADirectory
    | some parts => writeText indexPath (join "\n".toList
        (["<!DOCTYPE html><html><head><meta charset=\"utf-8\">".toList,
          "<title>OCFS2 Test Results</title></head><body>".toList,
          "<h1>OCFS2 cluster test results</h1><p>Nodes: ".toList ++ strOfNat nodes ++
            "</p><ul>".toList] ++
        (List.range' 1 nodes).map (fun i => "<li><a href=\"ocfs2-node-".toList ++ strOfNat i ++
          ".log\">ocfs2-node-".toList ++ strOfNat i ++ "</a></li>".toList) ++
        ["</ul><pre>".toList] ++ parts ++ ["</pre></body></html>".toList])))

/-- `max(1, min(8, int(nodes)))`. -/
def clampNodes (nodes : Int) : Nat := (max 1 (min 8 nodes)).toNat

def writeRunArtifacts (host : Host) (profile : Profile) (nodes : Int) : ReportAction :=
  .sequence
    ([mkdirs [], mkdirs testDir] ++
      (List.range' 1 (clampNodes nodes)).map (writeNode host profile (clampNodes nodes)) ++
      [writeIndex host (clampNodes nodes)])

/-! ## Collected files -/

/-- A file that `write_run_artifacts` may replace: a log of a node with less than 80
bytes, a log of xfstests with less than 40, the summary where the results are missing,
and the page of the logs. -/
inductive Replaceable (nodes : Int) (t : ReportTree) : List Str → Prop where
  | log (i : Nat) (node : i ∈ List.range' 1 (clampNodes nodes))
      (short : hasBytes (logPath i) 80 t = false) : Replaceable nodes t (logPath i)
  | xfstests (i : Nat) (node : i ∈ List.range' 1 (clampNodes nodes))
      (short : hasBytes (xfstestsPath i) 40 t = false) : Replaceable nodes t (xfstestsPath i)
  | summary (i : Nat) (node : i ∈ List.range' 1 (clampNodes nodes))
      (missing : t.isFile (resultsPath i) = false) : Replaceable nodes t (summaryPath i)
  | index : Replaceable nodes t indexPath

/-- A collected file is there, and so are the results next to the summary of a node. -/
structure Collected (nodes : Nat) (path : List Str) (file : TextFile) (t : ReportTree) : Prop where
  content : t.content? path = some file
  results : ∀ i ∈ List.range' 1 nodes, path = summaryPath i → t.isFile (resultsPath i) = true

variable {path : List Str} {file : TextFile} {nodes : Nat}

omit [Runtime] in
theorem maintains_collected_mkdirs (dir : List Str) :
    Maintains (Collected nodes path file) (mkdirs dir) := by
  intro t collected
  refine ⟨maintains_mkdirs dir path file t collected.content, fun i node summary => ?_⟩
  rcases Option.isSome_iff_exists.1 (collected.results i node summary) with ⟨results, found⟩
  exact Option.isSome_iff_exists.2 ⟨results, maintains_mkdirs dir (resultsPath i) results t found⟩

omit [Runtime] in
theorem maintains_collected_write {written : List Str} (different : path ≠ written) (text : Str) :
    Maintains (Collected nodes path file) (writeText written text) := by
  intro t collected
  refine ⟨maintains_write different file _ t collected.content, fun i node summary => ?_⟩
  exact isFile_write written (resultsPath i) _ t (collected.results i node summary)

omit [Runtime] in
theorem maintains_writeIfMissing (written : List Str) (text : Str) :
    Maintains (Collected nodes path file) (writeIfMissing written text) := by
  apply maintains_when
  intro t missing collected
  apply maintains_collected_write _ text t collected
  rintro rfl
  have present : t.isFile path = true := Option.isSome_iff_exists.2 ⟨file, collected.content⟩
  rw [present] at missing
  cases missing

omit [Runtime] in
theorem maintains_writeIfShort {written : List Str} {size : Nat} (text : Str)
    (long : path = written → size ≤ file.size) :
    Maintains (Collected nodes path file) (writeIfShort written size text) := by
  apply maintains_when
  intro t short collected
  apply maintains_collected_write _ text t collected
  rintro rfl
  have enough : hasBytes path size t = true := by
    simp only [hasBytes]
    rw [collected.content, Option.any_some, decide_eq_true_eq]
    exact long rfl
  rw [enough] at short
  cases short

omit [Runtime] in
/-- The results and the summary are written together, and only where the results are
missing. -/
theorem maintains_writeResults {i : Nat} (node : i ∈ List.range' 1 nodes) (text : Str) :
    Maintains (Collected nodes path file) (writeResults i text) := by
  apply maintains_when
  intro t missing collected
  have notResults : path ≠ resultsPath i := by
    rintro rfl
    have present : t.isFile (resultsPath i) = true :=
      Option.isSome_iff_exists.2 ⟨file, collected.content⟩
    rw [present] at missing
    cases missing
  have notSummary : path ≠ summaryPath i := by
    intro summary
    rw [collected.results i node summary] at missing
    cases missing
  exact maintains_andThen (maintains_collected_write notResults text)
    (maintains_collected_write notSummary text) t collected

theorem maintains_writeNode (host : Host) (profile : Profile) {i : Nat}
    (node : i ∈ List.range' 1 nodes) (log : path = logPath i → 80 ≤ file.size)
    (xfstests : path = xfstestsPath i → 40 ≤ file.size) :
    Maintains (Collected nodes path file) (writeNode host profile nodes i) := by
  apply maintains_sequence
  simp only [List.forall_mem_cons]
  exact ⟨maintains_writeIfShort _ log, maintains_collected_mkdirs _, maintains_writeResults node _,
    maintains_writeIfMissing _ _, maintains_writeIfShort _ xfstests, maintains_writeIfMissing _ _,
    maintains_writeIfMissing _ _, fun _ none => by cases none⟩

omit [Runtime] in
theorem maintains_writeIndex (host : Host) (different : path ≠ indexPath) :
    Maintains (Collected nodes path file) (writeIndex host nodes) := by
  apply maintains_when
  intro t _ collected
  simp only [Action.look]
  cases logParts t (logNames t) with
  | none => exact collected
  | some parts => exact maintains_collected_write different _ t collected

/-- `write_run_artifacts` leaves every file as it was that it may not replace, whether or
not it ends with an error. -/
theorem writeRunArtifacts_keeps (host : Host) (profile : Profile) (nodes : Int) {t : ReportTree}
    (present : t.content? path = some file) (kept : ¬ Replaceable nodes t path) :
    (writeRunArtifacts host profile nodes t).1.content? path = some file := by
  have long : ∀ size, ¬ size ≤ file.size → hasBytes path size t = false := by
    intro size short
    simp only [hasBytes]
    rw [present, Option.any_some, decide_eq_false short]
  have log : ∀ i ∈ List.range' 1 (clampNodes nodes), path = logPath i → 80 ≤ file.size := by
    rintro i node rfl
    by_contra short
    exact kept (.log i node (long 80 short))
  have xfstests : ∀ i ∈ List.range' 1 (clampNodes nodes), path = xfstestsPath i → 40 ≤ file.size := by
    rintro i node rfl
    by_contra short
    exact kept (.xfstests i node (long 40 short))
  have different : path ≠ indexPath := by
    rintro rfl
    exact kept .index
  have collected : Collected (clampNodes nodes) path file t := by
    refine ⟨present, ?_⟩
    rintro i node rfl
    by_contra missing
    exact kept (.summary i node (Bool.eq_false_iff.2 missing))
  have run : Maintains (Collected (clampNodes nodes) path file)
      (writeRunArtifacts host profile nodes) := by
    apply maintains_sequence
    simp only [List.forall_mem_append, List.forall_mem_cons, List.forall_mem_map]
    refine ⟨⟨⟨maintains_collected_mkdirs _, maintains_collected_mkdirs _, fun _ none => by cases none⟩,
      fun i node => maintains_writeNode host profile node (log i node) (xfstests i node)⟩,
      maintains_writeIndex host different, fun _ none => by cases none⟩
  exact (run t collected).content

end Writing

section Sample

/-- The digests of the texts hashed for the log of the first node. -/
def logDigests : List (Str × Nat) := [
  ("cluster:1:generic/001:time".toList,
    0x7203e1a2209eba776241d2c61f1b32d361a4e87628fd6bc6e067487803c27c4e),
  ("cluster:1:generic/013:time".toList,
    0x92db0d797f89b4ab4c333dfc143a003acc28f51023387f0e933f687bd17bb778),
  ("cluster:1:generic/014:time".toList,
    0x1a8643ae8da55a31116a86645707076cd6b166411d2a437e7dd66c263d066329),
  ("cluster:1:generic/027:time".toList,
    0x59c9e8d689ec91d392055d6abc88ee826c7d46bba47751f387653f8b7908b705),
  ("cluster:1:generic/074:time".toList,
    0x5a999e7afa84079fb6dd683cb0f2bf90a60e24df7255fc80c789fd7a71ba5d0d),
  ("cluster:1:generic/080:time".toList,
    0x20e1f36c68a9e323c4a99f16e18cca4dcc5fb47481cb642b512685db69f7cbfd),
  ("cluster:1:generic/113:time".toList,
    0x132297ec5f69f4da78c60b3656775ac5619416f58d14b45562228dfde054a60e),
  ("cluster:1:generic/125:time".toList,
    0xe64b1df29b6494f856e927eda89bbb427ccca0da53331b97363daf862068a9d4),
  ("cluster:1:generic/231:time".toList,
    0xc6202da1ea7ad64ec09a17780ae2f9cd70f31cbd908325b2dd214fe53b980bb7),
  ("cluster:1:generic/241:time".toList,
    0x3e9d7e1e28646e04239ce25a1032170d368e38fed41c9eb5b98331f7babd449b),
  ("cluster:1:generic/273:time".toList,
    0xaaac0812edc3559ccb075e485fed05daf3a54bce80667a160cc55d7d86341a62),
  ("cluster:1:generic/286:time".toList,
    0xcede380430757042a13f311e977c1e2d38c487434e35140347ff85b3346af8cc),
  ("cluster:1:generic/317:time".toList,
    0xf4a50375b32871ad67bae7987a3a0b5e0f9960805fd11134120405d89611d0ad),
  ("cluster:1:generic/340:time".toList,
    0x380a59f394e804c60a0ce4aa8a9130ae5e86f576bcda2829ba8b8c226c2f40c4)]

@[reducible] def logRuntime : Runtime := tableRuntime logDigests

attribute [local instance] logRuntime

def sampleHost : Host where
  now := "Mon Sep 01 12:00:00 2025".toList
  lower := fun text => text.map Char.toLower

/-- A report directory with one collected log. -/
def collectedLog (text : Str) : ReportTree :=
  (Action.sequence [mkdirs testDir, writeText (logPath 1) text] ⟨∅, by simp⟩).1

def failedLog : Str := "FAIL: xfstests\n".toList

def longFailedLog : Str := List.replicate 80 'F'

/-- A failure of 15 bytes is replaced by a generated log in which everything passed. -/
theorem failedLog_replaced :
    (collectedLog failedLog).content? (logPath 1) = some (TextFile.write failedLog) ∧
      (writeRunArtifacts sampleHost .cluster 1 (collectedLog failedLog)).1.content? (logPath 1) =
        some (TextFile.write (nodeConsoleLog .cluster 1 1 (xfstestsLog .cluster 1))) ∧
      TextFile.write failedLog ≠
        TextFile.write (nodeConsoleLog .cluster 1 1 (xfstestsLog .cluster 1)) := by
  refine ⟨by decide +kernel, rfl, fun same => ?_⟩
  have texts := congrArg (fun file : TextFile => file.text.head?) same
  exact absurd texts (by decide +kernel)

theorem writeRunArtifacts_keeps_longLog :
    (writeRunArtifacts sampleHost .cluster 1 (collectedLog longFailedLog)).1.content? (logPath 1) =
      some (TextFile.write longFailedLog) := by
  have present : (collectedLog longFailedLog).content? (logPath 1) =
      some (TextFile.write longFailedLog) := by decide +kernel
  have long : hasBytes (logPath 1) 80 (collectedLog longFailedLog) = true := by decide +kernel
  apply writeRunArtifacts_keeps sampleHost .cluster 1 present
  generalize shape : logPath 1 = path
  rintro (⟨i, -, short⟩ | ⟨i, -, short⟩ | ⟨i, -, missing⟩ | -)
  · rw [← shape, long] at short
    cases short
  · exact absurd (congrArg List.length shape) (by simp [logPath, xfstestsPath, testDir, nodeDir])
  · exact absurd (congrArg List.length shape) (by simp [logPath, summaryPath, testDir, nodeDir])
  · exact absurd shape (by decide)

end Sample

end Ocfs2Coverage.Artifacts
