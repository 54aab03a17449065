import Ocfs2Coverage.Report.Json
import Ocfs2Coverage.Report.Tree
import Ocfs2Coverage.Trace.Lcov

/-!
Contract: the documents of one report.

Owns: `snapshot_hits`, `write_lcov_info`, the rows of `write_file_page`, and
`emit_html_tree` with the report directory it leaves.

Does not own: markup around the rows, style sheets, index and landing pages.
-/

namespace Ocfs2Coverage.Report

open Ocfs2Coverage.Python
open Ocfs2Coverage.Hits
open Ocfs2Coverage.Trace

/-- The constant `LCOV_FS_ROOT`, an absolute path. -/
structure LcovFsRoot where
  text : Str
  plain : ∀ c ∈ text, c ≠ '\\' ∧ isLineBreak c = false

def sampleRoot : LcovFsRoot where
  text := "/srv/ocfs2/coverage/fs/ocfs2".toList
  plain := by decide

section Trace

variable [UnicodeData]

/-- `str(src_root / rel)` for a normalised relative path. -/
def LcovFsRoot.join (root : LcovFsRoot) (rel : Str) : Str := root.text ++ '/' :: rel

def daLine (f : CoverageFile) (ln : Nat) : Str :=
  "DA:".toList ++ strOfNat ln ++ ",".toList ++ strOfInt (hitsAt f.hits ln)

/-- The lines of one record. -/
def recordLines (root : LcovFsRoot) (f : CoverageFile) : List Str :=
  ("SF:".toList ++ root.join f.source.rel) ::
    f.source.sortedLines.map (daLine f) ++
    ["LF:".toList ++ strOfNat f.source.sortedLines.length,
      "LH:".toList ++ strOfNat (f.source.sortedLines.countP fun ln => decide (0 < hitsAt f.hits ln)),
      "end_of_record".toList]

def lcovLines (root : LcovFsRoot) (files : List CoverageFile) : List Str :=
  "TN:".toList :: files.flatMap (recordLines root)

/-- Every line ended by a line feed. -/
def unlines (lines : List Str) : Str := lines.flatMap fun line => line ++ "\n".toList

def writeLcovInfo (root : LcovFsRoot) (files : List CoverageFile) : TextFile :=
  .write (unlines (lcovLines root files))

/-! ## Pages -/

inductive RowClass where
  | hit
  | miss
  | na
deriving DecidableEq, Repr

structure PageRow where
  cls : RowClass
  number : Nat
  cnt : Str
  esc : Str
deriving DecidableEq, Repr

/-- `html.escape`. -/
def htmlEscape (s : Str) : Str :=
  s.flatMap fun c =>
    if c = '&' then "&amp;".toList
    else if c = '<' then "&lt;".toList
    else if c = '>' then "&gt;".toList
    else if c = '"' then "&quot;".toList
    else if c = '\'' then "&#x27;".toList
    else [c]

def expandTabs (s : Str) : Str := s.flatMap fun c => if c = '\t' then "    ".toList else [c]

def pageRow (f : CoverageFile) (line : Str) (i : Nat) : PageRow :=
  let esc := htmlEscape (expandTabs line)
  if i ∈ f.source.lines then
    let n := hitsAt f.hits i
    { cls := if 0 < n then .hit else .miss
      number := i
      cnt := if n ≠ 0 then strOfInt n else "0".toList
      esc }
  else { cls := .na, number := i, cnt := [], esc }

structure FilePage where
  title : Str
  hit : Nat
  total : Nat
  rows : List PageRow
deriving DecidableEq, Repr

def writeFilePage (f : CoverageFile) : FilePage where
  title := f.source.rel
  hit := fileHit f
  total := fileTotal f
  rows := (f.source.raw.zipIdx 1).map fun item => pageRow f item.1 item.2

def pageName (rel : Str) : Str := replaceChar '/' '_' rel ++ ".html".toList

def snapshotHits (files : List CoverageFile) : Dict Str LineHits :=
  .ofItems (files.map fun f => (f.source.rel, f.hits))

end Trace

/-! ## `emit_html_tree` -/

inductive Listing where
  | files
  | configs
deriving DecidableEq, Repr

section Emission

variable [Runtime]

/-- The files of a report directory the program itself reads back. -/
structure ReportDir where
  lineHits : Option Json.Doc
  kernelLineHits : Option Json.Doc
  summary : Option Json.Doc
  kernelSummary : Option Json.Doc
  kernelInfo : Option TextFile
  ocfs2Info : Option TextFile

/-- What `emit_html_tree` writes and returns. -/
structure Emitted where
  pages : Dict Str FilePage
  info : TextFile
  coverageSummary : Json.Doc
  hitsBlob : Json.Doc
  pct : Runtime.Float

def hitsBlob (files : List CoverageFile) : Json.Doc :=
  .obj [("files".toList,
    .obj ((snapshotHits files).items.map fun item => (item.1, Json.ofHits item.2)))]

def coverageSummary (files : List CoverageFile) : Json.Doc :=
  .obj [("pct".toList, .float (FloatOps.round2 (percentage (scoreHit files) (scoreTotal files)))),
    ("hit".toList, .int (scoreHit files)), ("total".toList, .int (scoreTotal files))]

def emitHtmlTree (root : LcovFsRoot) (files : List CoverageFile) (listing : Listing) : Emitted where
  pages :=
    if listing = .configs then ∅
    else .ofItems (files.map fun f => (pageName f.source.rel, writeFilePage f))
  info := writeLcovInfo root files
  coverageSummary := coverageSummary files
  hitsBlob := hitsBlob files
  pct := percentage (scoreHit files) (scoreTotal files)

/-- The directory after the tree went to its `kernel_html` and the trace next to
it; with `--report-root` the hits are stored at the top as well. -/
def Emitted.store (e : Emitted) (reportRoot : Bool) (dir : ReportDir) : ReportDir :=
  { dir with
    lineHits := if reportRoot then some e.hitsBlob else dir.lineHits
    kernelLineHits := some e.hitsBlob
    kernelSummary := some e.coverageSummary
    kernelInfo := some e.info }

end Emission

end Ocfs2Coverage.Report
