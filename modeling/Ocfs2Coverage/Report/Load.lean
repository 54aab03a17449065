import Ocfs2Coverage.Profiles.Tables
import Ocfs2Coverage.Report.Emit

/-!
Contract: reading a report directory back.

Owns: `infer_profile`, `load_line_hits` and `_pct_from_report`. An exception of
the program is `none`.

Does not own: how the directory came about.
-/

namespace Ocfs2Coverage.Report

open Ocfs2Coverage.Python
open Ocfs2Coverage.Hits
open Ocfs2Coverage.Trace
open Ocfs2Coverage.Profiles

def inferProfile (name : Str) : Profile :=
  ([Profile.features, .cluster, .merged, .default].find? fun p =>
    startswith name ("gcov_reports_".toList ++ p.name ++ "_".toList)).getD .default

variable [Runtime]

/-- The entries of `files`; what is not a dictionary is passed over. -/
def lineTables : List (Str × Json.Doc) → Option (List (Str × LineHits))
  | [] => some []
  | item :: rest =>
      match Json.asDict item.2 with
      | none => lineTables rest
      | some fields =>
          match Json.toHits fields, lineTables rest with
          | some hits, some tables => some ((item.1, hits) :: tables)
          | _, _ => none

/-- The table of one `line_hits.json`. -/
def readLineHits (doc : Json.Doc) : Option (Dict Str LineHits) := do
  let raw ← Json.asDict doc
  let files ← Json.asDict (raw.get "files".toList doc)
  (lineTables files.items).map Dict.ofItems

/-- The first candidate with a nonempty table. -/
def firstLineHits : List (Option Json.Doc) → Option (Dict Str LineHits)
  | [] => some ∅
  | none :: rest => firstLineHits rest
  | some doc :: rest =>
      match readLineHits doc with
      | none => none
      | some out => if out.isEmpty then firstLineHits rest else some out

/-- The first tracefile with a nonempty table. -/
def firstTrace : List (Option TextFile) → Dict Str LineHits
  | [] => ∅
  | none :: rest => firstTrace rest
  | some file :: rest =>
      if file.size ≤ 64 then firstTrace rest
      else
        let out := Dict.ofItems ((parseLcov (some file)).items.map fun item =>
          (relFromSf item.1, item.2))
        if out.isEmpty then firstTrace rest else out

def loadLineHits (dir : ReportDir) : Option (Dict Str LineHits) :=
  (firstLineHits [dir.lineHits, dir.kernelLineHits]).map fun out =>
    if out.isEmpty then firstTrace [dir.kernelInfo, dir.ocfs2Info] else out

/-- A table read from `coverage_summary.json`. -/
def readSummary (doc : Json.Doc) : Option (Runtime.Float × Int × Int) := do
  let data ← Json.asDict doc
  let pct ← Json.toFloat (Json.getOr data "pct".toList (.float (FloatOps.lit 0)))
  let hit ← Json.toInt (Json.getOr data "hit".toList (.int 0))
  let total ← Json.toInt (Json.getOr data "total".toList (.int 0))
  pure (pct, hit, total)

/-- The counts of all lines of a table. -/
def countHits (table : Dict Str LineHits) : Nat × Nat :=
  ((table.values.map fun hits => hits.values.countP fun v => decide (0 < v)).sum,
    (table.values.map fun hits => hits.values.length).sum)

/-- The first summary with a line or a percentage, else the stored hits. -/
def pctFromSummaries (dir : ReportDir) :
    List (Option Json.Doc) → Option (Runtime.Float × Int × Int)
  | [] =>
      (loadLineHits dir).map fun table =>
        if table.isEmpty then (FloatOps.lit 0, 0, 0)
        else
          (percentage (countHits table).1 (countHits table).2, (countHits table).1,
            (countHits table).2)
  | none :: rest => pctFromSummaries dir rest
  | some doc :: rest =>
      match readSummary doc with
      | none => none
      | some (pct, hit, total) =>
          if total ≠ 0 ∨ FloatOps.eq pct (FloatOps.lit 0) = false then some (pct, hit, total)
          else pctFromSummaries dir rest

def pctFromReport (dir : ReportDir) : Option (Runtime.Float × Int × Int) :=
  pctFromSummaries dir [dir.kernelSummary, dir.summary]

end Ocfs2Coverage.Report
