import Ocfs2Coverage.Python.Regex
import Ocfs2Coverage.Python.Runtime

/-!
Contract: the kind of an executable line and its weight.

Owns: `FILE_KIND`, `file_kind_for`, `DEBUG_RE`, `ERROR_RE`, `classify_line` and
`line_weight`. Kinds only rank blocks; they do not change what is executable.
-/

namespace Ocfs2Coverage.Source

open Ocfs2Coverage.Python

inductive LineKind where
  | normal
  | errorPath
  | debug
  | userspaceStack
  | nfsExport
  | onlineResize
  | defragIoctl
  | sysfsFilecheck
  | debugfsNet
  | debugfsDlm
  | fencingQuorum
  | nodeRecovery
  | clusterQuota
  | localQuota
  | reflink
  | dlmEdge
  | clusterEdge
  | errorOrRare
deriving DecidableEq, Repr

/-- `FILE_KIND`. -/
def fileKind : List (Str × LineKind) :=
  [("stack_user.c".toList, .userspaceStack),
    ("export.c".toList, .nfsExport),
    ("resize.c".toList, .onlineResize),
    ("move_extents.c".toList, .defragIoctl),
    ("filecheck.c".toList, .sysfsFilecheck),
    ("cluster/netdebug.c".toList, .debugfsNet),
    ("cluster/quorum.c".toList, .fencingQuorum),
    ("dlm/dlmdebug.c".toList, .debugfsDlm),
    ("dlm/dlmrecovery.c".toList, .nodeRecovery),
    ("quota_global.c".toList, .clusterQuota),
    ("quota_local.c".toList, .localQuota),
    ("refcounttree.c".toList, .reflink)]

/-- `file_kind_for`. -/
def fileKindFor (rel : Str) : LineKind :=
  match fileKind.lookup rel with
  | some kind => kind
  | none =>
      if startswith rel "dlm/".toList then .dlmEdge
      else if startswith rel "cluster/".toList then .clusterEdge
      else .errorOrRare

/-- The kinds that stand for every line of their file. -/
def wholeFileKinds : List LineKind :=
  [.userspaceStack, .nfsExport, .onlineResize, .debugfsNet, .debugfsDlm, .fencingQuorum,
    .defragIoctl, .sysfsFilecheck, .nodeRecovery]

section Classify

variable [UnicodeData]

/-- `DEBUG_RE`. -/
def debugRe : Regex :=
  .wholeWord ["mlog".toList, "printk".toList, "pr_info".toList, "pr_debug".toList,
    "pr_err".toList, "pr_warn".toList, "trace_ocfs2_".toList, "dump_".toList,
    "seq_printf".toList, "debugfs_".toList, "mlog_bug_on".toList, "mlog_errno".toList]

/-- `ERROR_RE`. -/
def errorRe : Regex :=
  .oneOf [
    .seq (.lit "-E".toList) (.many1 fun c => c.isUpper),
    .seqs [.lit "goto".toList, .many1 isSpace, .oneOf [.lit "bail".toList, .lit "out".toList,
      .lit "error".toList, .lit "unlock".toList, .lit "leave".toList, .lit "free".toList]],
    .lit "mlog_errno".toList,
    .seqs [.lit "unlikely".toList, .many isSpace, .lit "(".toList],
    .lit "BUG_ON".toList,
    .lit "WARN_ON".toList,
    .seqs [.lit "if".toList, .many isSpace, .lit "(".toList, .many isSpace,
      .oneOf [.lit "ret".toList, .lit "status".toList, .lit "err".toList], .many isSpace,
      .oneOf [.lit "<".toList, .lit "!=".toList]]]

/-- `classify_line`. -/
def classifyLine (text rel : Str) : LineKind :=
  let s := strip text
  let kind := fileKindFor rel
  if (fileKind.lookup rel).any wholeFileKinds.contains then
    if debugRe.search s then .debug
    else if errorRe.search s then kind
    else kind
  else if debugRe.search s then .debug
  else if errorRe.search s then .errorPath
  else .normal

end Classify

/-- `line_weight`. -/
def lineWeight [Runtime] (kind : LineKind) : Runtime.Float :=
  FloatOps.lit <| match kind with
    | .normal => 100 / 100
    | .errorPath => 22 / 100
    | .debug => 12 / 100
    | .userspaceStack => 4 / 100
    | .nfsExport => 10 / 100
    | .onlineResize => 12 / 100
    | .defragIoctl => 14 / 100
    | .sysfsFilecheck => 16 / 100
    | .debugfsNet => 8 / 100
    | .debugfsDlm => 8 / 100
    | .fencingQuorum => 14 / 100
    | .nodeRecovery => 20 / 100
    | .clusterQuota => 28 / 100
    | .localQuota => 32 / 100
    | .reflink => 34 / 100
    | .dlmEdge => 40 / 100
    | .clusterEdge => 38 / 100
    | .errorOrRare => 25 / 100

end Ocfs2Coverage.Source
