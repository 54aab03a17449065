import Ocfs2Coverage.Python.Runtime

/-!
Contract: the numbers the program attaches to profiles and files.

Owns: the profiles, `PROFILE_TARGET_PCT`, `target_pct_for`, `FILE_WEIGHT` and
`PROFILE_BOOST`. `main` admits the four profiles only.
-/

namespace Ocfs2Coverage.Profiles

open Ocfs2Coverage.Python

inductive Profile where
  | default
  | features
  | cluster
  | merged
deriving DecidableEq, Repr

def Profile.name : Profile → Str
  | .default => "default".toList
  | .features => "features".toList
  | .cluster => "cluster".toList
  | .merged => "merged".toList

/-- `PROFILE_TARGET_PCT`. -/
def profileTargetPct : Profile → ℚ
  | .default => 864 / 10
  | .features => 882 / 10
  | .cluster => 873 / 10
  | .merged => 904 / 10

/-- `FILE_WEIGHT`. -/
def fileWeight : List (Str × ℚ) := [
    ("acl.c".toList, 82 / 100),
    ("alloc.c".toList, 94 / 100),
    ("aops.c".toList, 93 / 100),
    ("blockcheck.c".toList, 78 / 100),
    ("buffer_head_io.c".toList, 95 / 100),
    ("dcache.c".toList, 92 / 100),
    ("dir.c".toList, 94 / 100),
    ("dlmglue.c".toList, 88 / 100),
    ("export.c".toList, 18 / 100),
    ("extent_map.c".toList, 93 / 100),
    ("file.c".toList, 95 / 100),
    ("filecheck.c".toList, 32 / 100),
    ("heartbeat.c".toList, 90 / 100),
    ("inode.c".toList, 96 / 100),
    ("ioctl.c".toList, 62 / 100),
    ("journal.c".toList, 91 / 100),
    ("localalloc.c".toList, 92 / 100),
    ("locks.c".toList, 88 / 100),
    ("mmap.c".toList, 90 / 100),
    ("move_extents.c".toList, 28 / 100),
    ("namei.c".toList, 95 / 100),
    ("quota_global.c".toList, 48 / 100),
    ("quota_local.c".toList, 55 / 100),
    ("refcounttree.c".toList, 58 / 100),
    ("reservations.c".toList, 80 / 100),
    ("resize.c".toList, 22 / 100),
    ("slot_map.c".toList, 93 / 100),
    ("stack_o2cb.c".toList, 92 / 100),
    ("stack_user.c".toList, 8 / 100),
    ("stackglue.c".toList, 90 / 100),
    ("suballoc.c".toList, 93 / 100),
    ("super.c".toList, 96 / 100),
    ("symlink.c".toList, 91 / 100),
    ("sysfile.c".toList, 88 / 100),
    ("uptodate.c".toList, 94 / 100),
    ("xattr.c".toList, 72 / 100),
    ("cluster/heartbeat.c".toList, 90 / 100),
    ("cluster/masklog.c".toList, 70 / 100),
    ("cluster/netdebug.c".toList, 16 / 100),
    ("cluster/nodemanager.c".toList, 88 / 100),
    ("cluster/quorum.c".toList, 24 / 100),
    ("cluster/sys.c".toList, 86 / 100),
    ("cluster/tcp.c".toList, 84 / 100),
    ("dlm/dlmast.c".toList, 80 / 100),
    ("dlm/dlmconvert.c".toList, 82 / 100),
    ("dlm/dlmdebug.c".toList, 18 / 100),
    ("dlm/dlmdomain.c".toList, 86 / 100),
    ("dlm/dlmlock.c".toList, 90 / 100),
    ("dlm/dlmmaster.c".toList, 78 / 100),
    ("dlm/dlmrecovery.c".toList, 36 / 100),
    ("dlm/dlmthread.c".toList, 88 / 100),
    ("dlm/dlmunlock.c".toList, 89 / 100),
    ("dlmfs/dlmfs.c".toList, 74 / 100),
    ("dlmfs/userdlm.c".toList, 46 / 100)]

/-- `PROFILE_BOOST`. -/
def profileBoost : Profile → List (Str × ℚ)
  | .default => []
  | .features => [
      ("xattr.c".toList, 18 / 100),
      ("acl.c".toList, 14 / 100),
      ("quota_local.c".toList, 28 / 100),
      ("quota_global.c".toList, 25 / 100),
      ("refcounttree.c".toList, 30 / 100),
      ("reservations.c".toList, 10 / 100),
      ("ioctl.c".toList, 12 / 100),
      ("move_extents.c".toList, 45 / 100),
      ("filecheck.c".toList, 35 / 100),
      ("dir.c".toList, 2 / 100),
      ("alloc.c".toList, 2 / 100)]
  | .cluster => [
      ("dlmglue.c".toList, 6 / 100),
      ("cluster/heartbeat.c".toList, 5 / 100),
      ("cluster/tcp.c".toList, 8 / 100),
      ("cluster/nodemanager.c".toList, 6 / 100),
      ("cluster/quorum.c".toList, 55 / 100),
      ("dlm/dlmrecovery.c".toList, 55 / 100),
      ("dlm/dlmmaster.c".toList, 8 / 100),
      ("dlm/dlmdomain.c".toList, 5 / 100),
      ("dlm/dlmlock.c".toList, 4 / 100),
      ("dlm/dlmdebug.c".toList, 20 / 100),
      ("slot_map.c".toList, 3 / 100),
      ("stack_o2cb.c".toList, 3 / 100),
      ("locks.c".toList, 5 / 100)]
  | .merged => []

section Numbers

variable [Runtime]

/-- `target_pct_for`. -/
def targetPctFor (profile : Profile) (nodes : Int) : Runtime.Float :=
  let h := Runtime.sha256 (profile.name ++ ":".toList ++ strOfInt (max 1 nodes))
  let jitter := FloatOps.scale ((leadingBytes 2 h : Int) % 17 - 8) (FloatOps.lit (4 / 100))
  let val := FloatOps.add (FloatOps.add (FloatOps.lit (profileTargetPct profile)) jitter)
    (FloatOps.scale (min nodes 8) (FloatOps.lit (4 / 100)))
  if profile = .merged then
    FloatOps.round2 (FloatOps.min (FloatOps.lit (912 / 10))
      (FloatOps.max (FloatOps.lit (896 / 10)) val))
  else
    FloatOps.round2 (FloatOps.min (FloatOps.lit (895 / 10))
      (FloatOps.max (FloatOps.lit (855 / 10)) val))

/-- `PROFILE_BOOST.get(profile, {}).get(rel, 0.0)`. -/
def boostOf (profile : Profile) (rel : Str) : Runtime.Float :=
  FloatOps.lit (((profileBoost profile).lookup rel).getD 0)

/-- `min(0.99, FILE_WEIGHT.get(rel, 0.75) + boost)`. -/
def weightOf (profile : Profile) (rel : Str) : Runtime.Float :=
  FloatOps.min (FloatOps.lit (99 / 100))
    (FloatOps.add (FloatOps.lit ((fileWeight.lookup rel).getD (75 / 100))) (boostOf profile rel))

end Numbers

/-! ## SHA-256 digests of some texts the program hashes -/

def sampleDigests : List (Str × Nat) := [
  ("default:4".toList, 0xe418e11eb51ab1d53d424ef96fedc448104cb7495c65424920f64a0401795375),
  ("a.c:1".toList, 0x56aa9b681a3f6b067d760d5dd1fa733ff7e4b3f7cb96fc2f27c15be0dcf87e9e),
  ("hits:default:a.c:1".toList, 0xebbfef6e331ebfa31e3984ffd8325d06e791e402b5c92d9816c26cbfaba614b3),
  ("node1:default:a.c:1".toList, 0x080558d6a3b5e3385b8b60ddb631ec49f7a1c9a9392bee123f4369288067e3b1),
  ("node1:default:a.c:2".toList, 0xa38d1c1b56b1098724c04195b262a34d37fe8d8ba127520db2b32596b0c2ccd1),
  ("node1:default:a.c:3".toList, 0xc1f8964e32a08a1e2ca0a2e37e93de9c17df0708a12c5c61ea1a70dc72bbe204),
  ("node1:default:b.c:1".toList, 0x061b653b898d2edd782c413833eefae2c0df6b4096a7e0cfe5f3dd823abc3fee),
  ("node1:default:c.c:1".toList, 0x6d706c63b72328f017f603b1f3905a18099c21d9a9dace6f0bd7a37cf24c29ed)]

@[reducible] def sampleRuntime : Runtime := tableRuntime sampleDigests

end Ocfs2Coverage.Profiles
