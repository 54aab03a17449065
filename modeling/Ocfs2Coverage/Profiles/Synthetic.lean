import Ocfs2Coverage.Hits.Files
import Ocfs2Coverage.Profiles.Tables

/-!
Contract: the hits the program makes up for a profile.

Owns: the quota split, the greedy choice of blocks, `apply_line_hits` and
`adjust_hits_to_target`. Floats and digests only rank blocks and size counts.
-/

namespace Ocfs2Coverage.Profiles

open Ocfs2Coverage.Python
open Ocfs2Coverage.Source
open Ocfs2Coverage.Hits

section Ranking

variable [Runtime]

/-- `<` on key tuples: a float, then integers. -/
def keyLt (left right : Runtime.Float × List Int) : Bool :=
  if FloatOps.eq left.1 right.1 then decide (left.2 < right.2) else FloatOps.lt left.1 right.1

/-- `sorted(xs, key=key)`, a stable sort. -/
def sortByKey {α : Type} (key : α → Runtime.Float × List Int) (xs : List α) : List α :=
  xs.insertionSort fun x y => keyLt (key y) (key x) = false

theorem sortByKey_perm {α : Type} (key : α → Runtime.Float × List Int) (xs : List α) :
    (sortByKey key xs).Perm xs :=
  List.perm_insertionSort _ xs

/-- `_block_rank`. -/
def blockRank (rel : Str) (bid : Nat) (kinds : List LineKind) (boost : Runtime.Float) :
    Runtime.Float :=
  let base := match kinds.map lineWeight with
    | [] => FloatOps.lit (3 / 10)
    | weight :: rest => rest.foldl FloatOps.max weight
  let kw := if !FloatOps.lt boost (FloatOps.lit (15 / 100)) && !kinds.all (· == .debug) then
      FloatOps.max base (FloatOps.lit (70 / 100))
    else base
  let h := Runtime.sha256 (rel ++ ":".toList ++ strOfNat bid)
  let jitter := FloatOps.div (FloatOps.ofInt (leadingBytes 2 h)) (FloatOps.lit 65535)
  FloatOps.mul kw (FloatOps.add (FloatOps.lit (85 / 100))
    (FloatOps.mul (FloatOps.lit (15 / 100)) jitter))

/-- `_hits_for_block`. -/
def hitsForBlock (profile : Profile) (rel : Str) (bid : Nat) : Int :=
  let hb := Runtime.sha256
    ("hits:".toList ++ profile.name ++ ":".toList ++ rel ++ ":".toList ++ strOfNat bid)
  1 + (leadingBytes 2 hb : Int) % 48

theorem hitsForBlock_pos (profile : Profile) (rel : Str) (bid : Nat) :
    0 < hitsForBlock profile rel bid := by
  unfold hitsForBlock
  dsimp only
  omega

/-- `int(round(total * target_pct / 100.0))` clamped to `0..total`. -/
def wantedLines (total : Nat) (targetPct : Runtime.Float) : Int :=
  max 0 (min total
    (FloatOps.round (FloatOps.div (FloatOps.scale total targetPct) (FloatOps.lit 100))))

theorem wantedLines_bounds (total : Nat) (targetPct : Runtime.Float) :
    0 ≤ wantedLines total targetPct ∧ wantedLines total targetPct ≤ total := by
  simp only [wantedLines]
  omega

end Ranking

/-! ## The quota split -/

/-- The quotas and the signed remainder of the correction loop. -/
structure QuotaState where
  quotas : List Int
  diff : Int
deriving DecidableEq, Repr

/-- One file of the correction loop; at a zero remainder the loop has stopped. -/
def quotaStep (slack : List Int) (st : QuotaState) (i : Nat) : QuotaState :=
  let quota := st.quotas.getD i 0
  if st.diff = 0 then st
  else if 0 < st.diff then
    let take := min st.diff (slack.getD i 0)
    ⟨st.quotas.set i (quota + take), st.diff - take⟩
  else if 0 < quota then
    let give := min (-st.diff) quota
    ⟨st.quotas.set i (quota - give), st.diff + give⟩
  else st

/-- One block of the greedy choice: the lines chosen and their number. -/
def selectStep (q : Int) (st : List Nat × Int) (lns : List Nat) : List Nat × Int :=
  if q ≤ st.2 then st
  else if st.2 + lns.length ≤ q || st.1.isEmpty then (st.1 ++ lns, st.2 + lns.length)
  else st

section Quotas

variable [Runtime]

/-- The rounded shares, clamped to the size of each file. -/
def initialQuotas (sizes : List Nat) (weights : List Runtime.Float) (nCover : Int) : List Int :=
  let desired := sizes.zipWith (fun n w => FloatOps.mul w (FloatOps.ofInt n)) weights
  let sum := FloatOps.sum desired
  let sdes := if FloatOps.eq sum (FloatOps.lit 0) then FloatOps.lit 1 else sum
  let scale := FloatOps.div (FloatOps.ofInt nCover) sdes
  sizes.zipWith (fun n d => min (n : Int) (max 0 (FloatOps.round (FloatOps.mul d scale)))) desired

/-- The files by descending weight, then by descending slack. -/
def quotaOrder (weights : List Runtime.Float) (slack : List Int) : List Nat :=
  sortByKey (fun i => (FloatOps.neg (weights.getD i (FloatOps.lit 0)), [-slack.getD i 0]))
    (List.range slack.length)

/-- How many lines each file is to have covered. -/
def splitQuotas (sizes : List Nat) (weights : List Runtime.Float) (nCover : Int) : List Int :=
  let quotas := initialQuotas sizes weights nCover
  let slack := sizes.zipWith (fun n q => (n : Int) - q) quotas
  ((quotaOrder weights slack).foldl (quotaStep slack) ⟨quotas, nCover - quotas.sum⟩).quotas

/-! ## The greedy choice of blocks -/

/-- A block with its rank, in the list `adjust_hits_to_target` sorts. -/
structure RankedBlock where
  rank : Runtime.Float
  file : Nat
  bid : Nat
  lns : List Nat
  covered : Bool

/-- The rank of one of the groups of a file. -/
def groupRank (profile : Profile) (f : SourceFile) (group : Nat × List Nat) : Runtime.Float :=
  blockRank f.rel group.1 (group.2.map fun ln => f.execKinds.get ln .normal) (boostOf profile f.rel)

/-- The ranked blocks of one file. -/
def rankedBlocks (profile : Profile) (index : Nat) (f : CoverageFile) : List RankedBlock :=
  (fileBlockGroups f.source).items.map fun group =>
    { rank := groupRank profile f.source group
      file := index
      bid := group.1
      lns := group.2
      covered := decide (0 < hitsAt f.hits (group.2.headD 0)) }

/-- The lines `apply_line_hits` marks for a quota. -/
def selectLines (profile : Profile) (f : SourceFile) (q : Int) : List Nat :=
  let ranked := sortByKey (fun group : Nat × List Nat =>
    (FloatOps.neg (groupRank profile f group), [(group.1 : Int)])) (fileBlockGroups f).items
  (ranked.foldl (fun st group => selectStep q st group.2) ([], 0)).1

/-- The first hits of a file: its chosen lines, made coherent once. -/
def selectHits (profile : Profile) (f : CoverageFile) (q : Int) : CoverageFile :=
  let cover := selectLines profile f.source q
  { f with
    hits := cohereBlockHits f.source (hitsOf f.source.lines fun ln =>
      if ln ∈ cover then hitsForBlock profile f.source.rel (f.source.blockOf ln) else 0) }

/-! ## `adjust_hits_to_target` -/

/-- One block of the loop that covers blocks. -/
def raiseStep (profile : Profile) (st : List CoverageFile × Int) (b : RankedBlock) :
    List CoverageFile × Int :=
  if st.2 ≤ 0 then st
  else if b.covered then st
  else
    let rel := (st.1[b.file]?.map fun f => f.source.rel).getD []
    (setBlock st.1 b.file b.lns (hitsForBlock profile rel b.bid), st.2 - b.lns.length)

/-- One block of the loop that uncovers blocks. -/
def lowerStep (st : List CoverageFile × Int) (b : RankedBlock) : List CoverageFile × Int :=
  if 0 ≤ st.2 then st
  else if !b.covered then st
  else (setBlock st.1 b.file b.lns 0, st.2 + b.lns.length)

/-- The blocks of all files, in file order. -/
def allBlocks (profile : Profile) (files : List CoverageFile) : List RankedBlock :=
  files.zipIdx.flatMap fun item => rankedBlocks profile item.2 item.1

/-- `adjust_hits_to_target`. -/
def adjustHitsToTarget (files : List CoverageFile) (targetPct : Runtime.Float)
    (profile : Profile) : List CoverageFile :=
  let total := scoreTotal files
  if total = 0 then files
  else
    let blocks := allBlocks profile files
    let diff := wantedLines total targetPct - scoreHit files
    if 0 < diff then
      ((sortByKey (fun b : RankedBlock => (FloatOps.neg b.rank, [(b.file : Int), b.bid])) blocks).foldl
        (raiseStep profile) (files, diff)).1
    else if diff < 0 then
      ((sortByKey (fun b : RankedBlock => (b.rank, [(b.file : Int), b.bid])) blocks).foldl
        lowerStep (files, diff)).1
    else files

/-! ## `apply_line_hits` -/

/-- The hits before the adjustment to the target. -/
def selectAll (files : List CoverageFile) (targetPct : Runtime.Float) (profile : Profile) :
    List CoverageFile :=
  let weights := files.map fun f => weightOf profile f.source.rel
  let quotas := splitQuotas (files.map fileTotal) weights (wantedLines (scoreTotal files) targetPct)
  (files.zipWith (selectHits profile) quotas).map fun f => blockPass (forwardPass f)

/-- `apply_line_hits`. -/
def applyLineHits (files : List CoverageFile) (targetPct : Runtime.Float) (profile : Profile) :
    List CoverageFile :=
  if scoreTotal files = 0 then files
  else (adjustHitsToTarget (selectAll files targetPct profile) targetPct profile).map blockPass

end Quotas

end Ocfs2Coverage.Profiles
