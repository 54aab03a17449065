import Ocfs2Coverage.Driver.ExtentMap

/-!
Contract: the blocks of a file (`ocfs2_extent_map_get_blocks`).

Owns: which block of the disk a block of a file is, how many follow it there, and that both
are told right behind every run of the extent cache.

Does not own: reading the blocks.
-/

namespace Ocfs2Coverage.Driver

open Ocfs2Coverage.Runs
open ExtentMapHeaders

/-- What `ocfs2.h` gives of clusters and blocks: clusters of `2 ^ cToBBits` blocks. -/
class ClusterHeaders extends ExtentMapHeaders where
  ocfs2ClustersToBlocks : Nat → Nat
  cToBBits : Nat
  cToBBits_lt : cToBBits < 32
  clustersToBlocks : ∀ clusters, ocfs2ClustersToBlocks clusters = clusters * 2 ^ cToBBits
  blocksToClusters : ∀ blocks,
    ocfs2BlocksToClusters blocks = BitVec.ofNat 32 (blocks / 2 ^ cToBBits)

open ClusterHeaders

section Blocks

variable [ClusterHeaders]

/-- What `ocfs2_get_clusters` leaves in `p_cluster`, `num_clusters` and `extent_flags`. -/
def Clusters.values : Clusters → Nat × Nat × Nat
  | .hole numClusters => (0, numClusters, 0)
  | .mapped pCluster numClusters extentFlags => (pCluster, numClusters, extentFlags)

/-- `ocfs2_extent_map_get_blocks`: the block, how many there are from it on, and the flags. -/
def ocfs2ExtentMapGetBlocks (inode : Ocfs2Inode) (vBlkno : Nat) (read allocated : Bool) :
    Option (Except Errno (Nat × Nat × Nat) × Ocfs2ExtentMap) :=
  let bpc := ocfs2ClustersToBlocks 1
  let cpos := (ocfs2BlocksToClusters vBlkno).toNat
  (ocfs2GetClusters inode cpos read allocated).map fun (answer, em) =>
    (answer.map fun clusters =>
      let (pCluster, numClusters, extentFlags) := clusters.values
      let boff := if pCluster = 0 then 0
        else ocfs2ClustersToBlocks pCluster + (vBlkno &&& (bpc - 1))
      let retCount :=
        (ocfs2ClustersToBlocks numClusters + 2 ^ 64 - (vBlkno &&& (bpc - 1))) % 2 ^ 64
      (boff, retCount, extentFlags), em)

/-- Where the tree has a block of the file, and with which flags. -/
def blockMapping (recs : List Ocfs2ExtentRec) (vBlkno : Nat) : Option (Nat × Nat) :=
  (mapping recs (vBlkno / 2 ^ cToBBits)).map fun (pCluster, extentFlags) =>
    (pCluster * 2 ^ cToBBits + vBlkno % 2 ^ cToBBits, extentFlags)

/-- No file has cluster 0 of the disk, which stands for a hole. -/
def NoClusterZero (recs : List Ocfs2ExtentRec) : Prop :=
  ∀ vCluster extentFlags, mapping recs vCluster ≠ some (0, extentFlags)

/-- Clusters that follow each other do not wrap: cluster 0 would be among them. -/
theorem NoClusterZero.no_wrap {recs : List Ocfs2ExtentRec} {vCluster pCluster numClusters
    extentFlags : Nat} (nonzero : NoClusterZero recs)
    (agrees : ∀ k < numClusters,
      mapping recs (vCluster + k) = some ((pCluster + k) % 2 ^ 32, extentFlags))
    (small : pCluster < 2 ^ 32) {k : Nat} (inside : k < numClusters) :
    pCluster + k < 2 ^ 32 := by
  by_contra wraps
  have zero := agrees (2 ^ 32 - pCluster) (by omega)
  rw [Nat.add_sub_cancel' small.le, Nat.mod_self] at zero
  exact nonzero _ _ zero

/-- What a caller of `ocfs2_extent_map_get_blocks` may rely on. -/
def BlockAnswers (inode : Ocfs2Inode) (vBlkno : Nat) (read : Bool) :
    Except Errno (Nat × Nat × Nat) → Prop
  | .error .erange => inode.inlineData = true
  | .error .eio => read = false
  | .error .erofs => False
  | .ok (pBlkno, retCount, extentFlags) =>
      if pBlkno = 0 then blockMapping inode.iList vBlkno = none ∧ extentFlags = 0
      else 0 < retCount ∧ ∀ k < retCount,
        blockMapping inode.iList (vBlkno + k) = some (pBlkno + k, extentFlags)

/-- Clusters that follow each other in the file and on disk, block by block. -/
theorem blockMapping_follows {recs : List Ocfs2ExtentRec} {vBlkno pCluster numClusters
    extentFlags k : Nat}
    (agrees : ∀ j < numClusters,
      mapping recs (vBlkno / 2 ^ cToBBits + j) = some (pCluster + j, extentFlags))
    (inside : vBlkno % 2 ^ cToBBits + k < 2 ^ cToBBits * numClusters) :
    blockMapping recs (vBlkno + k) =
      some (pCluster * 2 ^ cToBBits + vBlkno % 2 ^ cToBBits + k, extentFlags) := by
  have positive : 0 < 2 ^ cToBBits := Nat.two_pow_pos _
  have split : vBlkno + k =
      2 ^ cToBBits * (vBlkno / 2 ^ cToBBits) + (vBlkno % 2 ^ cToBBits + k) := by
    rw [← Nat.add_assoc, Nat.div_add_mod]
  have place := agrees _ (Nat.div_lt_of_lt_mul inside)
  rw [blockMapping, split, Nat.mul_add_div positive, Nat.mul_add_mod, place]
  simp only [Option.map_some]
  rw [Nat.add_mul, Nat.add_assoc, Nat.add_assoc, Nat.div_add_mod']

theorem mapping_lt {recs : List Ocfs2ExtentRec} {vCluster : Nat} {place : Nat × Nat}
    (ok : TreeOk recs) (mapped : mapping recs vCluster = some place) : vCluster < 2 ^ 32 := by
  obtain ⟨rec, found, -⟩ := Option.map_eq_some_iff.1 mapped
  obtain ⟨mem, -, below⟩ := search_some ok found
  exact below.trans (ok.bounded rec mem)

/-- The count of `ocfs2_extent_map_get_blocks` does not wrap. -/
theorem retCount_eq {numClusters offset : Nat} (small : numClusters ≤ 2 ^ 32)
    (clusters : 0 < numClusters) (below : offset < 2 ^ cToBBits) :
    (ocfs2ClustersToBlocks numClusters + 2 ^ 64 - offset) % 2 ^ 64 =
      2 ^ cToBBits * numClusters - offset := by
  have most : 2 ^ cToBBits * numClusters ≤ 2 ^ 31 * 2 ^ 32 :=
    Nat.mul_le_mul (Nat.pow_le_pow_right (by decide) (Nat.le_of_lt_succ cToBBits_lt)) small
  have least : 2 ^ cToBBits ≤ 2 ^ cToBBits * numClusters := Nat.le_mul_of_pos_right _ clusters
  rw [clustersToBlocks, Nat.mul_comm numClusters]
  omega

theorem Ocfs2Inode.Coherent.getBlocks {inode : Ocfs2Inode} {vBlkno : Nat}
    (coherent : inode.Coherent) (nonzero : NoClusterZero inode.iList)
    (file : vBlkno / 2 ^ cToBBits < 2 ^ 32) (read allocated : Bool) :
    ∃ answer em, ocfs2ExtentMapGetBlocks inode vBlkno read allocated = some (answer, em) ∧
      BlockAnswers inode vBlkno read answer ∧ Coherent { inode with ipExtentMap := em } := by
  have cpos : (ocfs2BlocksToClusters vBlkno).toNat = vBlkno / 2 ^ cToBBits := by
    rw [blocksToClusters, BitVec.toNat_ofNat, Nat.mod_eq_of_lt file]
  have offset : vBlkno &&& (ocfs2ClustersToBlocks 1 - 1) = vBlkno % 2 ^ cToBBits := by
    rw [clustersToBlocks, Nat.one_mul, Nat.and_two_pow_sub_one_eq_mod]
  obtain ⟨answer, em, eq, answers, after⟩ := coherent.get (vBlkno / 2 ^ cToBBits) read allocated
  cases answer with
  | error errno =>
      refine ⟨.error errno, em, by rw [ocfs2ExtentMapGetBlocks, cpos, eq]; rfl, ?_, after⟩
      cases errno <;> exact answers
  | ok clusters =>
      cases clusters with
      | hole numClusters =>
          refine ⟨.ok (0, _, 0), em, by rw [ocfs2ExtentMapGetBlocks, cpos, eq]; rfl, ?_, after⟩
          rw [BlockAnswers, if_pos rfl, blockMapping, answers.1, Option.map_none]
          exact ⟨rfl, rfl⟩
      | mapped pCluster numClusters extentFlags =>
          obtain ⟨small, clusters, agrees⟩ := answers
          have follows : ∀ j < numClusters,
              mapping inode.iList (vBlkno / 2 ^ cToBBits + j) =
                some (pCluster + j, extentFlags) := by
            intro j inside
            rw [agrees j inside, Nat.mod_eq_of_lt (nonzero.no_wrap agrees small inside)]
          have positive : pCluster ≠ 0 := by
            rintro rfl
            exact nonzero _ _ (follows 0 clusters)
          have below := Nat.mod_lt vBlkno (Nat.two_pow_pos cToBBits)
          have last := mapping_lt coherent.tree (follows (numClusters - 1) (by omega))
          have least : 2 ^ cToBBits ≤ 2 ^ cToBBits * numClusters :=
            Nat.le_mul_of_pos_right _ clusters
          have start : pCluster * 2 ^ cToBBits + vBlkno % 2 ^ cToBBits ≠ 0 := by
            have := Nat.mul_pos (Nat.pos_of_ne_zero positive) (Nat.two_pow_pos cToBBits)
            omega
          have count := retCount_eq (by omega) clusters below
          refine ⟨.ok (ocfs2ClustersToBlocks pCluster + vBlkno % 2 ^ cToBBits,
            2 ^ cToBBits * numClusters - vBlkno % 2 ^ cToBBits, extentFlags), em, ?_, ?_, after⟩
          · rw [ocfs2ExtentMapGetBlocks, cpos, eq, offset, ← count]
            exact congrArg some (by simp [Except.map, Clusters.values, positive])
          · rw [BlockAnswers, clustersToBlocks, if_neg start]
            exact ⟨by omega, fun k inside => blockMapping_follows follows (by omega)⟩

/-- Behind every run, a block of a file is where the tree has it, with as many behind it as
are told. -/
theorem ocfs2ExtentMapGetBlocks_tells_tree {inlineData : Bool} {tree : List Ocfs2ExtentRec}
    {events : List ExtentMapEvent} {inode : Ocfs2Inode} {vBlkno : Nat} (ok : TreeOk tree)
    (run : Run ExtentMapStep ⟨inlineData, tree, ocfs2ExtentMapInit⟩ events inode)
    (nonzero : NoClusterZero inode.iList) (file : vBlkno / 2 ^ cToBBits < 2 ^ 32)
    (read allocated : Bool) :
    ∃ answer em, ocfs2ExtentMapGetBlocks inode vBlkno read allocated = some (answer, em) ∧
      BlockAnswers inode vBlkno read answer := by
  obtain ⟨answer, em, eq, answers, -⟩ :=
    (Ocfs2Inode.coherent_of_run ok run).getBlocks nonzero file read allocated
  exact ⟨answer, em, eq, answers⟩

end Blocks

section Sample

@[reducible] def smallBlocks : ClusterHeaders where
  toExtentMapHeaders := smallClusters
  ocfs2ClustersToBlocks := fun clusters => clusters * 8
  cToBBits := 3
  cToBBits_lt := by decide
  clustersToBlocks := fun _ => rfl
  blocksToClusters := fun _ => rfl

attribute [local instance] smallBlocks

theorem truncatedTree_noClusterZero : NoClusterZero truncatedTree := by
  intro vCluster extentFlags zero
  have ok : TreeOk truncatedTree := ⟨by decide, by decide, by decide, by decide⟩
  obtain ⟨rec, found, same⟩ := Option.map_eq_some_iff.1 zero
  obtain ⟨mem, start, below⟩ := search_some ok found
  have place := congrArg Prod.fst same
  simp only [truncatedTree, List.mem_cons, List.not_mem_nil, or_false] at mem
  simp only [ocfs2RelativeExtentOffsets, ocfs2BlocksToClusters] at place
  rcases mem with rfl | rfl | rfl <;> simp at place start below <;> omega

/-- Block 21 of the file lies in cluster 2, and the cache is cut behind cluster 5. -/
theorem ocfs2ExtentMapGetBlocks_tells_tree_truncated :
    ∃ answer em,
      ocfs2ExtentMapGetBlocks ⟨false, truncatedTree, ⟨1, [⟨0, 100, 6, 0⟩]⟩⟩ 21 true true =
          some (answer, em) ∧
        BlockAnswers ⟨false, truncatedTree, ⟨1, [⟨0, 100, 6, 0⟩]⟩⟩ 21 true answer :=
  ocfs2ExtentMapGetBlocks_tells_tree holedTree_ok holedTree_truncated
    truncatedTree_noClusterZero (by decide) true true

end Sample

end Ocfs2Coverage.Driver
