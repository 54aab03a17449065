import Mathlib
import Ocfs2Coverage.Kernel
import Ocfs2Coverage.Runs

/-!
Contract: the extent cache of an inode (`extent_map.c`).

Owns: looking clusters up with and without the cache, inserting records, forgetting
clusters, and that behind every run the cache tells what the extent tree says.

Does not own: how a leaf of the tree is found, `is_last`, who may change the tree when.
-/

namespace Ocfs2Coverage.Driver

open Ocfs2Coverage.Kernel
open Ocfs2Coverage.Runs

/-- What the headers give: clusters of blocks, and the room of the cache. -/
class ExtentMapHeaders where
  ocfs2BlocksToClusters : Nat → BitVec 32
  ocfs2MaxExtentMapItems : Nat
  room : 0 < ocfs2MaxExtentMapItems

/-! ## The code

Clusters are numbered by `unsigned int`; sums wrap at `2 ^ 32`. -/

/-- `struct ocfs2_extent_map_item`. -/
structure Ocfs2ExtentMapItem where
  eiCpos : Nat
  eiPhys : Nat
  eiClusters : Nat
  eiFlags : Nat
deriving DecidableEq

/-- `struct ocfs2_extent_map`. -/
structure Ocfs2ExtentMap where
  emNumItems : Nat
  emList : List Ocfs2ExtentMapItem
deriving DecidableEq

/-- A record of a leaf, `struct ocfs2_extent_rec`. -/
structure Ocfs2ExtentRec where
  eCpos : Nat
  eBlkno : Nat
  eLeafClusters : Nat
  eFlags : Nat
deriving DecidableEq

/-- `ocfs2_extent_map_init`. -/
def ocfs2ExtentMapInit : Ocfs2ExtentMap := ⟨0, []⟩

def Ocfs2ExtentMapItem.range (emi : Ocfs2ExtentMapItem) : Nat :=
  (emi.eiCpos + emi.eiClusters) % 2 ^ 32

/-- `__ocfs2_extent_map_lookup`: the item that is found moves to the head. -/
def extentMapLookup (em : Ocfs2ExtentMap) (cpos : Nat) :
    Option (Ocfs2ExtentMapItem × Ocfs2ExtentMap) :=
  (em.emList.find? fun emi => emi.eiCpos ≤ cpos ∧ cpos < emi.range).map fun emi =>
    (emi, { em with emList := emi :: em.emList.erase emi })

/-- `ocfs2_extent_map_lookup`: the cluster, how many there are from it on, and the flags;
`none` stands for `-ENOENT`. -/
def ocfs2ExtentMapLookup (em : Ocfs2ExtentMap) (cpos : Nat) :
    Option ((Nat × Nat × Nat) × Ocfs2ExtentMap) :=
  (extentMapLookup em cpos).map fun (emi, em) =>
    let coff := cpos - emi.eiCpos
    (((emi.eiPhys + coff) % 2 ^ 32, emi.eiClusters - coff, emi.eiFlags), em)

/-- The loop of `ocfs2_extent_map_trunc`, over the items and their number. -/
def truncItems (cpos : Nat) : List Ocfs2ExtentMapItem → Nat → Option Ocfs2ExtentMap
  | [], numItems => some ⟨numItems, []⟩
  | emi :: items, numItems =>
      if cpos ≤ emi.eiCpos then
        bugOn (numItems = 0) <| truncItems cpos items (numItems - 1)
      else
        let emi := if cpos < emi.range then { emi with eiClusters := cpos - emi.eiCpos } else emi
        (truncItems cpos items numItems).map fun em => { em with emList := emi :: em.emList }

def ocfs2ExtentMapTrunc (em : Ocfs2ExtentMap) (cpos : Nat) : Option Ocfs2ExtentMap :=
  truncItems cpos em.emList em.emNumItems

/-- `ocfs2_ei_is_contained`. -/
def ocfs2EiIsContained (emi1 emi2 : Ocfs2ExtentMapItem) : Bool :=
  (emi1.eiCpos ≤ emi2.eiCpos ∧ emi2.eiCpos < emi1.range) ∨
    (emi1.eiCpos < emi2.range ∧ emi2.range ≤ emi1.range)

/-- `ocfs2_try_to_merge_extent_map`: what becomes of `emi`. -/
def ocfs2TryToMergeExtentMap (emi ins : Ocfs2ExtentMapItem) : Option Ocfs2ExtentMapItem :=
  if ins.eiPhys = (emi.eiPhys + emi.eiClusters) % 2 ^ 32 ∧
      ins.eiCpos = (emi.eiCpos + emi.eiClusters) % 2 ^ 32 ∧ ins.eiFlags = emi.eiFlags then
    some { emi with eiClusters := (emi.eiClusters + ins.eiClusters) % 2 ^ 32 }
  else if (ins.eiPhys + ins.eiClusters) % 2 ^ 32 = emi.eiPhys ∧
      (ins.eiCpos + ins.eiClusters) % 2 ^ 32 = emi.eiCpos ∧ ins.eiFlags = emi.eiFlags then
    some { emi with
      eiPhys := ins.eiPhys
      eiCpos := ins.eiCpos
      eiClusters := (emi.eiClusters + ins.eiClusters) % 2 ^ 32 }
  -- `ocfs2_copy_emi_fields`: the record that came last wins.
  else if ocfs2EiIsContained emi ins ∨ ocfs2EiIsContained ins emi then some ins
  else none

/-- The loop of `ocfs2_extent_map_insert_rec`: the item that was merged, and the others. -/
def mergeItems (ins : Ocfs2ExtentMapItem) : List Ocfs2ExtentMapItem →
    Option (Ocfs2ExtentMapItem × List Ocfs2ExtentMapItem)
  | [] => none
  | emi :: items =>
      match ocfs2TryToMergeExtentMap emi ins with
      | some merged => some (merged, items)
      | none => (mergeItems ins items).map fun (merged, items) => (merged, emi :: items)

section Code

variable [ExtentMapHeaders]

open ExtentMapHeaders

def Ocfs2ExtentRec.ins (rec : Ocfs2ExtentRec) : Ocfs2ExtentMapItem :=
  ⟨rec.eCpos, (ocfs2BlocksToClusters rec.eBlkno).toNat, rec.eLeafClusters, rec.eFlags⟩

/-- `ocfs2_extent_map_insert_rec`; `allocated` says whether `kmalloc` has a new item. -/
def ocfs2ExtentMapInsertRec (em : Ocfs2ExtentMap) (rec : Ocfs2ExtentRec) (allocated : Bool) :
    Option Ocfs2ExtentMap :=
  match mergeItems rec.ins em.emList with
  | some (merged, items) => some { em with emList := merged :: items }
  | none =>
      if em.emNumItems < ocfs2MaxExtentMapItems then
        -- The second search behind `kmalloc` goes through the same list.
        if allocated then some ⟨em.emNumItems + 1, rec.ins :: em.emList⟩ else some em
      else
        bugOn (em.emList = [] ∨ em.emNumItems = 0) <|
          some { em with emList := rec.ins :: em.emList.dropLast }

/-- `ocfs2_search_extent_list`, over the records of all leaves. -/
def ocfs2SearchExtentList (recs : List Ocfs2ExtentRec) (vCluster : Nat) : Option Ocfs2ExtentRec :=
  recs.find? fun rec =>
    rec.eCpos ≤ vCluster ∧ vCluster < (rec.eCpos + rec.eLeafClusters) % 2 ^ 32

/-- `ocfs2_figure_hole_clusters`. -/
def ocfs2FigureHoleClusters (recs : List Ocfs2ExtentRec) (vCluster : Nat) : Nat :=
  match recs.find? fun rec => vCluster < rec.eCpos with
  | none => 2 ^ 32 - 1 - vCluster
  | some rec => rec.eCpos - vCluster

inductive Errno where
  | erange
  | eio
  | erofs
deriving DecidableEq

/-- `ocfs2_get_clusters_nocache`: a record and the length of a hole; `read` says whether the
blocks of the tree can be read. -/
def ocfs2GetClustersNocache (recs : List Ocfs2ExtentRec) (vCluster : Nat) (read : Bool) :
    Option (Except Errno (Ocfs2ExtentRec × Nat)) :=
  if read then
    match ocfs2SearchExtentList recs vCluster with
    | none => some (.ok (⟨0, 0, 0, 0⟩, ocfs2FigureHoleClusters recs vCluster))
    | some rec =>
        bugOn (vCluster < rec.eCpos) <|
          some (if rec.eBlkno = 0 then .error .erofs else .ok (rec, 0))
  else some (.error .eio)

/-- `ocfs2_relative_extent_offsets`. -/
def ocfs2RelativeExtentOffsets (vCluster : Nat) (rec : Ocfs2ExtentRec) : Nat × Nat :=
  let coff := vCluster - rec.eCpos
  (((ocfs2BlocksToClusters rec.eBlkno).toNat + coff) % 2 ^ 32, rec.eLeafClusters - coff)

/-- What `ocfs2_get_clusters` tells its caller: a hole has cluster 0. -/
inductive Clusters where
  | hole (numClusters : Nat)
  | mapped (pCluster numClusters extentFlags : Nat)
deriving DecidableEq

/-- The part of an inode that the cache is about, with the records of its tree in order. -/
structure Ocfs2Inode where
  inlineData : Bool
  iList : List Ocfs2ExtentRec
  ipExtentMap : Ocfs2ExtentMap
deriving DecidableEq

/-- `ocfs2_get_clusters`. -/
def ocfs2GetClusters (inode : Ocfs2Inode) (vCluster : Nat) (read allocated : Bool) :
    Option (Except Errno Clusters × Ocfs2ExtentMap) :=
  if inode.inlineData then some (.error .erange, inode.ipExtentMap)
  else match ocfs2ExtentMapLookup inode.ipExtentMap vCluster with
    | some ((phys, len, flags), em) => some (.ok (.mapped phys len flags), em)
    | none =>
        (ocfs2GetClustersNocache inode.iList vCluster read).bind fun
          | .error errno => some (.error errno, inode.ipExtentMap)
          | .ok (rec, holeLen) =>
              if rec.eBlkno = 0 then some (.ok (.hole holeLen), inode.ipExtentMap)
              else
                let (pCluster, numClusters) := ocfs2RelativeExtentOffsets vCluster rec
                (ocfs2ExtentMapInsertRec inode.ipExtentMap rec allocated).map fun em =>
                  (.ok (.mapped pCluster numClusters rec.eFlags), em)

end Code

/-! ## What the tree says -/

/-- The records of a tree are in order, end below `2 ^ 32` and have blocks. A leaf may begin
with an empty record, which is all zero. -/
structure TreeOk (recs : List Ocfs2ExtentRec) : Prop where
  sorted : recs.Pairwise fun rec next =>
    0 < next.eLeafClusters → rec.eCpos + rec.eLeafClusters ≤ next.eCpos
  bounded : ∀ rec ∈ recs, rec.eCpos + rec.eLeafClusters < 2 ^ 32
  blocks : ∀ rec ∈ recs, 0 < rec.eLeafClusters → rec.eBlkno ≠ 0
  empty : ∀ rec ∈ recs, rec.eLeafClusters = 0 → rec.eCpos = 0

theorem TreeOk.tail {rec : Ocfs2ExtentRec} {recs : List Ocfs2ExtentRec}
    (ok : TreeOk (rec :: recs)) : TreeOk recs where
  sorted := (List.pairwise_cons.1 ok.sorted).2
  bounded := fun other mem => ok.bounded other (List.mem_cons_of_mem _ mem)
  blocks := fun other mem => ok.blocks other (List.mem_cons_of_mem _ mem)
  empty := fun other mem => ok.empty other (List.mem_cons_of_mem _ mem)

theorem TreeOk.before {rec other : Ocfs2ExtentRec} {recs : List Ocfs2ExtentRec}
    (ok : TreeOk (rec :: recs)) (mem : other ∈ recs) (clusters : 0 < other.eLeafClusters) :
    rec.eCpos + rec.eLeafClusters ≤ other.eCpos :=
  (List.pairwise_cons.1 ok.sorted).1 other mem clusters

theorem search_some {recs : List Ocfs2ExtentRec} {vCluster : Nat} {rec : Ocfs2ExtentRec}
    (ok : TreeOk recs) (found : ocfs2SearchExtentList recs vCluster = some rec) :
    rec ∈ recs ∧ rec.eCpos ≤ vCluster ∧ vCluster < rec.eCpos + rec.eLeafClusters := by
  have mem := List.mem_of_find?_eq_some found
  have holds := List.find?_some found
  rw [decide_eq_true_eq, Nat.mod_eq_of_lt (ok.bounded rec mem)] at holds
  exact ⟨mem, holds⟩

/-- The records do not overlap: the search finds the only one that has the cluster. -/
theorem search_of_mem {recs : List Ocfs2ExtentRec} {vCluster : Nat} {rec : Ocfs2ExtentRec}
    (ok : TreeOk recs) (mem : rec ∈ recs) (start : rec.eCpos ≤ vCluster)
    (below : vCluster < rec.eCpos + rec.eLeafClusters) :
    ocfs2SearchExtentList recs vCluster = some rec := by
  induction recs with
  | nil => simp at mem
  | cons head recs inductionHypothesis =>
      have range := Nat.mod_eq_of_lt (ok.bounded head List.mem_cons_self)
      rw [ocfs2SearchExtentList, List.find?_cons, range]
      rcases List.mem_cons.1 mem with rfl | mem
      · rw [decide_eq_true ⟨start, below⟩]
      · have order := ok.before mem (by omega)
        rw [decide_eq_false (by omega)]
        exact inductionHypothesis ok.tail mem

/-- A hole is as long as `ocfs2_figure_hole_clusters` says. -/
theorem search_hole {recs : List Ocfs2ExtentRec} {vCluster k : Nat} (ok : TreeOk recs)
    (hole : ocfs2SearchExtentList recs vCluster = none)
    (inside : k < ocfs2FigureHoleClusters recs vCluster) :
    ocfs2SearchExtentList recs (vCluster + k) = none := by
  induction recs with
  | nil => rfl
  | cons rec recs inductionHypothesis =>
      have range := Nat.mod_eq_of_lt (ok.bounded rec List.mem_cons_self)
      simp only [ocfs2SearchExtentList, List.find?_eq_none, decide_eq_true_eq] at hole ⊢
      have outside := hole rec List.mem_cons_self
      rw [range] at outside
      intro other mem
      rw [Nat.mod_eq_of_lt (ok.bounded other mem)]
      by_cases before : vCluster < rec.eCpos
      · -- The hole ends where this record begins; all others are behind it or empty.
        have ends : k < rec.eCpos - vCluster := by
          simpa [ocfs2FigureHoleClusters, before] using inside
        rcases List.mem_cons.1 mem with rfl | mem
        · omega
        · rcases Nat.eq_zero_or_pos other.eLeafClusters with none | clusters
          · have zero := ok.tail.empty other mem none
            omega
          · have order := ok.before mem clusters
            omega
      · rcases List.mem_cons.1 mem with rfl | mem
        · omega
        · have rest := inductionHypothesis ok.tail
            (List.find?_eq_none.2 fun other mem => by
              simpa using hole other (List.mem_cons_of_mem _ mem))
            (by simpa [ocfs2FigureHoleClusters, before] using inside)
          have outsideRest := List.find?_eq_none.1 rest other mem
          rw [Nat.mod_eq_of_lt (ok.tail.bounded other mem)] at outsideRest
          simpa using outsideRest

/-! ## The items of the cache -/

/-- The item at the head holds the cluster and is one of the cache. -/
theorem extentMapLookup_some {em moved : Ocfs2ExtentMap} {emi : Ocfs2ExtentMapItem}
    {cpos : Nat} (found : extentMapLookup em cpos = some (emi, moved)) :
    emi ∈ em.emList ∧ emi.eiCpos ≤ cpos ∧ cpos < emi.range ∧
      moved.emNumItems = em.emNumItems ∧ moved.emList.Perm em.emList := by
  obtain ⟨item, first, same⟩ := Option.map_eq_some_iff.1 found
  cases same
  have mem := List.mem_of_find?_eq_some first
  have holds := List.find?_some first
  rw [decide_eq_true_eq] at holds
  exact ⟨mem, holds.1, holds.2, rfl, (List.perm_cons_erase mem).symm⟩

section Cache

variable [ExtentMapHeaders]

open ExtentMapHeaders

/-- Where the tree has a cluster of the file, and with which flags. -/
def mapping (recs : List Ocfs2ExtentRec) (vCluster : Nat) : Option (Nat × Nat) :=
  (ocfs2SearchExtentList recs vCluster).map fun rec =>
    ((ocfs2RelativeExtentOffsets vCluster rec).1, rec.eFlags)

/-- An item says what the tree says, on all of its clusters. -/
structure Ocfs2ExtentMapItem.Sound (emi : Ocfs2ExtentMapItem) (recs : List Ocfs2ExtentRec) :
    Prop where
  bounded : emi.eiCpos + emi.eiClusters < 2 ^ 32
  agrees : ∀ k < emi.eiClusters,
    mapping recs (emi.eiCpos + k) = some ((emi.eiPhys + k) % 2 ^ 32, emi.eiFlags)

variable {recs recs' : List Ocfs2ExtentRec} {emi ins : Ocfs2ExtentMapItem}

theorem Ocfs2ExtentMapItem.Sound.range_eq (sound : emi.Sound recs) :
    emi.range = emi.eiCpos + emi.eiClusters :=
  Nat.mod_eq_of_lt sound.bounded

theorem sound_of_mem {rec : Ocfs2ExtentRec} (ok : TreeOk recs) (mem : rec ∈ recs) :
    rec.ins.Sound recs where
  bounded := ok.bounded rec mem
  agrees := by
    intro k inside
    have found : ocfs2SearchExtentList recs (rec.eCpos + k) = some rec :=
      search_of_mem ok mem (Nat.le_add_right _ _) (Nat.add_lt_add_left inside _)
    simp [mapping, Ocfs2ExtentRec.ins, found, ocfs2RelativeExtentOffsets]

/-- Two items that touch in the file and on disk are one item. -/
theorem Ocfs2ExtentMapItem.Sound.append (first : emi.Sound recs) (second : ins.Sound recs)
    (phys : ins.eiPhys % 2 ^ 32 = (emi.eiPhys + emi.eiClusters) % 2 ^ 32)
    (cpos : ins.eiCpos = emi.eiCpos + emi.eiClusters) (flags : ins.eiFlags = emi.eiFlags) :
    Sound ⟨emi.eiCpos, emi.eiPhys, (emi.eiClusters + ins.eiClusters) % 2 ^ 32, emi.eiFlags⟩
      recs := by
  have firstBound := first.bounded
  have secondBound := second.bounded
  have total : (emi.eiClusters + ins.eiClusters) % 2 ^ 32 = emi.eiClusters + ins.eiClusters :=
    Nat.mod_eq_of_lt (by omega)
  rw [total]
  refine ⟨by simp only; omega, fun k inside => ?_⟩
  simp only at inside ⊢
  by_cases early : k < emi.eiClusters
  · exact first.agrees k early
  · obtain ⟨j, rfl⟩ := Nat.exists_eq_add_of_le (Nat.le_of_not_lt early)
    have late := second.agrees j (by omega)
    rw [cpos, flags, Nat.add_assoc] at late
    rw [late]
    congr 2
    omega

theorem Ocfs2ExtentMapItem.Sound.merge {merged : Ocfs2ExtentMapItem} (sound : emi.Sound recs)
    (insSound : ins.Sound recs) (eq : ocfs2TryToMergeExtentMap emi ins = some merged) :
    merged.Sound recs := by
  have range := sound.range_eq
  have insRange := insSound.range_eq
  simp only [Ocfs2ExtentMapItem.range] at range insRange
  simp only [ocfs2TryToMergeExtentMap, range, insRange] at eq
  split at eq
  · next follows =>
      cases eq
      exact sound.append insSound (by rw [follows.1, Nat.mod_mod]) follows.2.1 follows.2.2
  · split at eq
    · next leads =>
        cases eq
        have joined := insSound.append sound (by rw [← leads.1, Nat.mod_mod]) leads.2.1.symm
          leads.2.2.symm
        rwa [Nat.add_comm ins.eiClusters, leads.2.2] at joined
    · split at eq
      · cases eq
        exact insSound
      · cases eq

theorem mergeItems_sound {items rest : List Ocfs2ExtentMapItem} {merged : Ocfs2ExtentMapItem}
    (sound : ∀ emi ∈ items, emi.Sound recs) (insSound : ins.Sound recs)
    (eq : mergeItems ins items = some (merged, rest)) :
    (∀ emi ∈ merged :: rest, emi.Sound recs) ∧ (merged :: rest).length = items.length := by
  induction items generalizing rest with
  | nil => cases eq
  | cons emi items inductionHypothesis =>
      obtain ⟨head, tail⟩ := List.forall_mem_cons.1 sound
      rw [mergeItems] at eq
      split at eq
      · next merges =>
          cases eq
          exact ⟨List.forall_mem_cons.2 ⟨head.merge insSound merges, tail⟩, rfl⟩
      · obtain ⟨⟨found, others⟩, later, same⟩ := Option.map_eq_some_iff.1 eq
        cases same
        obtain ⟨laterSound, length⟩ := inductionHypothesis tail later
        obtain ⟨mergedSound, othersSound⟩ := List.forall_mem_cons.1 laterSound
        refine ⟨List.forall_mem_cons.2 ⟨mergedSound,
          List.forall_mem_cons.2 ⟨head, othersSound⟩⟩, ?_⟩
        simpa using length

theorem Ocfs2ExtentMapItem.Sound.mono (sound : emi.Sound recs)
    (keeps : ∀ v < emi.eiCpos + emi.eiClusters, ∀ place,
      mapping recs v = some place → mapping recs' v = some place) : emi.Sound recs' where
  bounded := sound.bounded
  agrees := fun k inside => keeps _ (by omega) _ (sound.agrees k inside)

/-- What `ocfs2_extent_map_trunc` leaves of an item lies below `cpos`. -/
theorem Ocfs2ExtentMapItem.Sound.cut {cpos : Nat} (sound : emi.Sound recs)
    (starts : ¬ cpos ≤ emi.eiCpos)
    (keeps : ∀ v < cpos, ∀ place, mapping recs v = some place → mapping recs' v = some place) :
    (if cpos < emi.range then { emi with eiClusters := cpos - emi.eiCpos } else emi).Sound
      recs' := by
  have bounded := sound.bounded
  rw [sound.range_eq]
  split
  · next partly =>
      refine ⟨by simp only; omega, fun k inside => ?_⟩
      simp only at inside ⊢
      exact keeps _ (by omega) _ (sound.agrees k (by omega))
  · next whole => exact sound.mono fun v below => keeps v (by omega)

theorem truncItems_sound {cpos numItems : Nat} {items : List Ocfs2ExtentMapItem}
    (sound : ∀ emi ∈ items, emi.Sound recs) (counted : items.length ≤ numItems)
    (keeps : ∀ v < cpos, ∀ place, mapping recs v = some place → mapping recs' v = some place) :
    ∃ em, truncItems cpos items numItems = some em ∧ (∀ emi ∈ em.emList, emi.Sound recs') ∧
      em.emNumItems + items.length = numItems + em.emList.length ∧ em.emNumItems ≤ numItems := by
  induction items generalizing numItems with
  | nil => exact ⟨_, rfl, by simp, rfl, le_rfl⟩
  | cons emi items inductionHypothesis =>
      obtain ⟨head, tail⟩ := List.forall_mem_cons.1 sound
      rw [List.length_cons] at counted ⊢
      rw [truncItems]
      split
      · obtain ⟨em, eq, emSound, count, small⟩ :=
          inductionHypothesis tail (Nat.le_sub_one_of_lt counted)
        exact ⟨em, bugOn_eq_some.2 ⟨by omega, eq⟩, emSound, by omega, by omega⟩
      · next starts =>
          obtain ⟨em, eq, emSound, count, small⟩ :=
            inductionHypothesis tail (Nat.le_of_succ_le counted)
          refine ⟨_, Option.map_eq_some_iff.2 ⟨em, eq, rfl⟩,
            List.forall_mem_cons.2 ⟨head.cut starts keeps, emSound⟩, ?_, small⟩
          simp only [List.length_cons]
          omega

/-! ## Runs

The one rule of `ocfs2_extent_map_insert_rec`: who deletes records truncates the cache. -/

/-- The cache says what the tree says, and counts its items. -/
structure Ocfs2Inode.Coherent (inode : Ocfs2Inode) : Prop where
  tree : TreeOk inode.iList
  sound : ∀ emi ∈ inode.ipExtentMap.emList, emi.Sound inode.iList
  counted : inode.ipExtentMap.emNumItems = inode.ipExtentMap.emList.length
  small : inode.ipExtentMap.emNumItems ≤ ocfs2MaxExtentMapItems

/-- What a caller of `ocfs2_get_clusters` may rely on. -/
def Answers (inode : Ocfs2Inode) (vCluster : Nat) (read : Bool) : Except Errno Clusters → Prop
  | .error .erange => inode.inlineData = true
  | .error .eio => read = false
  | .error .erofs => False
  | .ok (.hole numClusters) =>
      mapping inode.iList vCluster = none ∧
        ∀ k < numClusters, mapping inode.iList (vCluster + k) = none
  | .ok (.mapped pCluster numClusters extentFlags) =>
      pCluster < 2 ^ 32 ∧ 0 < numClusters ∧ ∀ k < numClusters,
        mapping inode.iList (vCluster + k) = some ((pCluster + k) % 2 ^ 32, extentFlags)

inductive ExtentMapEvent where
  | get (vCluster : Nat) (read allocated : Bool)
  | insert (rec : Ocfs2ExtentRec) (allocated : Bool)
  | trunc (cpos : Nat)
deriving DecidableEq

/-- A read; a tree that has more clusters than before, with one of its extents inserted; a
tree that is another from `cpos` on, with the cache truncated there. -/
inductive ExtentMapStep : Ocfs2Inode → ExtentMapEvent → Ocfs2Inode → Prop where
  | get {inode : Ocfs2Inode} {vCluster : Nat} {read allocated : Bool}
      {answer : Except Errno Clusters} {em : Ocfs2ExtentMap} :
      ocfs2GetClusters inode vCluster read allocated = some (answer, em) →
      ExtentMapStep inode (.get vCluster read allocated) { inode with ipExtentMap := em }
  | insert {inode : Ocfs2Inode} {tree : List Ocfs2ExtentRec} {rec : Ocfs2ExtentRec}
      {allocated : Bool} {em : Ocfs2ExtentMap} :
      TreeOk tree →
      (∀ v place, mapping inode.iList v = some place → mapping tree v = some place) →
      rec.ins.Sound tree →
      ocfs2ExtentMapInsertRec inode.ipExtentMap rec allocated = some em →
      ExtentMapStep inode (.insert rec allocated) ⟨inode.inlineData, tree, em⟩
  | trunc {inode : Ocfs2Inode} {tree : List Ocfs2ExtentRec} {cpos : Nat} {em : Ocfs2ExtentMap} :
      TreeOk tree →
      (∀ v < cpos, ∀ place, mapping inode.iList v = some place → mapping tree v = some place) →
      ocfs2ExtentMapTrunc inode.ipExtentMap cpos = some em →
      ExtentMapStep inode (.trunc cpos) ⟨inode.inlineData, tree, em⟩

variable {inode : Ocfs2Inode}

theorem Ocfs2Inode.Coherent.lookup {vCluster phys len flags : Nat} {em : Ocfs2ExtentMap}
    (coherent : inode.Coherent) (read : Bool)
    (found : ocfs2ExtentMapLookup inode.ipExtentMap vCluster = some ((phys, len, flags), em)) :
    Answers inode vCluster read (.ok (.mapped phys len flags)) ∧
      Coherent { inode with ipExtentMap := em } := by
  obtain ⟨⟨emi, moved⟩, first, same⟩ := Option.map_eq_some_iff.1 found
  cases same
  obtain ⟨mem, start, below, count, perm⟩ := extentMapLookup_some first
  have sound := coherent.sound emi mem
  rw [sound.range_eq] at below
  refine ⟨⟨Nat.mod_lt _ (by decide), by omega, fun k inside => ?_⟩, coherent.tree, ?_, ?_, ?_⟩
  · have place := sound.agrees (vCluster - emi.eiCpos + k) (by omega)
    rw [← Nat.add_assoc, Nat.add_sub_cancel' start] at place
    rw [place]
    congr 2
    omega
  · exact fun other otherMem => coherent.sound other (perm.mem_iff.1 otherMem)
  · simp only [count, perm.length_eq, coherent.counted]
  · exact count ▸ coherent.small

theorem Ocfs2Inode.Coherent.insert {rec : Ocfs2ExtentRec} (coherent : inode.Coherent)
    (sound : rec.ins.Sound inode.iList) (allocated : Bool) :
    ∃ em, ocfs2ExtentMapInsertRec inode.ipExtentMap rec allocated = some em ∧
      Coherent { inode with ipExtentMap := em } := by
  have counted := coherent.counted
  have small := coherent.small
  rw [ocfs2ExtentMapInsertRec]
  split
  · next merged items eq =>
      obtain ⟨mergedSound, length⟩ := mergeItems_sound coherent.sound sound eq
      exact ⟨_, rfl, coherent.tree, mergedSound, counted.trans length.symm, small⟩
  · split
    · next free =>
        cases allocated
        · exact ⟨_, rfl, coherent⟩
        · exact ⟨_, rfl, coherent.tree, List.forall_mem_cons.2 ⟨sound, coherent.sound⟩,
            congrArg (· + 1) counted, free⟩
    · next full =>
        have room := room
        have items : 0 < inode.ipExtentMap.emList.length := by omega
        refine ⟨_, bugOn_eq_some.2 ⟨?_, rfl⟩, coherent.tree, ?_, ?_, small⟩
        · rintro (empty | zero)
          · exact List.length_pos_iff.1 items empty
          · omega
        · exact List.forall_mem_cons.2
            ⟨sound, fun emi mem => coherent.sound emi (List.mem_of_mem_dropLast mem)⟩
        · simp only [List.length_cons, List.length_dropLast]
          omega

theorem Ocfs2Inode.Coherent.trunc {tree : List Ocfs2ExtentRec} {cpos : Nat}
    (coherent : inode.Coherent) (ok : TreeOk tree)
    (keeps : ∀ v < cpos, ∀ place,
      mapping inode.iList v = some place → mapping tree v = some place) :
    ∃ em, ocfs2ExtentMapTrunc inode.ipExtentMap cpos = some em ∧
      Coherent ⟨inode.inlineData, tree, em⟩ := by
  obtain ⟨em, eq, sound, count, small⟩ :=
    truncItems_sound coherent.sound coherent.counted.ge keeps
  have counted := coherent.counted
  exact ⟨em, eq, ok, sound, by simp only; omega, small.trans coherent.small⟩

/-- A tree that has more clusters than before keeps the cache coherent. -/
theorem Ocfs2Inode.Coherent.grow {tree : List Ocfs2ExtentRec} (coherent : inode.Coherent)
    (ok : TreeOk tree)
    (keeps : ∀ v place, mapping inode.iList v = some place → mapping tree v = some place) :
    Coherent { inode with iList := tree } where
  tree := ok
  sound := fun emi mem => (coherent.sound emi mem).mono fun v _ => keeps v
  counted := coherent.counted
  small := coherent.small

/-- The tree is asked, and its record goes into the cache. -/
theorem Ocfs2Inode.Coherent.get (coherent : inode.Coherent) (vCluster : Nat)
    (read allocated : Bool) :
    ∃ answer em, ocfs2GetClusters inode vCluster read allocated = some (answer, em) ∧
      Answers inode vCluster read answer ∧ Coherent { inode with ipExtentMap := em } := by
  rw [ocfs2GetClusters]
  split
  · next inlined => exact ⟨_, _, rfl, inlined, coherent⟩
  · split
    · next found =>
        obtain ⟨answers, after⟩ := coherent.lookup read found
        exact ⟨_, _, rfl, answers, after⟩
    · cases read with
      | false => exact ⟨_, _, rfl, rfl, coherent⟩
      | true =>
          cases found : ocfs2SearchExtentList inode.iList vCluster with
          | none =>
              refine ⟨_, _, by simp [ocfs2GetClustersNocache, found]; rfl, ?_, coherent⟩
              refine ⟨by simp [mapping, found], fun k inside => ?_⟩
              simp [mapping, search_hole coherent.tree found inside]
          | some rec =>
              obtain ⟨mem, start, below⟩ := search_some coherent.tree found
              have blocks := coherent.tree.blocks rec mem (by omega)
              have sound := sound_of_mem coherent.tree mem
              obtain ⟨em, eq, after⟩ := coherent.insert sound allocated
              refine ⟨.ok (.mapped (ocfs2RelativeExtentOffsets vCluster rec).1
                (ocfs2RelativeExtentOffsets vCluster rec).2 rec.eFlags), em, ?_, ⟨?_, ?_, ?_⟩, after⟩
              · simp [ocfs2GetClustersNocache, found, bugOn, Nat.not_lt.2 start, blocks, eq]
              · exact Nat.mod_lt _ (by decide)
              · simp only [ocfs2RelativeExtentOffsets]
                omega
              · intro k inside
                simp only [ocfs2RelativeExtentOffsets] at inside ⊢
                have place : mapping inode.iList (rec.eCpos + (vCluster - rec.eCpos + k)) = _ :=
                  sound.agrees (vCluster - rec.eCpos + k) (by simp only [Ocfs2ExtentRec.ins]; omega)
                rw [← Nat.add_assoc, Nat.add_sub_cancel' start] at place
                rw [place]
                simp only [Ocfs2ExtentRec.ins]
                congr 2
                omega

theorem Ocfs2Inode.Coherent.step {event : ExtentMapEvent} {after : Ocfs2Inode}
    (coherent : inode.Coherent) (step : ExtentMapStep inode event after) : after.Coherent := by
  cases step with
  | get eq =>
      obtain ⟨answer, em, same, -, kept⟩ := coherent.get _ _ _
      cases same.symm.trans eq
      exact kept
  | insert ok keeps sound eq =>
      obtain ⟨em, same, kept⟩ := (coherent.grow ok keeps).insert sound _
      cases same.symm.trans eq
      exact kept
  | trunc ok keeps eq =>
      obtain ⟨em, same, kept⟩ := coherent.trunc ok keeps
      cases same.symm.trans eq
      exact kept

theorem Ocfs2Inode.coherent_of_run {inlineData : Bool} {tree : List Ocfs2ExtentRec}
    {events : List ExtentMapEvent} (ok : TreeOk tree)
    (run : Run ExtentMapStep ⟨inlineData, tree, ocfs2ExtentMapInit⟩ events inode) :
    inode.Coherent :=
  run.invariant Ocfs2Inode.Coherent ⟨ok, by simp [ocfs2ExtentMapInit], rfl, Nat.zero_le _⟩
    fun _ _ _ coherent step => coherent.step step

/-- Behind every run from an empty cache, `ocfs2_get_clusters` tells what the tree says, no
`BUG_ON` of the cache fires, whatever extent is inserted and wherever the cache is truncated
next, and the cache has no more items than there is room for. -/
theorem ocfs2GetClusters_tells_tree {inlineData : Bool} {tree : List Ocfs2ExtentRec}
    {events : List ExtentMapEvent} (ok : TreeOk tree)
    (run : Run ExtentMapStep ⟨inlineData, tree, ocfs2ExtentMapInit⟩ events inode) :
    (∀ vCluster read allocated, ∃ answer em,
      ocfs2GetClusters inode vCluster read allocated = some (answer, em) ∧
        Answers inode vCluster read answer) ∧
    (∀ rec : Ocfs2ExtentRec, rec.ins.Sound inode.iList → ∀ allocated,
      (ocfs2ExtentMapInsertRec inode.ipExtentMap rec allocated).isSome) ∧
    (∀ cpos, (ocfs2ExtentMapTrunc inode.ipExtentMap cpos).isSome) ∧
    inode.ipExtentMap.emList.length ≤ ocfs2MaxExtentMapItems := by
  have coherent := Ocfs2Inode.coherent_of_run ok run
  refine ⟨fun vCluster read allocated => ?_, fun rec sound allocated => ?_, fun cpos => ?_,
    coherent.counted ▸ coherent.small⟩
  · obtain ⟨answer, em, eq, answers, -⟩ := coherent.get vCluster read allocated
    exact ⟨answer, em, eq, answers⟩
  · obtain ⟨em, eq, -⟩ := coherent.insert sound allocated
    exact Option.isSome_of_eq_some eq
  · obtain ⟨em, eq, -⟩ := coherent.trunc coherent.tree fun v (_ : v < cpos) _ same => same
    exact Option.isSome_of_eq_some eq

end Cache

section Sample

/-- Blocks of 512 bytes and clusters of 4 KiB. -/
@[reducible] def smallClusters : ExtentMapHeaders where
  ocfs2BlocksToClusters := fun blkno => BitVec.ofNat 32 (blkno / 8)
  ocfs2MaxExtentMapItems := 3
  room := by decide

attribute [local instance] smallClusters

/-- An empty record, two records that touch, and one behind a hole. -/
def holedTree : List Ocfs2ExtentRec :=
  [⟨0, 0, 0, 0⟩, ⟨0, 800, 4, 0⟩, ⟨4, 832, 4, 0⟩, ⟨10, 1600, 2, 1⟩]

def truncatedTree : List Ocfs2ExtentRec := [⟨0, 0, 0, 0⟩, ⟨0, 800, 4, 0⟩, ⟨4, 832, 2, 0⟩]

theorem holedTree_ok : TreeOk holedTree := ⟨by decide, by decide, by decide, by decide⟩

/-- The two records that touch are one item, and it is cut in the middle of the second. -/
theorem holedTree_truncated :
    Run ExtentMapStep ⟨false, holedTree, ocfs2ExtentMapInit⟩
      [.get 1 true true, .get 5 true true, .trunc 6]
      ⟨false, truncatedTree, ⟨1, [⟨0, 100, 6, 0⟩]⟩⟩ := by
  have same : ∀ v < 6, mapping holedTree v = mapping truncatedTree v := by decide
  have first : Run ExtentMapStep ⟨false, holedTree, ocfs2ExtentMapInit⟩ [.get 1 true true]
      ⟨false, holedTree, ⟨1, [⟨0, 100, 4, 0⟩]⟩⟩ :=
    .snoc .nil (.get (by decide : _ = some (.ok (.mapped 101 3 0), _)))
  have second : Run ExtentMapStep ⟨false, holedTree, ocfs2ExtentMapInit⟩
      [.get 1 true true, .get 5 true true] ⟨false, holedTree, ⟨1, [⟨0, 100, 8, 0⟩]⟩⟩ :=
    .snoc first (.get (by decide : _ = some (.ok (.mapped 105 3 0), _)))
  exact .snoc second (.trunc ⟨by decide, by decide, by decide, by decide⟩
    (fun v below place found => same v below ▸ found) (by decide))

theorem ocfs2GetClusters_tells_tree_truncated :
    TreeOk holedTree ∧ ∃ answer em,
      ocfs2GetClusters ⟨false, truncatedTree, ⟨1, [⟨0, 100, 6, 0⟩]⟩⟩ 3 true true =
          some (answer, em) ∧
        Answers ⟨false, truncatedTree, ⟨1, [⟨0, 100, 6, 0⟩]⟩⟩ 3 true answer :=
  ⟨holedTree_ok, (ocfs2GetClusters_tells_tree holedTree_ok holedTree_truncated).1 3 true true⟩

end Sample

end Ocfs2Coverage.Driver
