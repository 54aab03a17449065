import Ocfs2Coverage.Driver.FileBlocks

/-!
Contract: reading blocks of a file (`ocfs2_read_virt_blocks`).

Owns: the loop over the extents of a file, and that every buffer it fills is the block of the
disk that the tree has for it, behind every run of the extent cache.

Does not own: the input and output of `ocfs2_read_blocks`.
-/

namespace Ocfs2Coverage.Driver

open Ocfs2Coverage.Kernel
open Ocfs2Coverage.Runs
open ExtentMapHeaders ClusterHeaders

/-- The block numbers of the buffers behind `ocfs2_read_blocks`: only a buffer that was missing
takes a block and counts it. -/
def fillBuffers : Nat → List (Option Nat) → List Nat
  | _, [] => []
  | block, none :: bhs => block :: fillBuffers (block + 1) bhs
  | block, some given :: bhs => given :: fillBuffers block bhs

/-! ## Buffers -/

/-- The buffers are all there, or all missing. -/
def Uniform (bhs : List (Option Nat)) : Prop :=
  (∀ bh ∈ bhs, bh = none) ∨ ∀ bh ∈ bhs, bh ≠ none

theorem Uniform.of_subset {bhs part : List (Option Nat)} (uniform : Uniform bhs)
    (subset : part ⊆ bhs) : Uniform part :=
  uniform.imp (fun missing bh mem => missing bh (subset mem))
    fun there bh mem => there bh (subset mem)

@[simp] theorem length_fillBuffers (block : Nat) (bhs : List (Option Nat)) :
    (fillBuffers block bhs).length = bhs.length := by
  induction bhs generalizing block with
  | nil => rfl
  | cons bh bhs inductionHypothesis => cases bh <;> simp [fillBuffers, inductionHypothesis]

theorem fillBuffers_missing {block i b : Nat} {bhs : List (Option Nat)}
    (missing : ∀ bh ∈ bhs, bh = none) (filled : (fillBuffers block bhs)[i]? = some b) :
    b = block + i := by
  induction bhs generalizing block i with
  | nil => simp [fillBuffers] at filled
  | cons bh bhs inductionHypothesis =>
      obtain ⟨rfl, rest⟩ := List.forall_mem_cons.1 missing
      cases i with
      | zero => simpa [fillBuffers, eq_comm] using filled
      | succ i =>
          have next := inductionHypothesis rest (by simpa [fillBuffers] using filled)
          omega

theorem fillBuffers_there {block i b : Nat} {bhs : List (Option Nat)}
    (there : ∀ bh ∈ bhs, bh ≠ none) (filled : (fillBuffers block bhs)[i]? = some b) :
    bhs[i]? = some (some b) := by
  induction bhs generalizing i with
  | nil => simp [fillBuffers] at filled
  | cons bh bhs inductionHypothesis =>
      obtain ⟨head, rest⟩ := List.forall_mem_cons.1 there
      obtain ⟨given, rfl⟩ := Option.ne_none_iff_exists'.1 head
      cases i with
      | zero => simpa [fillBuffers] using filled
      | succ i => exact inductionHypothesis rest (by simpa [fillBuffers] using filled)

/-- A request for blocks that follow each other fills each buffer with its own block. -/
theorem fillBuffers_eq {block i b : Nat} {bhs : List (Option Nat)} (uniform : Uniform bhs)
    (right : ∀ i given, bhs[i]? = some (some given) → given = block + i)
    (filled : (fillBuffers block bhs)[i]? = some b) : b = block + i := by
  rcases uniform with missing | there
  · exact fillBuffers_missing missing filled
  · exact right i b (fillBuffers_there there filled)

-- A missing buffer behind one that is there would take the block of that one.
example : fillBuffers 10 [some 10, none] = [10, 10] := rfl

/-- Buffers that are there keep their blocks. -/
theorem map_fillBuffers_there {block : Nat} {bhs : List (Option Nat)}
    (there : ∀ bh ∈ bhs, bh ≠ none) : (fillBuffers block bhs).map some = bhs := by
  induction bhs with
  | nil => rfl
  | cons bh bhs inductionHypothesis =>
      obtain ⟨head, rest⟩ := List.forall_mem_cons.1 there
      obtain ⟨given, rfl⟩ := Option.ne_none_iff_exists'.1 head
      rw [fillBuffers, List.map_cons, inductionHypothesis rest]

/-- The buffers of a request that fails: `new_bh` puts and clears all of them, otherwise the
first `filled` have got their block. -/
def failBuffers (block filled : Nat) (bhs : List (Option Nat)) : List (Option Nat) :=
  if bhs.head? = some none then bhs.map fun _ => none
  else (fillBuffers block (bhs.take filled)).map some ++ bhs.drop filled

/-- A request that fails leaves the buffers as they were. -/
theorem failBuffers_eq {block filled : Nat} {bhs : List (Option Nat)} (uniform : Uniform bhs) :
    failBuffers block filled bhs = bhs := by
  rw [failBuffers]
  split
  · next new =>
      have missing : ∀ bh ∈ bhs, bh = none := by
        refine uniform.resolve_right fun there => ?_
        exact there none (List.mem_of_mem_head? new) rfl
      exact (List.map_congr_left fun bh mem => (missing bh mem).symm).trans (List.map_id' bhs)
  · next old =>
      rcases uniform with missing | there
      · cases bhs with
        | nil => simp [fillBuffers]
        | cons bh bhs => exact absurd (congrArg some (missing bh (by simp))) old
      · rw [map_fillBuffers_there fun bh mem => there bh (List.mem_of_mem_take mem),
          List.take_append_drop]

/-- `ocfs2_read_blocks`: its error and the buffers. A failure says how many buffers had got
their block; a readahead does not wait for the disk, and one that is out of memory goes on
with a missing buffer. -/
def ocfs2ReadBlocks (block : Nat) (bhs : List (Option Nat)) (readahead : Bool)
    (failure : Option (Errno × Nat)) : Option (Option Errno × List (Option Nat)) :=
  match failure with
  | none => some (none, (fillBuffers block bhs).map some)
  | some (errno, filled) =>
      bugOn (readahead = true) <| some (some errno, failBuffers block filled bhs)

/-- What a request for blocks that follow each other makes of its buffers. -/
structure Filled (block : Nat) (bhs : List (Option Nat)) (rc : Option Errno)
    (read : List (Option Nat)) : Prop where
  length : read.length = bhs.length
  own : ∀ (i b : Nat), read[i]? = some (some b) → b = block + i
  kept : ∀ (i b : Nat), bhs[i]? = some (some b) → read[i]? = some (some b)
  all : rc = none → ∀ bh ∈ read, bh ≠ none

theorem ocfs2ReadBlocks_spec {block : Nat} {bhs : List (Option Nat)} {readahead : Bool}
    {failure : Option (Errno × Nat)} (uniform : Uniform bhs)
    (right : ∀ i given, bhs[i]? = some (some given) → given = block + i)
    (memory : readahead = true → failure = none) :
    ∃ rc read, ocfs2ReadBlocks block bhs readahead failure = some (rc, read) ∧
      Filled block bhs rc read ∧ (rc ≠ none → failure ≠ none) := by
  cases failure with
  | none =>
      have own : ∀ (i b : Nat), ((fillBuffers block bhs).map some)[i]? = some (some b) →
          b = block + i := by
        intro i b found
        rw [List.getElem?_map] at found
        obtain ⟨filled, there, same⟩ := Option.map_eq_some_iff.1 found
        cases same
        exact fillBuffers_eq uniform right there
      refine ⟨none, _, rfl, ⟨by simp, own, fun i b given => ?_, fun _ bh mem => ?_⟩, by simp⟩
      · have inside : i < (fillBuffers block bhs).length := by
          simpa using (List.getElem?_eq_some_iff.1 given).1
        have filled : ((fillBuffers block bhs).map some)[i]? =
            some (some (fillBuffers block bhs)[i]) := by
          rw [List.getElem?_map, List.getElem?_eq_getElem inside, Option.map_some]
        rw [filled, own i _ filled, right i b given]
      · obtain ⟨b, -, rfl⟩ := List.mem_map.1 mem
        exact Option.some_ne_none b
  | some failed =>
      obtain ⟨errno, filled⟩ := failed
      have waits : ¬ readahead = true := fun ahead => by cases memory ahead
      refine ⟨some errno, bhs, ?_, ⟨rfl, right, fun _ _ given => given, by simp⟩, by simp⟩
      rw [ocfs2ReadBlocks, bugOn, if_neg waits, failBuffers_eq uniform]

/-! ## The loop -/

/-- What the memory and the disk do while one extent is read: whether the tree can be read,
whether the cache has a new item, and how `ocfs2_read_blocks` fails. -/
structure Outcome where
  read : Bool
  allocated : Bool
  failure : Option (Errno × Nat)

/-- What `ocfs2_read_virt_blocks` returns, and what it leaves of the buffers and the cache. -/
structure VirtRead where
  rc : Option Errno
  bhs : List (Option Nat)
  em : Ocfs2ExtentMap

section Reading

variable [ClusterHeaders]

/-- The loop of `ocfs2_read_virt_blocks` over the buffers that are left, given by their block
numbers; out of `fuel` it would not end. -/
def readVirtLoop (outcome : Nat → Outcome) (readahead : Bool) :
    Nat → Ocfs2Inode → Nat → List (Option Nat) → Option VirtRead
  | _, inode, _, [] => some ⟨none, [], inode.ipExtentMap⟩
  | 0, _, _, _ :: _ => none
  | fuel + 1, inode, vBlock, bh :: bhs =>
      let bhs := bh :: bhs
      let o := outcome vBlock
      (ocfs2ExtentMapGetBlocks inode vBlock o.read o.allocated).bind fun
        | (.error errno, em) => some ⟨some errno, bhs, em⟩
        | (.ok (pBlock, pCount, _), em) =>
            if pBlock = 0 then some ⟨some .eio, bhs, em⟩
            else
              let count := min bhs.length pCount
              bugOn ((bhs.take count).zipIdx.any fun (bh, i) => bh.any (· ≠ pBlock + i)) <|
                (ocfs2ReadBlocks pBlock (bhs.take count) readahead o.failure).bind fun
                  | (some errno, read) => some ⟨some errno, read ++ bhs.drop count, em⟩
                  | (none, read) =>
                      (readVirtLoop outcome readahead fuel { inode with ipExtentMap := em }
                        (vBlock + count) (bhs.drop count)).map fun r =>
                          { r with bhs := read ++ r.bhs }

/-- `ocfs2_read_virt_blocks`, whose sums wrap at `2 ^ 64`; a read beyond the end of the file
is fine for a readahead only, and leaves the buffers alone. -/
def ocfs2ReadVirtBlocks (outcome : Nat → Outcome) (inode : Ocfs2Inode)
    (blocksizeBits iSize vBlock : Nat) (bhs : List (Option Nat)) (readahead : Bool) :
    Option VirtRead :=
  let last := (vBlock + bhs.length + (2 ^ 64 - 1)) % 2 ^ 64
  if iSize ≤ last * 2 ^ blocksizeBits % 2 ^ 64 then
    bugOn (readahead = false) <| some ⟨none, bhs, inode.ipExtentMap⟩
  else readVirtLoop outcome readahead bhs.length inode vBlock bhs

/-! ## What is read -/

/-- The buffers that the caller has are those of the blocks that the tree has. -/
def GivenRight (recs : List Ocfs2ExtentRec) (vBlock : Nat) (bhs : List (Option Nat)) : Prop :=
  ∀ i given, bhs[i]? = some (some given) →
    ∃ extentFlags, blockMapping recs (vBlock + i) = some (given, extentFlags)

/-- The buffers that are there are those of the file, those that were there stay, and all are
there behind a success. -/
structure BuffersRight (recs : List Ocfs2ExtentRec) (vBlock : Nat)
    (before : List (Option Nat)) (rc : Option Errno) (bhs : List (Option Nat)) : Prop where
  length : bhs.length = before.length
  right : GivenRight recs vBlock bhs
  kept : ∀ (i b : Nat), before[i]? = some (some b) → bhs[i]? = some (some b)
  all : rc = none → ∀ bh ∈ bhs, bh ≠ none

/-- Why `nr` blocks cannot all be read. -/
def Reason (outcome : Nat → Outcome) (inode : Ocfs2Inode) (vBlock nr : Nat) : Prop :=
  inode.inlineData = true ∨ ∃ i < nr,
    blockMapping inode.iList (vBlock + i) = none ∨ (outcome (vBlock + i)).read = false ∨
      (outcome (vBlock + i)).failure ≠ none

/-- What a caller of the loop may rely on. -/
structure VirtAnswers (outcome : Nat → Outcome) (inode : Ocfs2Inode) (vBlock : Nat)
    (bhs : List (Option Nat)) (r : VirtRead) : Prop where
  buffers : BuffersRight inode.iList vBlock bhs r.rc r.bhs
  reason : r.rc ≠ none → Reason outcome inode vBlock bhs.length

variable {outcome : Nat → Outcome} {inode : Ocfs2Inode} {vBlock : Nat} {bhs : List (Option Nat)}

theorem GivenRight.drop (right : GivenRight inode.iList vBlock bhs) (count : Nat) :
    GivenRight inode.iList (vBlock + count) (bhs.drop count) := by
  intro i given found
  rw [List.getElem?_drop] at found
  rw [Nat.add_assoc]
  exact right _ given found

/-- Within one extent the buffers of the caller are numbered as the extent is. -/
theorem GivenRight.extent {pBlock count extentFlags : Nat}
    (right : GivenRight inode.iList vBlock bhs)
    (follows : ∀ k < count,
      blockMapping inode.iList (vBlock + k) = some (pBlock + k, extentFlags))
    {i given : Nat} (found : (bhs.take count)[i]? = some (some given)) : given = pBlock + i := by
  obtain ⟨inside, found⟩ : i < count ∧ bhs[i]? = some (some given) := by
    rw [List.getElem?_take] at found
    split at found
    · next inside => exact ⟨inside, found⟩
    · cases found
  obtain ⟨flags, place⟩ := right i given found
  rw [follows i inside] at place
  cases place
  rfl

theorem GivenRight.no_bug {pBlock count extentFlags : Nat}
    (right : GivenRight inode.iList vBlock bhs)
    (follows : ∀ k < count,
      blockMapping inode.iList (vBlock + k) = some (pBlock + k, extentFlags)) :
    ¬ ((bhs.take count).zipIdx.any fun (bh, i) => bh.any (· ≠ pBlock + i)) = true := by
  rw [List.any_eq_true]
  rintro ⟨⟨bh, i⟩, mem, wrong⟩
  rw [List.mem_zipIdx_iff_getElem?] at mem
  cases bh with
  | none => simp at wrong
  | some given => simp [right.extent follows mem] at wrong

/-- Without a request nothing happens to the buffers. -/
theorem BuffersRight.untouched {rc : Option Errno} (right : GivenRight inode.iList vBlock bhs)
    (all : rc = none → ∀ bh ∈ bhs, bh ≠ none) : BuffersRight inode.iList vBlock bhs rc bhs :=
  ⟨rfl, right, fun _ _ given => given, all⟩

/-- The buffers of one extent and those behind it. -/
theorem BuffersRight.append {pBlock count extentFlags : Nat} {rc rc' : Option Errno}
    {read after : List (Option Nat)}
    (rest : BuffersRight inode.iList (vBlock + count) (bhs.drop count) rc' after)
    (first : Filled pBlock (bhs.take count) rc read) (fits : count ≤ bhs.length)
    (filled : rc' = none → rc = none)
    (follows : ∀ k < count,
      blockMapping inode.iList (vBlock + k) = some (pBlock + k, extentFlags)) :
    BuffersRight inode.iList vBlock bhs rc' (read ++ after) := by
  have taken : read.length = count := by
    rw [first.length, List.length_take, Nat.min_eq_left fits]
  refine ⟨?_, fun i b found => ?_, fun i b given => ?_, fun done bh mem => ?_⟩
  · rw [List.length_append, taken, rest.length, List.length_drop]
    omega
  · by_cases early : i < count
    · rw [List.getElem?_append_left (by omega)] at found
      rw [first.own i b found]
      exact ⟨extentFlags, follows i early⟩
    · obtain ⟨k, rfl⟩ := Nat.exists_eq_add_of_le (Nat.le_of_not_lt early)
      rw [List.getElem?_append_right (by omega), taken, Nat.add_sub_cancel_left] at found
      rw [← Nat.add_assoc]
      exact rest.right k b found
  · by_cases early : i < count
    · rw [List.getElem?_append_left (by omega)]
      exact first.kept i b (by rwa [List.getElem?_take_of_lt early])
    · obtain ⟨k, rfl⟩ := Nat.exists_eq_add_of_le (Nat.le_of_not_lt early)
      rw [List.getElem?_append_right (by omega), taken, Nat.add_sub_cancel_left]
      exact rest.kept k b (by rwa [List.getElem?_drop])
  · rcases List.mem_append.1 mem with early | late
    · exact first.all (filled done) bh early
    · exact rest.all done bh late

theorem Reason.behind {count nr : Nat} (reason : Reason outcome inode (vBlock + count) (nr - count))
    (fits : count ≤ nr) : Reason outcome inode vBlock nr := by
  refine reason.imp_right ?_
  rintro ⟨i, inside, why⟩
  exact ⟨count + i, by omega, by rwa [← Nat.add_assoc]⟩

/-- The loop ends: every turn takes one extent, and an extent has at least one block. -/
theorem readVirtLoop_spec {readahead : Bool} {fuel : Nat} (coherent : inode.Coherent)
    (nonzero : NoClusterZero inode.iList) (enough : bhs.length ≤ fuel)
    (file : vBlock + bhs.length ≤ 2 ^ cToBBits * 2 ^ 32) (uniform : Uniform bhs)
    (right : GivenRight inode.iList vBlock bhs)
    (memory : readahead = true → ∀ v, (outcome v).failure = none) :
    ∃ r, readVirtLoop outcome readahead fuel inode vBlock bhs = some r ∧
      VirtAnswers outcome inode vBlock bhs r := by
  induction fuel generalizing inode vBlock bhs with
  | zero =>
      obtain rfl := List.length_eq_zero_iff.1 (Nat.le_zero.1 enough)
      exact ⟨_, by rw [readVirtLoop], .untouched right (by simp), by simp⟩
  | succ fuel inductionHypothesis =>
      cases bhs with
      | nil => exact ⟨_, by rw [readVirtLoop], .untouched right (by simp), by simp⟩
      | cons bh bhs =>
          have asked : 0 < (bh :: bhs).length := Nat.succ_pos _
          rw [readVirtLoop]
          generalize bh :: bhs = bhs at *
          obtain ⟨answer, em, eq, answers, after⟩ := coherent.getBlocks nonzero
            (Nat.div_lt_of_lt_mul (show vBlock < 2 ^ cToBBits * 2 ^ 32 by omega))
            (outcome vBlock).read (outcome vBlock).allocated
          simp only [eq, Option.bind_some]
          rcases answer with errno | ⟨pBlock, pCount, extentFlags⟩
          · refine ⟨_, rfl, .untouched right (by simp), fun _ => ?_⟩
            cases errno with
            | erange => exact .inl answers
            | eio => exact .inr ⟨0, asked, .inr (.inl answers)⟩
            | erofs => exact answers.elim
          · by_cases hole : pBlock = 0
            · rw [BlockAnswers, if_pos hole] at answers
              exact ⟨_, if_pos hole, .untouched right (by simp), fun _ =>
                .inr ⟨0, asked, .inl answers.1⟩⟩
            · rw [BlockAnswers, if_neg hole] at answers
              obtain ⟨positive, all⟩ := answers
              simp only [if_neg hole]
              obtain ⟨count, counted⟩ : ∃ count, min bhs.length pCount = count := ⟨_, rfl⟩
              have follows : ∀ k < count,
                  blockMapping inode.iList (vBlock + k) = some (pBlock + k, extentFlags) :=
                fun k inside => all k (by omega)
              have left : (bhs.drop count).length = bhs.length - count := List.length_drop
              obtain ⟨rc, read, readEq, first, why⟩ := ocfs2ReadBlocks_spec
                (uniform.of_subset (List.take_subset count bhs))
                (fun _ _ given => right.extent follows given)
                fun ahead => memory ahead vBlock
              rw [counted, bugOn, if_neg (right.no_bug follows), readEq, Option.bind_some]
              cases rc with
              | none =>
                  obtain ⟨r, restEq, rest⟩ := inductionHypothesis after nonzero
                    (show (bhs.drop count).length ≤ fuel by omega)
                    (show vBlock + count + _ ≤ _ by omega)
                    (uniform.of_subset (List.drop_subset _ _)) (right.drop count)
                  have inside : count ≤ bhs.length := by omega
                  refine ⟨_, by rw [restEq]; rfl,
                    rest.buffers.append first inside (fun _ => rfl) follows, fun failed => ?_⟩
                  have reason := rest.reason failed
                  rw [left] at reason
                  exact Reason.behind reason inside
              | some errno =>
                  have behind : BuffersRight inode.iList (vBlock + count) (bhs.drop count)
                      (some errno) (bhs.drop count) := .untouched (right.drop count) (by simp)
                  exact ⟨_, rfl, behind.append first (by omega) (by simp) follows,
                    fun _ => .inr ⟨0, asked, .inr (.inr (why (by simp)))⟩⟩

/-- Behind every run, a read within the file ends, no `BUG_ON` fires, and the buffers are those
of the file as the tree has it, all of them when it succeeds; a readahead beyond the end leaves
them alone. The buffers are all there or all missing, as `new_bh` of `ocfs2_read_blocks` takes
them, and a readahead has the memory it needs. -/
theorem ocfs2ReadVirtBlocks_reads_tree {inlineData readahead : Bool}
    {tree : List Ocfs2ExtentRec} {events : List ExtentMapEvent} {blocksizeBits iSize : Nat}
    (ok : TreeOk tree)
    (run : Run ExtentMapStep ⟨inlineData, tree, ocfs2ExtentMapInit⟩ events inode)
    (nonzero : NoClusterZero inode.iList)
    (size : iSize ≤ 2 ^ cToBBits * 2 ^ 32 * 2 ^ blocksizeBits)
    (asked : 0 < bhs.length) (uniform : Uniform bhs) (right : GivenRight inode.iList vBlock bhs)
    (memory : readahead = true → ∀ v, (outcome v).failure = none)
    (noWrap : (vBlock + bhs.length - 1) * 2 ^ blocksizeBits < 2 ^ 64)
    (within : readahead = false → (vBlock + bhs.length - 1) * 2 ^ blocksizeBits < iSize) :
    ∃ r, ocfs2ReadVirtBlocks outcome inode blocksizeBits iSize vBlock bhs readahead = some r ∧
      if iSize ≤ (vBlock + bhs.length - 1) * 2 ^ blocksizeBits then r.rc = none ∧ r.bhs = bhs
      else VirtAnswers outcome inode vBlock bhs r := by
  have small : vBlock + bhs.length - 1 < 2 ^ 64 :=
    Nat.lt_of_le_of_lt (Nat.le_mul_of_pos_right _ (Nat.two_pow_pos _)) noWrap
  have last : (vBlock + bhs.length + (2 ^ 64 - 1)) % 2 ^ 64 = vBlock + bhs.length - 1 := by
    omega
  rw [ocfs2ReadVirtBlocks]
  simp only [last]
  rw [Nat.mod_eq_of_lt noWrap]
  split
  · next beyond =>
      have ahead : ¬ readahead = false := fun off => by
        have := within off
        omega
      exact ⟨_, by rw [bugOn, if_neg ahead], rfl, rfl⟩
  · next inside =>
      have inFile : vBlock + bhs.length - 1 < 2 ^ cToBBits * 2 ^ 32 :=
        Nat.lt_of_mul_lt_mul_right ((Nat.lt_of_not_le inside).trans_le size)
      exact readVirtLoop_spec (Ocfs2Inode.coherent_of_run ok run) nonzero le_rfl
        (by omega) uniform right memory

end Reading

section Sample

attribute [local instance] smallBlocks

/-- Blocks 30 to 33 lie in clusters 3 and 4. -/
theorem ocfs2ReadVirtBlocks_reads_tree_truncated :
    ∃ r, ocfs2ReadVirtBlocks (fun _ => ⟨true, true, none⟩)
        ⟨false, truncatedTree, ⟨1, [⟨0, 100, 6, 0⟩]⟩⟩ 9 24576 30 [none, none, none, none] false =
        some r ∧
      if 24576 ≤ (30 + 4 - 1) * 2 ^ 9 then r.rc = none ∧ r.bhs = [none, none, none, none]
      else VirtAnswers (fun _ => ⟨true, true, none⟩)
        ⟨false, truncatedTree, ⟨1, [⟨0, 100, 6, 0⟩]⟩⟩ 30 [none, none, none, none] r := by
  have missing : ∀ bh ∈ [none, none, none, none], bh = (none : Option Nat) := by decide
  refine ocfs2ReadVirtBlocks_reads_tree holedTree_ok holedTree_truncated
    truncatedTree_noClusterZero (by decide) (by decide) (.inl missing) ?_ (fun _ _ => rfl)
    (by decide) (by decide)
  intro i given found
  cases missing _ (List.mem_of_getElem? found)

end Sample

end Ocfs2Coverage.Driver
