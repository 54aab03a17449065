import Ocfs2Coverage.Driver.Hamming

/-!
Contract: the check information of a metadata block (`blockcheck.c`).

Owns: computing and validating checksum and error code of one block and of a list of
buffers, what validation makes of a block with one flipped bit, and that a list of
buffers is checked as the block it makes up.

Does not own: `crc32_le`, which blocks are checked at all.
-/

namespace Ocfs2Coverage.Driver

open Ocfs2Coverage.Syndrome

/-- What the code relies on of `crc32_le`: it can be computed hunk by hunk, and one
flipped bit changes it. -/
class Crc32 where
  crc32Le : BitVec 32 → List Bool → BitVec 32
  append : ∀ crc xs ys, crc32Le crc (xs ++ ys) = crc32Le (crc32Le crc xs) ys
  detects : ∀ crc bits i, i < bits.length → crc32Le crc (flip bits i) ≠ crc32Le crc bits

/-- `ocfs2_blockcheck_stats`; the counters wrap. -/
structure Ocfs2BlockcheckStats where
  checkCount : BitVec 64
  failureCount : BitVec 64
  recoverCount : BitVec 64
deriving DecidableEq, Repr

/-! ## The code

`struct ocfs2_block_check` is 8 bytes long: the checksum, two bytes of error code and two
that are reserved. It is given by the number of its first bit in the data. -/

def ocfs2BlockcheckIncCheck (stats : Option Ocfs2BlockcheckStats) : Option Ocfs2BlockcheckStats :=
  stats.map fun s => { s with checkCount := s.checkCount + 1 }

def ocfs2BlockcheckIncFailure (stats : Option Ocfs2BlockcheckStats) :
    Option Ocfs2BlockcheckStats :=
  stats.map fun s => { s with failureCount := s.failureCount + 1 }

def ocfs2BlockcheckIncRecover (stats : Option Ocfs2BlockcheckStats) :
    Option Ocfs2BlockcheckStats :=
  stats.map fun s => { s with recoverCount := s.recoverCount + 1 }

/-- `memset(bc, 0, sizeof(struct ocfs2_block_check))`. -/
def zeroCheck (data : List Bool) (bc : Nat) : List Bool :=
  data.mapIdx fun i bit => if bc ≤ i ∧ i < bc + 64 then false else bit

/-- `le32_to_cpu` and `le16_to_cpu` of a field. -/
def loadLe (w : Nat) (data : List Bool) (field : Nat) : BitVec w :=
  (BitVec.ofBoolListLE ((data.drop field).take w)).setWidth w

/-- The stores to `bc_crc32e` and `bc_ecc`. -/
def storeCheck (data : List Bool) (bc : Nat) (crc : BitVec 32) (ecc : BitVec 16) : List Bool :=
  data.mapIdx fun i bit =>
    if bc ≤ i ∧ i < bc + 32 then crc.getLsbD (i - bc)
    else if bc + 32 ≤ i ∧ i < bc + 48 then ecc.getLsbD (i - (bc + 32))
    else bit

def eio : Int := 5

/-- What a validation returns and leaves behind. -/
structure Validated (α : Type) where
  rc : Int
  data : α
  stats : Option Ocfs2BlockcheckStats
deriving DecidableEq, Repr

section Code

variable [Crc32]

open Crc32

/-- `ocfs2_block_check_compute`; `none` where it hits `BUG_ON(ecc > USHRT_MAX)`. -/
def ocfs2BlockCheckCompute (data : List Bool) (bc : Nat) : Option (List Bool) :=
  let data := zeroCheck data bc
  let crc := crc32Le (BitVec.allOnes 32) data
  let ecc := ocfs2HammingEncodeBlock data
  if 65535 < ecc then none else some (storeCheck data bc crc (BitVec.ofNat 16 ecc))

def ocfs2BlockCheckValidate (data : List Bool) (bc : Nat) (stats : Option Ocfs2BlockcheckStats) :
    Validated (List Bool) :=
  let stats := ocfs2BlockcheckIncCheck stats
  let bcCrc32e := loadLe 32 data bc
  let bcEcc := loadLe 16 data (bc + 32)
  let data := zeroCheck data bc
  let crc := crc32Le (BitVec.allOnes 32) data
  if crc = bcCrc32e then ⟨0, storeCheck data bc bcCrc32e bcEcc, stats⟩
  else
    let stats := ocfs2BlockcheckIncFailure stats
    let ecc := ocfs2HammingEncodeBlock data
    let data := ocfs2HammingFixBlock data (ecc ^^^ bcEcc.toNat)
    let crc := crc32Le (BitVec.allOnes 32) data
    if crc = bcCrc32e then
      ⟨0, storeCheck data bc bcCrc32e bcEcc, ocfs2BlockcheckIncRecover stats⟩
    else ⟨-eio, storeCheck data bc bcCrc32e bcEcc, stats⟩

/-- The checksum of the buffers, one after another. -/
def crcBhs (bhs : List (List Bool)) : BitVec 32 := bhs.foldl crc32Le (BitVec.allOnes 32)

/-- The error code of the buffers from number `i` on, cut to 16 bits for each of them. -/
def eccBhs (ecc i : Nat) : List (List Bool) → Nat
  | [] => ecc
  | bh :: bhs => eccBhs (ocfs2HammingEncode ecc bh (bh.length * i) % 65536) (i + 1) bhs

/-- `ocfs2_block_check_compute_bhs`, the check information in buffer `k`; it leaves an
empty list alone. -/
def ocfs2BlockCheckComputeBhs (bhs : List (List Bool)) (k bc : Nat) : List (List Bool) :=
  if bhs = [] then bhs
  else
    let bhs := bhs.modify k (zeroCheck · bc)
    bhs.modify k (storeCheck · bc (crcBhs bhs) (BitVec.ofNat 16 (eccBhs 0 0 bhs)))

def ocfs2BlockCheckValidateBhs (bhs : List (List Bool)) (k bc : Nat)
    (stats : Option Ocfs2BlockcheckStats) : Validated (List (List Bool)) :=
  if bhs = [] then ⟨0, bhs, stats⟩
  else
    let stats := ocfs2BlockcheckIncCheck stats
    let bcCrc32e := loadLe 32 (bhs.getD k []) bc
    let bcEcc := loadLe 16 (bhs.getD k []) (bc + 32)
    let bhs := bhs.modify k (zeroCheck · bc)
    if crcBhs bhs = bcCrc32e then ⟨0, bhs.modify k (storeCheck · bc bcCrc32e bcEcc), stats⟩
    else
      let stats := ocfs2BlockcheckIncFailure stats
      let fix := eccBhs 0 0 bhs ^^^ bcEcc.toNat
      let bhs := bhs.mapIdx fun i bh => ocfs2HammingFix bh (bh.length * i) fix
      if crcBhs bhs = bcCrc32e then
        ⟨0, bhs.modify k (storeCheck · bc bcCrc32e bcEcc), ocfs2BlockcheckIncRecover stats⟩
      else ⟨-eio, bhs.modify k (storeCheck · bc bcCrc32e bcEcc), stats⟩

end Code

/-! ## Bits of a block -/

theorem ext_getD {xs ys : List Bool} (same : xs.length = ys.length)
    (bits : ∀ i < xs.length, xs.getD i false = ys.getD i false) : xs = ys := by
  apply List.ext_getElem same
  intro i inside inside'
  have bit := bits i inside
  rwa [List.getD_eq_getElem _ _ inside, List.getD_eq_getElem _ _ inside'] at bit

@[simp] theorem length_zeroCheck (data : List Bool) (bc : Nat) :
    (zeroCheck data bc).length = data.length :=
  List.length_mapIdx

@[simp] theorem length_storeCheck (data : List Bool) (bc : Nat) (crc : BitVec 32)
    (ecc : BitVec 16) : (storeCheck data bc crc ecc).length = data.length :=
  List.length_mapIdx

theorem getD_zeroCheck {data : List Bool} (bc : Nat) {i : Nat} (inside : i < data.length) :
    (zeroCheck data bc).getD i false =
      if bc ≤ i ∧ i < bc + 64 then false else data.getD i false := by
  simp only [zeroCheck]
  rw [List.getD_eq_getElem _ _ (by simpa using inside), List.getElem_mapIdx,
    List.getD_eq_getElem _ _ inside]

theorem getD_storeCheck {data : List Bool} (bc : Nat) (crc : BitVec 32) (ecc : BitVec 16) {i : Nat}
    (inside : i < data.length) :
    (storeCheck data bc crc ecc).getD i false =
      if bc ≤ i ∧ i < bc + 32 then crc.getLsbD (i - bc)
      else if bc + 32 ≤ i ∧ i < bc + 48 then ecc.getLsbD (i - (bc + 32))
      else data.getD i false := by
  simp only [storeCheck]
  rw [List.getD_eq_getElem _ _ (by simpa using inside), List.getElem_mapIdx,
    List.getD_eq_getElem _ _ inside]

theorem getD_flip {data : List Bool} (i : Nat) {j : Nat} (inside : j < data.length) :
    (flip data i).getD j false = if i = j then !data.getD j false else data.getD j false := by
  rw [List.getD_eq_getElem _ _ (by simpa using inside), List.getD_eq_getElem _ _ inside,
    getElem_flip _ _ _ _ inside]

theorem getLsbD_loadLe {w : Nat} (data : List Bool) (field : Nat) {k : Nat} (low : k < w) :
    (loadLe w data field).getLsbD k = data.getD (field + k) false := by
  simp only [loadLe, BitVec.getLsbD_setWidth, BitVec.getLsbD_ofBoolListLE, low, decide_true,
    Bool.true_and]
  rw [List.getD_eq_getElem?_getD, List.getD_eq_getElem?_getD, List.getElem?_take_of_lt low,
    List.getElem?_drop]

section Fields

variable {data : List Bool} {bc : Nat}

@[simp] theorem zeroCheck_zeroCheck : zeroCheck (zeroCheck data bc) bc = zeroCheck data bc := by
  refine ext_getD (by simp) fun i inside => ?_
  have inside' : i < data.length := by simpa using inside
  rw [getD_zeroCheck bc (by simpa using inside'), getD_zeroCheck bc inside']
  split <;> rfl

/-- The check information is cleared whatever it is. -/
theorem zeroCheck_storeCheck (crc : BitVec 32) (ecc : BitVec 16) :
    zeroCheck (storeCheck data bc crc ecc) bc = zeroCheck data bc := by
  refine ext_getD (by simp) fun i inside => ?_
  have inside' : i < data.length := by simpa using inside
  rw [getD_zeroCheck bc (by simpa using inside'), getD_zeroCheck bc inside',
    getD_storeCheck bc crc ecc inside']
  by_cases hole : bc ≤ i ∧ i < bc + 64
  · rw [if_pos hole, if_pos hole]
  · rw [if_neg hole, if_neg hole, if_neg (by omega), if_neg (by omega)]

theorem zeroCheck_flip_inside {i : Nat} (inside : bc ≤ i ∧ i < bc + 64) :
    zeroCheck (flip data i) bc = zeroCheck data bc := by
  refine ext_getD (by simp) fun j within => ?_
  have within' : j < data.length := by simpa using within
  rw [getD_zeroCheck bc (by simpa using within'), getD_zeroCheck bc within', getD_flip i within']
  split
  · rfl
  · rw [if_neg (by omega)]

theorem zeroCheck_flip_outside {i : Nat} (outside : ¬ (bc ≤ i ∧ i < bc + 64)) :
    zeroCheck (flip data i) bc = flip (zeroCheck data bc) i := by
  refine ext_getD (by simp) fun j within => ?_
  have within' : j < data.length := by simpa using within
  rw [getD_zeroCheck bc (by simpa using within'), getD_flip i within',
    getD_flip i (by simpa using within'), getD_zeroCheck bc within']
  by_cases here : i = j
  · subst here
    rw [if_neg outside, if_neg outside]
  · rw [if_neg here, if_neg here]

theorem loadLe_ext {w : Nat} {xs ys : List Bool} {field : Nat}
    (same : ∀ k < w, xs.getD (field + k) false = ys.getD (field + k) false) :
    loadLe w xs field = loadLe w ys field := by
  apply BitVec.eq_of_getLsbD_eq
  intro k low
  rw [getLsbD_loadLe xs field low, getLsbD_loadLe ys field low, same k low]

theorem loadLe_flip_outside {w field i : Nat} (room : field + w ≤ data.length)
    (outside : ¬ (field ≤ i ∧ i < field + w)) :
    loadLe w (flip data i) field = loadLe w data field := by
  apply loadLe_ext
  intro k low
  rw [getD_flip i (by omega), if_neg (by omega)]

theorem loadLe_flip_inside {w field i : Nat} (room : field + w ≤ data.length)
    (inside : field ≤ i ∧ i < field + w) : loadLe w (flip data i) field ≠ loadLe w data field := by
  intro same
  have bit : (loadLe w (flip data i) field).getLsbD (i - field) =
      (loadLe w data field).getLsbD (i - field) := by rw [same]
  rw [getLsbD_loadLe _ _ (by omega), getLsbD_loadLe _ _ (by omega), getD_flip i (by omega),
    if_pos (by omega)] at bit
  exact Bool.not_ne_self _ bit

/-- The fields read what was stored. -/
theorem loadLe_storeCheck (room : bc + 64 ≤ data.length) (crc : BitVec 32) (ecc : BitVec 16) :
    loadLe 32 (storeCheck data bc crc ecc) bc = crc ∧
      loadLe 16 (storeCheck data bc crc ecc) (bc + 32) = ecc := by
  constructor
  · apply BitVec.eq_of_getLsbD_eq
    intro k low
    rw [getLsbD_loadLe _ _ low, getD_storeCheck bc crc ecc (by omega), if_pos (by omega),
      Nat.add_sub_cancel_left]
  · apply BitVec.eq_of_getLsbD_eq
    intro k low
    rw [getLsbD_loadLe _ _ low, getD_storeCheck bc crc ecc (by omega), if_neg (by omega),
      if_pos (by omega), Nat.add_sub_cancel_left]

/-- What was read is stored back; only the reserved bytes are lost. -/
theorem storeCheck_loadLe (reserved : ∀ i, bc + 48 ≤ i → i < bc + 64 → data.getD i false = false) :
    storeCheck (zeroCheck data bc) bc (loadLe 32 data bc) (loadLe 16 data (bc + 32)) = data := by
  refine ext_getD (by simp) fun i inside => ?_
  have inside' : i < data.length := by simpa using inside
  rw [getD_storeCheck bc _ _ (by simpa using inside')]
  split
  · next checksum => rw [getLsbD_loadLe _ _ (by omega), Nat.add_sub_cancel' checksum.1]
  · split
    · next code => rw [getLsbD_loadLe _ _ (by omega), Nat.add_sub_cancel' code.1]
    · rw [getD_zeroCheck bc inside']
      split
      · exact (reserved i (by omega) (by omega)).symm
      · rfl

end Fields

/-! ## One flipped bit -/

theorem ocfs2HammingFixBlock_eq {data : List Bool} (size : data.length + 17 ≤ 65536) {fix : Nat}
    (small : fix < 2 ^ 16) : ocfs2HammingFixBlock data fix = correct codeBit 0 fix data := by
  have bound : codeBit data.length < 2 ^ 17 := codeBit_lt (by omega)
  refine ocfs2HammingFix_eq ?_ (by omega)
  rw [Nat.zero_add]
  omega

/-- No metadata block is too large for 16 bits of error code. -/
theorem ocfs2HammingEncodeBlock_lt {data : List Bool} {bc : Nat} (size : data.length + 17 ≤ 65536) :
    ocfs2HammingEncodeBlock (zeroCheck data bc) < 2 ^ 16 := by
  rw [ocfs2HammingEncodeBlock_eq]
  exact syndrome_codeBit_lt (by simpa using size)

section Flip

variable [Crc32]

open Crc32

/-- A block whose check information is that of its data. -/
structure Checked (block : List Bool) (bc : Nat) : Prop where
  room : bc + 64 ≤ block.length
  size : block.length + 17 ≤ 65536
  crc32e : loadLe 32 block bc = crc32Le (BitVec.allOnes 32) (zeroCheck block bc)
  ecc : (loadLe 16 block (bc + 32)).toNat = ocfs2HammingEncodeBlock (zeroCheck block bc)
  reserved : ∀ i, bc + 48 ≤ i → i < bc + 64 → block.getD i false = false

variable {data block : List Bool} {bc : Nat}

theorem ocfs2BlockCheckCompute_isSome (size : data.length + 17 ≤ 65536) :
    (ocfs2BlockCheckCompute data bc).isSome := by
  have small : ocfs2HammingEncodeBlock (zeroCheck data bc) < 2 ^ 16 :=
    ocfs2HammingEncodeBlock_lt size
  simp only [ocfs2BlockCheckCompute]
  rw [if_neg (by omega)]
  rfl

theorem length_ocfs2BlockCheckCompute (written : ocfs2BlockCheckCompute data bc = some block) :
    block.length = data.length := by
  simp only [ocfs2BlockCheckCompute] at written
  split at written
  · cases written
  · obtain rfl := Option.some.inj written
    simp

theorem checked_ocfs2BlockCheckCompute (room : bc + 64 ≤ data.length)
    (size : data.length + 17 ≤ 65536) (written : ocfs2BlockCheckCompute data bc = some block) :
    Checked block bc := by
  have small : ocfs2HammingEncodeBlock (zeroCheck data bc) < 2 ^ 16 :=
    ocfs2HammingEncodeBlock_lt size
  simp only [ocfs2BlockCheckCompute] at written
  rw [if_neg (by omega)] at written
  obtain rfl := Option.some.inj written
  have fields : ∀ crc ecc,
      loadLe 32 (storeCheck (zeroCheck data bc) bc crc ecc) bc = crc ∧
        loadLe 16 (storeCheck (zeroCheck data bc) bc crc ecc) (bc + 32) = ecc :=
    loadLe_storeCheck (by simpa using room)
  refine ⟨by simpa using room, by simpa using size, ?_, ?_, fun i low high => ?_⟩
  · rw [(fields _ _).1, zeroCheck_storeCheck, zeroCheck_zeroCheck]
  · rw [(fields _ _).2, zeroCheck_storeCheck, zeroCheck_zeroCheck]
    exact BitVec.toNat_ofNat _ _ |>.trans (Nat.mod_eq_of_lt small)
  · rw [getD_storeCheck bc _ _ (by rw [length_zeroCheck]; omega), if_neg (by omega),
      if_neg (by omega), getD_zeroCheck bc (by omega), if_pos (by omega)]

namespace Checked

variable (checked : Checked block bc) (stats : Option Ocfs2BlockcheckStats)

include checked

theorem store : storeCheck (zeroCheck block bc) bc (loadLe 32 block bc)
    (loadLe 16 block (bc + 32)) = block :=
  storeCheck_loadLe checked.reserved

/-- A block as it was written. -/
theorem validate : ocfs2BlockCheckValidate block bc stats =
    ⟨0, block, ocfs2BlockcheckIncCheck stats⟩ := by
  simp only [ocfs2BlockCheckValidate]
  rw [if_pos checked.crc32e.symm, checked.store]

variable {i : Nat}

/-- Loads and stores of a block with one of its check bits flipped. -/
theorem store_flip (inside : bc ≤ i ∧ i < bc + 48) :
    storeCheck (zeroCheck block bc) bc (loadLe 32 (flip block i) bc)
      (loadLe 16 (flip block i) (bc + 32)) = flip block i := by
  have room := checked.room
  have zero : zeroCheck (flip block i) bc = zeroCheck block bc :=
    zeroCheck_flip_inside (by omega)
  rw [← zero]
  refine storeCheck_loadLe fun j low high => ?_
  rw [getD_flip i (by omega), if_neg (by omega)]
  exact checked.reserved j low high

theorem validate_flip_crc (inside : bc ≤ i ∧ i < bc + 32) :
    ocfs2BlockCheckValidate (flip block i) bc stats =
      ⟨-eio, flip block i, ocfs2BlockcheckIncFailure (ocfs2BlockcheckIncCheck stats)⟩ := by
  have room := checked.room
  have zero : zeroCheck (flip block i) bc = zeroCheck block bc :=
    zeroCheck_flip_inside (by omega)
  have ecc : loadLe 16 (flip block i) (bc + 32) = loadLe 16 block (bc + 32) :=
    loadLe_flip_outside (by omega) (by omega)
  have wrong : crc32Le (BitVec.allOnes 32) (zeroCheck block bc) ≠ loadLe 32 (flip block i) bc := by
    rw [← checked.crc32e]
    exact (loadLe_flip_inside (by omega) inside).symm
  -- The error codes agree, and no bit has position zero.
  have same : ocfs2HammingFixBlock (zeroCheck block bc) 0 = zeroCheck block bc := by
    rw [ocfs2HammingFixBlock_eq (by simpa using checked.size) (by decide)]
    refine correct_eq_self fun j _ zero => ?_
    have three := three_le_codeBit (0 + j)
    omega
  have stored := checked.store_flip (i := i) (by omega)
  rw [ecc] at stored
  simp only [ocfs2BlockCheckValidate, zero, ecc, checked.ecc, Nat.xor_self, same]
  rw [if_neg wrong, if_neg wrong, stored]

theorem validate_flip_ecc (inside : bc + 32 ≤ i ∧ i < bc + 48) :
    ocfs2BlockCheckValidate (flip block i) bc stats =
      ⟨0, flip block i, ocfs2BlockcheckIncCheck stats⟩ := by
  have room := checked.room
  have zero : zeroCheck (flip block i) bc = zeroCheck block bc :=
    zeroCheck_flip_inside (by omega)
  have crc : loadLe 32 (flip block i) bc = loadLe 32 block bc :=
    loadLe_flip_outside (by omega) (by omega)
  have stored := checked.store_flip (i := i) (by omega)
  rw [crc] at stored
  simp only [ocfs2BlockCheckValidate, zero, crc]
  rw [if_pos checked.crc32e.symm, stored]

theorem validate_flip_reserved (inside : bc + 48 ≤ i ∧ i < bc + 64) :
    ocfs2BlockCheckValidate (flip block i) bc stats =
      ⟨0, block, ocfs2BlockcheckIncCheck stats⟩ := by
  have room := checked.room
  have zero : zeroCheck (flip block i) bc = zeroCheck block bc :=
    zeroCheck_flip_inside (by omega)
  have crc : loadLe 32 (flip block i) bc = loadLe 32 block bc :=
    loadLe_flip_outside (by omega) (by omega)
  have ecc : loadLe 16 (flip block i) (bc + 32) = loadLe 16 block (bc + 32) :=
    loadLe_flip_outside (by omega) (by omega)
  simp only [ocfs2BlockCheckValidate, zero, crc, ecc]
  rw [if_pos checked.crc32e.symm, checked.store]

theorem validate_flip_data (inside : i < block.length) (outside : ¬ (bc ≤ i ∧ i < bc + 64)) :
    ocfs2BlockCheckValidate (flip block i) bc stats =
      ⟨0, block, ocfs2BlockcheckIncRecover
        (ocfs2BlockcheckIncFailure (ocfs2BlockcheckIncCheck stats))⟩ := by
  have room := checked.room
  have size := checked.size
  have zero : zeroCheck (flip block i) bc = flip (zeroCheck block bc) i :=
    zeroCheck_flip_outside outside
  have crc : loadLe 32 (flip block i) bc = loadLe 32 block bc :=
    loadLe_flip_outside (by omega) (by omega)
  have ecc : loadLe 16 (flip block i) (bc + 32) = loadLe 16 block (bc + 32) :=
    loadLe_flip_outside (by omega) (by omega)
  have wrong : crc32Le (BitVec.allOnes 32) (flip (zeroCheck block bc) i) ≠ loadLe 32 block bc := by
    rw [checked.crc32e]
    exact detects _ _ i (by simpa using inside)
  have code : ocfs2HammingEncodeBlock (zeroCheck block bc) < 2 ^ 16 :=
    ocfs2HammingEncodeBlock_lt size
  have code' : ocfs2HammingEncodeBlock (flip (zeroCheck block bc) i) < 2 ^ 16 := by
    rw [ocfs2HammingEncodeBlock_eq]
    exact syndrome_codeBit_lt (by simpa using size)
  have fixed : ocfs2HammingFixBlock (flip (zeroCheck block bc) i)
      (ocfs2HammingEncodeBlock (flip (zeroCheck block bc) i) ^^^
        ocfs2HammingEncodeBlock (zeroCheck block bc)) = zeroCheck block bc := by
    rw [ocfs2HammingFixBlock_eq (by simpa using size) (Nat.xor_lt_two_pow code' code),
      ocfs2HammingEncodeBlock_eq, ocfs2HammingEncodeBlock_eq]
    exact correct_flip codeBit_strictMono.injective (by simpa using inside)
  simp only [ocfs2BlockCheckValidate, zero, crc, ecc, checked.ecc, fixed]
  rw [if_neg wrong, if_pos checked.crc32e.symm, checked.store]

end Checked

/-- A block as it was written is valid. One flipped bit of the data is flipped back; one
of the reserved bytes is cleared; one of the error code goes unnoticed; one of the
checksum is beyond repair, and the block is left as it is. -/
theorem ocfs2BlockCheckValidate_flip (room : bc + 64 ≤ data.length)
    (size : data.length + 17 ≤ 65536) (stats : Option Ocfs2BlockcheckStats) :
    ∃ block, ocfs2BlockCheckCompute data bc = some block ∧
      ocfs2BlockCheckValidate block bc stats = ⟨0, block, ocfs2BlockcheckIncCheck stats⟩ ∧
      ∀ i < data.length, ocfs2BlockCheckValidate (flip block i) bc stats =
        if bc ≤ i ∧ i < bc + 32 then
          ⟨-eio, flip block i, ocfs2BlockcheckIncFailure (ocfs2BlockcheckIncCheck stats)⟩
        else if bc + 32 ≤ i ∧ i < bc + 48 then
          ⟨0, flip block i, ocfs2BlockcheckIncCheck stats⟩
        else if bc + 48 ≤ i ∧ i < bc + 64 then ⟨0, block, ocfs2BlockcheckIncCheck stats⟩
        else ⟨0, block, ocfs2BlockcheckIncRecover
          (ocfs2BlockcheckIncFailure (ocfs2BlockcheckIncCheck stats))⟩ := by
  obtain ⟨block, written⟩ : ∃ block, ocfs2BlockCheckCompute data bc = some block :=
    Option.isSome_iff_exists.1 (ocfs2BlockCheckCompute_isSome size)
  have checked := checked_ocfs2BlockCheckCompute room size written
  have length : block.length = data.length := length_ocfs2BlockCheckCompute written
  refine ⟨block, written, checked.validate stats, fun i inside => ?_⟩
  split
  · next crc => exact checked.validate_flip_crc stats crc
  · split
    · next ecc => exact checked.validate_flip_ecc stats ecc
    · split
      · next reserved => exact checked.validate_flip_reserved stats reserved
      · exact checked.validate_flip_data stats (by omega) (by omega)

end Flip

/-! ## The checksum itself -/

/-- One bit of `crc32_le`, least significant bits first. -/
def crcStep (crc : BitVec 32) (bit : Bool) : BitVec 32 :=
  if crc.getLsbD 0 = bit then crc >>> 1 else crc >>> 1 ^^^ 0xEDB88320#32

/-- The highest bit of a step says whether the polynomial was added. -/
theorem getLsbD_crcStep (crc : BitVec 32) (bit : Bool) :
    (crcStep crc bit).getLsbD 31 = (crc.getLsbD 0 != bit) := by
  simp only [crcStep]
  split
  · next same => simpa using same
  · next other => simpa using other

theorem crcStep_injective {left right : BitVec 32} {bit : Bool}
    (same : crcStep left bit = crcStep right bit) : left = right := by
  have high : (left.getLsbD 0 != bit) = (right.getLsbD 0 != bit) := by
    rw [← getLsbD_crcStep, ← getLsbD_crcStep, same]
  have low : left.getLsbD 0 = right.getLsbD 0 := by
    revert high
    cases left.getLsbD 0 <;> cases right.getLsbD 0 <;> cases bit <;> simp
  have rest : left >>> 1 = right >>> 1 := by
    simp only [crcStep, low] at same
    split at same
    · exact same
    · exact (BitVec.xor_left_inj _).1 same
  apply BitVec.eq_of_getLsbD_eq
  intro i inside
  cases i with
  | zero => exact low
  | succ i =>
      have bits := congrArg (fun crc : BitVec 32 => crc.getLsbD i) rest
      simpa [Nat.add_comm] using bits

theorem foldl_crcStep_injective {left right : BitVec 32} (bits : List Bool)
    (same : bits.foldl crcStep left = bits.foldl crcStep right) : left = right := by
  induction bits generalizing left right with
  | nil => exact same
  | cons bit bits inductionHypothesis => exact crcStep_injective (inductionHypothesis same)

/-- `crc32_le` has the properties that the code relies on. -/
@[reducible] def kernelCrc32 : Crc32 where
  crc32Le crc bits := bits.foldl crcStep crc
  append _ _ _ := List.foldl_append
  detects crc bits i inside := by
    induction bits generalizing crc i with
    | nil => cases inside
    | cons bit bits inductionHypothesis =>
        cases i with
        | zero =>
            intro same
            have high := congrArg (fun crc : BitVec 32 => crc.getLsbD 31)
              (foldl_crcStep_injective bits same)
            simp only [getLsbD_crcStep] at high
            revert high
            cases crc.getLsbD 0 <;> cases bit <;> simp
        | succ i => exact inductionHypothesis _ i (Nat.lt_of_succ_lt_succ inside)

/-! ## Buffers as one block -/

section Buffers

/-- A list of buffers of one size, the check information inside buffer `k`. -/
structure Buffers (bhs : List (List Bool)) (n k bc : Nat) : Prop where
  sizes : ∀ bh ∈ bhs, bh.length = n
  holder : k < bhs.length
  room : bc + 64 ≤ n

theorem length_flatten_of_sizes {bhs : List (List Bool)} {n : Nat}
    (sizes : ∀ bh ∈ bhs, bh.length = n) : bhs.flatten.length = n * bhs.length := by
  induction bhs with
  | nil => rfl
  | cons bh bhs inductionHypothesis =>
      rw [List.forall_mem_cons] at sizes
      rw [List.flatten_cons, List.length_append, inductionHypothesis sizes.2, sizes.1,
        List.length_cons, Nat.mul_succ, Nat.add_comm]

/-- A change of bits in the middle. -/
theorem mapIdx_middle {g h : Nat → Bool → Bool} {xs bh ys : List Bool}
    (left : ∀ i < xs.length, ∀ bit, g i bit = bit)
    (middle : ∀ i < bh.length, ∀ bit, g (xs.length + i) bit = h i bit)
    (right : ∀ i, xs.length + bh.length ≤ i → ∀ bit, g i bit = bit) :
    (xs ++ (bh ++ ys)).mapIdx g = xs ++ (bh.mapIdx h ++ ys) := by
  rw [List.mapIdx_append, List.mapIdx_append]
  congr 1
  · apply List.ext_getElem (by simp)
    intro i _ inside
    rw [List.getElem_mapIdx, left i inside]
  · congr 1
    · apply List.ext_getElem (by simp)
      intro i inside _
      rw [List.getElem_mapIdx, List.getElem_mapIdx, Nat.add_comm]
      exact middle i (by simpa using inside) _
    · apply List.ext_getElem (by simp)
      intro i _ _
      rw [List.getElem_mapIdx, right _ (by omega)]

/-- The block that the buffers make up, cut where the check information is. -/
structure Cut (bhs : List (List Bool)) (n k bc : Nat) where
  before : List Bool
  holder : List Bool
  after : List Bool
  start : before.length = n * k
  room : bc + 64 ≤ holder.length
  whole : bhs.flatten = before ++ (holder ++ after)
  changed : ∀ f : List Bool → List Bool,
    (bhs.modify k f).flatten = before ++ (f holder ++ after)
  held : bhs.getD k [] = holder

def Buffers.cut {bhs : List (List Bool)} {n k bc : Nat} (buffers : Buffers bhs n k bc) :
    Cut bhs n k bc where
  before := (bhs.take k).flatten
  holder := bhs.getD k []
  after := (bhs.drop (k + 1)).flatten
  start := by
    rw [length_flatten_of_sizes fun bh member => buffers.sizes bh (List.mem_of_mem_take member),
      List.length_take, Nat.min_eq_left (Nat.le_of_lt buffers.holder)]
  room := by
    rw [List.getD_eq_getElem _ _ buffers.holder, buffers.sizes _ (List.getElem_mem _)]
    exact buffers.room
  whole := by
    rw [List.getD_eq_getElem _ _ buffers.holder, ← List.flatten_cons,
      ← List.drop_eq_getElem_cons, ← List.flatten_append, List.take_append_drop]
  changed f := by
    rw [List.modify_eq_take_cons_drop buffers.holder, List.flatten_append, List.flatten_cons,
      List.getD_eq_getElem _ _ buffers.holder]
  held := rfl

namespace Cut

variable {bhs : List (List Bool)} {n k bc : Nat} (cut : Cut bhs n k bc)

include cut

theorem zeroCheck : (bhs.modify k (zeroCheck · bc)).flatten =
    Driver.zeroCheck bhs.flatten (n * k + bc) := by
  have room := cut.room
  rw [cut.changed, cut.whole]
  refine (mapIdx_middle (fun i low bit => ?_) (fun i low bit => ?_) fun i high bit => ?_).symm
  · rw [cut.start] at low
    rw [if_neg (by omega)]
  · rw [cut.start]
    congr 1
    simp only [eq_iff_iff]
    omega
  · rw [cut.start] at high
    rw [if_neg (by omega)]

theorem storeCheck (crc : BitVec 32) (ecc : BitVec 16) :
    (bhs.modify k (storeCheck · bc crc ecc)).flatten =
      Driver.storeCheck bhs.flatten (n * k + bc) crc ecc := by
  have room := cut.room
  rw [cut.changed, cut.whole]
  refine (mapIdx_middle (fun i low bit => ?_) (fun i low bit => ?_) fun i high bit => ?_).symm
  · rw [cut.start] at low
    rw [if_neg (by omega), if_neg (by omega)]
  · have crcAt : n * k + i - (n * k + bc) = i - bc := by omega
    have eccAt : n * k + i - (n * k + bc + 32) = i - (bc + 32) := by omega
    rw [cut.start, crcAt, eccAt]
    congr 1
    · simp only [eq_iff_iff]
      omega
    · congr 1
      simp only [eq_iff_iff]
      omega
  · rw [cut.start] at high
    rw [if_neg (by omega), if_neg (by omega)]

theorem loadLe {w : Nat} (field : Nat) (inside : field + w ≤ cut.holder.length) :
    loadLe w (bhs.getD k []) field = Driver.loadLe w bhs.flatten (n * k + field) := by
  apply BitVec.eq_of_getLsbD_eq
  intro j low
  rw [getLsbD_loadLe _ _ low, getLsbD_loadLe _ _ low, cut.held, cut.whole,
    List.getD_append_right _ _ _ _ (by rw [cut.start]; omega), List.getD_append _ _ _ _ (by
      rw [cut.start]
      omega)]
  congr 1
  rw [cut.start]
  omega

end Cut

/-- The error code of the buffers is that of the block. -/
theorem eccBhs_eq {bhs : List (List Bool)} {n i ecc : Nat} (sizes : ∀ bh ∈ bhs, bh.length = n)
    (size : n * i + bhs.flatten.length + 17 ≤ 65536) (small : ecc < 2 ^ 16) :
    eccBhs ecc i bhs = ecc ^^^ syndrome codeBit (n * i) bhs.flatten := by
  induction bhs generalizing ecc i with
  | nil => simp [eccBhs, syndrome]
  | cons bh bhs inductionHypothesis =>
      rw [List.forall_mem_cons] at sizes
      rw [List.flatten_cons, List.length_append] at size
      have here : syndrome codeBit (n * i) bh < 2 ^ 16 := syndrome_codeBit_lt (by omega)
      have next : n * (i + 1) = n * i + bh.length := by rw [Nat.mul_succ, sizes.1]
      have cut : (ecc ^^^ syndrome codeBit (n * i) bh) % 65536 =
          ecc ^^^ syndrome codeBit (n * i) bh :=
        Nat.mod_eq_of_lt (Nat.xor_lt_two_pow small here)
      simp only [eccBhs]
      rw [ocfs2HammingEncode_eq, sizes.1, cut, inductionHypothesis sizes.2 (by omega)
        (Nat.xor_lt_two_pow small here), List.flatten_cons, syndrome_append, next, Nat.xor_assoc]

/-- The fix is tried on every buffer and changes the bit of the block. -/
theorem fixBhs_eq {bhs : List (List Bool)} {n i fix : Nat} (sizes : ∀ bh ∈ bhs, bh.length = n)
    (size : n * i + bhs.flatten.length + 17 ≤ 65536) (small : fix < 2 ^ 16) :
    (bhs.mapIdx fun j bh => ocfs2HammingFix bh (bh.length * (i + j)) fix).flatten =
      correct codeBit (n * i) fix bhs.flatten := by
  induction bhs generalizing i with
  | nil => rfl
  | cons bh bhs inductionHypothesis =>
      rw [List.forall_mem_cons] at sizes
      rw [List.flatten_cons, List.length_append] at size
      have next : n * (i + 1) = n * i + bh.length := by rw [Nat.mul_succ, sizes.1]
      have bound : codeBit (n * i + bh.length) < 2 ^ 17 := codeBit_lt (by omega)
      have rest := inductionHypothesis (i := i + 1) sizes.2 (by omega)
      rw [List.mapIdx_cons, List.flatten_cons, List.flatten_cons,
        correct_append codeBit_strictMono.injective, ← next, ← rest, Nat.add_zero, sizes.1,
        ocfs2HammingFix_eq (by omega) (by omega)]
      simp only [Nat.add_right_comm, Nat.add_assoc]

theorem Buffers.modify {bhs : List (List Bool)} {n k bc : Nat} (buffers : Buffers bhs n k bc)
    {f : List Bool → List Bool}
    (same : ∀ bh, (f bh).length = bh.length) : Buffers (bhs.modify k f) n k bc := by
  refine ⟨fun bh member => ?_, by simpa using buffers.holder, buffers.room⟩
  obtain ⟨i, inside, rfl⟩ := List.getElem_of_mem member
  rw [List.getElem_modify]
  split
  · rw [same]
    exact buffers.sizes _ (List.getElem_mem _)
  · exact buffers.sizes _ (List.getElem_mem _)

theorem Buffers.mapIdx {bhs : List (List Bool)} {n k bc : Nat} (buffers : Buffers bhs n k bc)
    {f : Nat → List Bool → List Bool}
    (same : ∀ i bh, (f i bh).length = bh.length) : Buffers (bhs.mapIdx f) n k bc := by
  refine ⟨fun bh member => ?_, by simpa using buffers.holder, buffers.room⟩
  obtain ⟨i, inside, rfl⟩ := List.getElem_of_mem member
  rw [List.getElem_mapIdx, same]
  exact buffers.sizes _ (List.getElem_mem _)

theorem Buffers.ne_nil {bhs : List (List Bool)} {n k bc : Nat} (buffers : Buffers bhs n k bc) :
    bhs ≠ [] := by
  rintro rfl
  exact absurd buffers.holder (Nat.not_lt_zero k)

section Together

variable [Crc32]

open Crc32

theorem crcBhs_eq {bhs : List (List Bool)} (some : bhs ≠ []) :
    crcBhs bhs = crc32Le (BitVec.allOnes 32) bhs.flatten := by
  have hunks : ∀ (bhs : List (List Bool)) (crc : BitVec 32), bhs ≠ [] →
      bhs.foldl crc32Le crc = crc32Le crc bhs.flatten := by
    intro bhs
    induction bhs with
    | nil => exact fun _ none => absurd rfl none
    | cons bh bhs inductionHypothesis =>
        intro crc _
        rw [List.foldl_cons, List.flatten_cons]
        by_cases last : bhs = []
        · rw [last, List.foldl_nil, List.flatten_nil, List.append_nil]
        · rw [inductionHypothesis _ last, append]
  exact hunks bhs _ some

variable {bhs : List (List Bool)} {n k bc : Nat}

/-- Buffers are checked as the block that they make up. -/
theorem ocfs2BlockCheckBhs_eq (buffers : Buffers bhs n k bc)
    (size : bhs.flatten.length + 17 ≤ 65536) (stats : Option Ocfs2BlockcheckStats) :
    ocfs2BlockCheckCompute bhs.flatten (n * k + bc) =
        some (ocfs2BlockCheckComputeBhs bhs k bc).flatten ∧
      ocfs2BlockCheckValidate bhs.flatten (n * k + bc) stats =
        (let result := ocfs2BlockCheckValidateBhs bhs k bc stats
         ⟨result.rc, result.data.flatten, result.stats⟩) := by
  have cleared : Buffers (bhs.modify k (zeroCheck · bc)) n k bc := buffers.modify (by simp)
  have crc : crcBhs (bhs.modify k (zeroCheck · bc)) =
      crc32Le (BitVec.allOnes 32) (zeroCheck bhs.flatten (n * k + bc)) := by
    rw [crcBhs_eq cleared.ne_nil, buffers.cut.zeroCheck]
  have small : ocfs2HammingEncodeBlock (zeroCheck bhs.flatten (n * k + bc)) < 2 ^ 16 :=
    ocfs2HammingEncodeBlock_lt size
  have ecc : eccBhs 0 0 (bhs.modify k (zeroCheck · bc)) =
      ocfs2HammingEncodeBlock (zeroCheck bhs.flatten (n * k + bc)) := by
    rw [eccBhs_eq cleared.sizes (by rw [buffers.cut.zeroCheck]; simpa using size) (by decide),
      buffers.cut.zeroCheck, Nat.zero_xor, Nat.mul_zero, ocfs2HammingEncodeBlock_eq]
  have room := buffers.cut.room
  have crcField := buffers.cut.loadLe bc (w := 32) (by omega)
  have eccField := buffers.cut.loadLe (bc + 32) (w := 16) (by omega)
  rw [← Nat.add_assoc] at eccField
  constructor
  · simp only [ocfs2BlockCheckCompute, ocfs2BlockCheckComputeBhs]
    rw [if_neg buffers.ne_nil, if_neg (by omega), cleared.cut.storeCheck, crc, ecc,
      buffers.cut.zeroCheck]
  · have width : (loadLe 16 bhs.flatten (n * k + bc + 32)).toNat < 2 ^ 16 := BitVec.isLt _
    have fixes := Nat.xor_lt_two_pow small width
    have fixed : ((bhs.modify k (zeroCheck · bc)).mapIdx fun i bh => ocfs2HammingFix bh (bh.length * i)
          (ocfs2HammingEncodeBlock (zeroCheck bhs.flatten (n * k + bc)) ^^^
            (loadLe 16 bhs.flatten (n * k + bc + 32)).toNat)).flatten =
        ocfs2HammingFixBlock (zeroCheck bhs.flatten (n * k + bc))
          (ocfs2HammingEncodeBlock (zeroCheck bhs.flatten (n * k + bc)) ^^^
            (loadLe 16 bhs.flatten (n * k + bc + 32)).toNat) := by
      have each := fixBhs_eq (i := 0) cleared.sizes
        (by rw [buffers.cut.zeroCheck]; simpa using size) fixes
      simp only [Nat.zero_add, Nat.mul_zero] at each
      rw [each, buffers.cut.zeroCheck, ocfs2HammingFixBlock_eq (by simpa using size) fixes]
    have fixedBuffers : Buffers ((bhs.modify k (zeroCheck · bc)).mapIdx fun i bh =>
        ocfs2HammingFix bh (bh.length * i)
          (ocfs2HammingEncodeBlock (zeroCheck bhs.flatten (n * k + bc)) ^^^
            (loadLe 16 bhs.flatten (n * k + bc + 32)).toNat)) n k bc :=
      cleared.mapIdx fun i bh => length_ocfs2HammingFix bh _ _
    have crc' := crcBhs_eq fixedBuffers.ne_nil
    rw [fixed] at crc'
    simp only [ocfs2BlockCheckValidate, ocfs2BlockCheckValidateBhs]
    rw [if_neg buffers.ne_nil, crcField, eccField, crc, ecc, crc']
    split
    · rw [cleared.cut.storeCheck, buffers.cut.zeroCheck]
    · split
      · rw [fixedBuffers.cut.storeCheck, fixed]
      · rw [fixedBuffers.cut.storeCheck, fixed]

end Together

end Buffers

section Sample

attribute [local instance] kernelCrc32

/-- Two words of data behind two bytes of data and the check information. -/
def sampleBlock : List Bool :=
  (List.range 144).map fun i => 16 ≤ i && (i % 3 == 0 || i % 7 == 1)

theorem length_sampleBlock : sampleBlock.length = 144 := by
  simp [sampleBlock]

theorem ocfs2BlockCheckValidate_flip_sampleBlock :
    ∃ block, ocfs2BlockCheckCompute sampleBlock 16 = some block ∧
      ocfs2BlockCheckValidate (flip block 100) 16 none = ⟨0, block, none⟩ ∧
      ocfs2BlockCheckValidate (flip block 20) 16 none = ⟨-eio, flip block 20, none⟩ := by
  have length := length_sampleBlock
  obtain ⟨block, written, -, each⟩ :=
    ocfs2BlockCheckValidate_flip (show 16 + 64 ≤ sampleBlock.length by omega) (by omega) none
  exact ⟨block, written, each 100 (by omega), each 20 (by omega)⟩

theorem ocfs2BlockCheckBhs_eq_sampleBlock :
    ocfs2BlockCheckCompute [sampleBlock, sampleBlock].flatten (144 * 1 + 16) =
      some (ocfs2BlockCheckComputeBhs [sampleBlock, sampleBlock] 1 16).flatten := by
  have buffers : Buffers [sampleBlock, sampleBlock] 144 1 16 :=
    ⟨by simp [length_sampleBlock], by simp, by decide⟩
  exact (ocfs2BlockCheckBhs_eq buffers (by simp [length_sampleBlock]) none).1

end Sample

end Ocfs2Coverage.Driver
