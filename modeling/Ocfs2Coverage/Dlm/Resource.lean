import Mathlib
import Ocfs2Coverage.Kernel
import Ocfs2Coverage.Sharing

/-!
Contract: one lock resource as a node of the lock manager keeps it.

Owns: the modes, the locks, the three queues, the lists of callbacks that wait, and
what the list operations of the kernel do to them.

Does not own: when a lock changes its queue or its mode.
-/

namespace Ocfs2Coverage.Dlm

open Ocfs2Coverage.Sharing

/-! ## Modes -/

/-- `LKM_NLMODE`, `LKM_PRMODE` and `LKM_EXMODE`; `LKM_IVMODE` is `none`. -/
inductive Mode where
  | nl
  | pr
  | ex
deriving DecidableEq, Repr

def Mode.rank : Mode → Nat
  | .nl => 0
  | .pr => 1
  | .ex => 2

instance : LinearOrder Mode :=
  LinearOrder.lift' Mode.rank fun t u same => by cases t <;> cases u <;> first | rfl | cases same

theorem nl_le (t : Mode) : Mode.nl ≤ t := by
  cases t <;> decide

/-- What the comments of `dlm_should_cancel_bast` say: NL blocks nothing, PR blocks EX
only, and EX blocks anything left. -/
def Mode.Compatible (held wanted : Mode) : Prop :=
  held = .nl ∨ wanted = .nl ∨ held = .pr ∧ wanted = .pr

theorem sharingRule : SharingRule Mode.Compatible where
  symm := by
    rintro t u (nl | nl | ⟨held, wanted⟩)
    · exact .inr (.inl nl)
    · exact .inl nl
    · exact .inr (.inr ⟨wanted, held⟩)
  weaken := by
    rintro s t u le (rfl | nl | ⟨rfl, wanted⟩)
    · exact .inl (le_antisymm le (nl_le s))
    · exact .inr (.inl nl)
    · cases s with
      | nl => exact .inl rfl
      | pr => exact .inr (.inr ⟨rfl, wanted⟩)
      | ex => exact absurd le (by decide)

/-- `dlm_lock_compatible` of the missing header, with what is said about it. -/
class DlmLockCompatible where
  dlmLockCompatible : Option Mode → Mode → Bool
  compatible_iff : ∀ held wanted, dlmLockCompatible (some held) wanted = true ↔
    held.Compatible wanted

/-! ## Queues -/

/-- The number of a node is a `u8`. -/
abbrev Node := Fin 256

instance (priority := 10000) instNeZeroNode : NeZero 256 := ⟨by decide⟩

/-- The key of a lock is a `u64`. -/
abbrev Cookie := Fin (2 ^ 64)

instance (priority := 10000) instNeZeroCookie : NeZero (2 ^ 64) := ⟨by decide⟩

instance (priority := 10000) : LawfulBEq Cookie := instLawfulBEq

/-- `dlm_get_lock_cookie_node`: the top byte. -/
def dlmGetLockCookieNode (c : Cookie) : Node := ⟨c.val / 2 ^ 56, by omega⟩

inductive Queue where
  | granted
  | converting
  | blocked
deriving DecidableEq, Repr

/-- The queues of a resource. A lock has one `list_head`, so it is on one of them. -/
structure Queues where
  granted : List Cookie
  converting : List Cookie
  blocked : List Cookie
  nodup : (granted ++ converting ++ blocked).Nodup

namespace Queues

def empty : Queues := ⟨[], [], [], List.nodup_nil⟩

/-- The queue that a lock is on, `dlm_lock_on_list` for all three. -/
def find (q : Queues) (c : Cookie) : Option Queue :=
  if c ∈ q.granted then some .granted
  else if c ∈ q.converting then some .converting
  else if c ∈ q.blocked then some .blocked
  else none

/-- `list_del_init`. -/
def del (q : Queues) (c : Cookie) : Queues where
  granted := q.granted.filter (· ≠ c)
  converting := q.converting.filter (· ≠ c)
  blocked := q.blocked.filter (· ≠ c)
  nodup := by
    rw [← List.filter_append, ← List.filter_append]
    exact q.nodup.filter _

theorem notMem_del (q : Queues) (c : Cookie) :
    c ∉ (q.del c).granted ∧ c ∉ (q.del c).converting ∧ c ∉ (q.del c).blocked := by
  simp [del]

/-- `list_move_tail`, and `list_add_tail` for a lock that is on no queue. -/
def moveTail (q : Queues) (c : Cookie) (queue : Queue) : Queues where
  granted := (q.del c).granted ++ if queue = .granted then [c] else []
  converting := (q.del c).converting ++ if queue = .converting then [c] else []
  blocked := (q.del c).blocked ++ if queue = .blocked then [c] else []
  nodup := by
    obtain ⟨granted, converting, blocked⟩ := q.notMem_del c
    have all : (c :: ((q.del c).granted ++ (q.del c).converting ++ (q.del c).blocked)).Nodup :=
      List.nodup_cons.2 ⟨by simp [granted, converting, blocked], (q.del c).nodup⟩
    refine (List.Perm.nodup_iff ?_).2 all
    cases queue with
    | granted => simp
    | converting =>
        rw [if_neg (by decide), if_pos rfl, if_neg (by decide), List.append_nil, List.append_nil,
          ← List.append_assoc, List.append_assoc _ [c]]
        exact List.perm_middle
    | blocked =>
        rw [if_neg (by decide), if_neg (by decide), if_pos rfl, List.append_nil, List.append_nil,
          ← List.append_assoc]
        exact List.perm_append_singleton ..

variable {q : Queues} {c d : Cookie}

@[simp] theorem mem_granted : c ∈ q.granted ↔ q.find c = some .granted := by
  simp only [find]
  split <;> grind

theorem apart (q : Queues) (c : Cookie) :
    (c ∈ q.granted → c ∉ q.converting ∧ c ∉ q.blocked) ∧ (c ∈ q.converting → c ∉ q.blocked) := by
  have nodup := q.nodup
  rw [List.append_assoc, List.nodup_append', List.nodup_append'] at nodup
  obtain ⟨-, ⟨-, -, late⟩, early⟩ := nodup
  refine ⟨fun here => ?_, fun here there => late here there⟩
  exact ⟨fun there => early here (List.mem_append_left _ there),
    fun there => early here (List.mem_append_right _ there)⟩

@[simp] theorem mem_converting : c ∈ q.converting ↔ q.find c = some .converting := by
  have apart := q.apart c
  simp only [find]
  split <;> grind

@[simp] theorem mem_blocked : c ∈ q.blocked ↔ q.find c = some .blocked := by
  have apart := q.apart c
  simp only [find]
  split <;> grind

theorem find_del (q : Queues) (c d : Cookie) :
    (q.del c).find d = if d = c then none else q.find d := by
  by_cases same : d = c
  · simp only [find, del, List.mem_filter, same, ne_eq, not_true, decide_false, Bool.false_eq_true,
      and_false, if_true, if_false]
  · simp only [find, del, List.mem_filter, same, ne_eq, not_false_eq_true, decide_true, and_true,
      if_false]

theorem find_moveTail (q : Queues) (c : Cookie) (queue : Queue) (d : Cookie) :
    (q.moveTail c queue).find d = if d = c then some queue else q.find d := by
  by_cases same : d = c
  · cases queue <;> simp [find, moveTail, del, same, -mem_granted, -mem_converting, -mem_blocked]
  · cases queue <;> simp [find, moveTail, del, same, -mem_granted, -mem_converting, -mem_blocked]

end Queues

/-! ## Locks and the resource -/

/-- `struct dlm_lock` with its `dlm_lockstatus`: `getLvb` and `putLvb` are the flags
`DLM_LKSB_GET_LVB` and `DLM_LKSB_PUT_LVB`, `lvb` is the lock value block. The place of
the lock in a queue and in the lists of callbacks is kept with the resource. -/
structure DlmLock (Lvb : Type) where
  node : Node
  type : Mode
  convertType : Option Mode
  highestBlocked : Option Mode
  getLvb : Bool
  putLvb : Bool
  lvb : Lvb
  astPending : Bool
  bastPending : Bool
  convertPending : Bool
  unlockPending : Bool

/-- `dlm_init_lock`. -/
def dlmInitLock {Lvb : Type} (type : Mode) (node : Node) (lvb : Lvb) : DlmLock Lvb :=
  ⟨node, type, none, none, false, false, lvb, false, false, false, false⟩

/-- `struct dlm_lock_resource`, with the part of `pending_asts` and `pending_basts` of
the domain that is about it; `dirty` says whether it waits for the thread. -/
structure DlmLockResource (Lvb : Type) where
  queues : Queues
  lock : Cookie → DlmLock Lvb
  lvb : Lvb
  dirty : Bool
  pendingAsts : List Cookie
  pendingBasts : List Cookie

/-- The lock without what is noted on it for asts and basts. -/
def DlmLock.core {Lvb : Type} (lock : DlmLock Lvb) : DlmLock Lvb :=
  { lock with highestBlocked := none, astPending := false, bastPending := false }

section Core

variable {Lvb : Type} (lock : DlmLock Lvb)

@[simp] theorem core_node : lock.core.node = lock.node := rfl
@[simp] theorem core_type : lock.core.type = lock.type := rfl
@[simp] theorem core_convertType : lock.core.convertType = lock.convertType := rfl
@[simp] theorem core_getLvb : lock.core.getLvb = lock.getLvb := rfl
@[simp] theorem core_putLvb : lock.core.putLvb = lock.putLvb := rfl
@[simp] theorem core_lvb : lock.core.lvb = lock.lvb := rfl
@[simp] theorem core_unlockPending : lock.core.unlockPending = lock.unlockPending := rfl

end Core

namespace DlmLockResource

variable {Lvb : Type} (res : DlmLockResource Lvb) (c d : Cookie)

def modifyLock (f : DlmLock Lvb → DlmLock Lvb) : DlmLockResource Lvb :=
  { res with lock := Function.update res.lock c (f (res.lock c)) }

def moveTail (queue : Queue) : DlmLockResource Lvb :=
  { res with queues := res.queues.moveTail c queue }

def del : DlmLockResource Lvb := { res with queues := res.queues.del c }

/-- `dlm_kick_thread`. -/
def kick : DlmLockResource Lvb := { res with dirty := true }

@[simp] theorem lock_modifyLock (f : DlmLock Lvb → DlmLock Lvb) :
    (res.modifyLock c f).lock d = if d = c then f (res.lock c) else res.lock d := by
  simp [modifyLock, Function.update_apply]

@[simp] theorem lvb_modifyLock (f : DlmLock Lvb → DlmLock Lvb) :
    (res.modifyLock c f).lvb = res.lvb := rfl

@[simp] theorem pendingBasts_modifyLock (f : DlmLock Lvb → DlmLock Lvb) :
    (res.modifyLock c f).pendingBasts = res.pendingBasts := rfl

/-! What is known of one lock behind these operations. -/

/-- A lock of the resource: its queue, what it says, and how many asts wait for it. -/
structure Copy (Lvb : Type) where
  queue : Option Queue
  lock : DlmLock Lvb
  asts : Nat

def copy : Copy Lvb := ⟨res.queues.find c, (res.lock c).core, res.pendingAsts.count c⟩

@[simp] theorem queue_copy : (res.copy c).queue = res.queues.find c := rfl
@[simp] theorem lock_copy : (res.copy c).lock = (res.lock c).core := rfl
@[simp] theorem asts_copy : (res.copy c).asts = res.pendingAsts.count c := rfl

/-- What the owner lets a lock hold; a lock that converts keeps what it had. -/
def Copy.held (copy : Copy Lvb) : Option Mode :=
  match copy.queue with
  | some .granted => some copy.lock.type
  | some .converting => some copy.lock.type
  | _ => none

theorem Copy.mem_held {copy : Copy Lvb} {t : Mode} : t ∈ copy.held ↔
    (copy.queue = some .granted ∨ copy.queue = some .converting) ∧ copy.lock.type = t := by
  simp only [Copy.held, Option.mem_def]
  split <;> simp_all

theorem copy_modifyLock (f : DlmLock Lvb → DlmLock Lvb) :
    (res.modifyLock c f).copy d =
      if d = c then { res.copy c with lock := (f (res.lock c)).core } else res.copy d := by
  split
  · next same => simp [copy, modifyLock, same]
  · next other => simp [copy, modifyLock, other]

/-- What is noted for asts and basts is no part of the copy. -/
theorem copy_modifyLock_of_core (f : DlmLock Lvb → DlmLock Lvb)
    (same : (f (res.lock c)).core = (res.lock c).core) :
    (res.modifyLock c f).copy d = res.copy d := by
  rw [copy_modifyLock, same]
  split
  · next equal =>
      rw [equal]
      rfl
  · rfl

theorem copy_moveTail (queue : Queue) :
    (res.moveTail c queue).copy d =
      if d = c then { res.copy c with queue := some queue } else res.copy d := by
  split
  · next same => simp [copy, moveTail, same, Queues.find_moveTail]
  · next other => simp [copy, moveTail, other, Queues.find_moveTail]

theorem copy_del :
    (res.del c).copy d = if d = c then { res.copy c with queue := none } else res.copy d := by
  split
  · next same => simp [copy, del, same, Queues.find_del]
  · next other => simp [copy, del, other, Queues.find_del]

@[simp] theorem copy_ite_lvb (store : Prop) [Decidable store] (lvb : Lvb) :
    (if store then { res with lvb := lvb } else res).copy d = res.copy d := by
  split <;> rfl

@[simp] theorem copy_kick : res.kick.copy d = res.copy d := rfl

end DlmLockResource

end Ocfs2Coverage.Dlm
