import Ocfs2Coverage.Dlm.Thread

/-!
Contract: what the nodes of the lock manager send each other about a lock resource.

Owns: what a client's call does at a node that does not own the resource, before its
message leaves and when the status comes back; the handlers of the owner; asts and basts
on their way out of the owner and into the node of the lock.

Does not own: which messages are on their way, in which order they arrive; recovery,
migration and the names of resources.
-/

namespace Ocfs2Coverage.Dlm

open Ocfs2Coverage.Kernel

variable {Lvb : Type}

/-! ## Messages -/

/-- A message to the owner, with what the caller keeps until the status comes back:
`dlm_create_lock`, `dlm_convert_lock` and `dlm_unlock_lock`. -/
inductive Call (Lvb : Type) where
  | create (node : Node) (c : Cookie) (type : Mode) (flags : LkmFlags)
  | convert (node : Node) (c : Cookie) (type : Mode) (flags : LkmFlags) (lvb : Lvb)
  | unlock (node : Node) (c : Cookie) (flags : LkmFlags) (lvb : Lvb) (actions : UnlockActions)
deriving DecidableEq

def Call.node : Call Lvb → Node
  | .create node .. => node
  | .convert node .. => node
  | .unlock node .. => node

def Call.cookie : Call Lvb → Cookie
  | .create _ c .. => c
  | .convert _ c .. => c
  | .unlock _ c .. => c

/-- `dlm_proxy_ast` with `DLM_AST`: the value block goes along with `LKM_GET_LVB`. -/
structure ProxyAst (Lvb : Type) where
  node : Node
  cookie : Cookie
  lvb : Option Lvb
deriving DecidableEq

/-- `dlm_proxy_ast` with `DLM_BAST`. -/
structure ProxyBast where
  node : Node
  cookie : Cookie
  blockedType : Mode
deriving DecidableEq

/-! ## Calls of a client -/

/-- `dlm_get_next_cookie`: the node in the top byte, a count below it. -/
def dlmGetNextCookie (node : Node) (next : Nat) : Cookie × Nat :=
  (Fin.ofNat _ (next ||| node.val <<< 56),
    if (next + 1) &&& 0xff00000000000000 ≠ 0 then 1 else next + 1)

/-- The part of `dlmlock` before a new lock goes to the owner or to its message. -/
def dlmNewLock (res : DlmLockResource Lvb) (node : Node) (c : Cookie) (mode : Mode)
    (flags : LkmFlags) (lvb : Lvb) : LkmFlags × DlmLockResource Lvb :=
  let res := res.modifyLock c fun _ => dlmInitLock mode node lvb
  if flags.valblk then
    if mode < .pr then ({ flags with valblk := false }, res)
    else ({ flags with getLvb := true },
      res.modifyLock c fun lock => { lock with getLvb := true })
  else (flags, res)

variable {res t : DlmLockResource Lvb} {c d : Cookie} {flags : LkmFlags} {type : Mode}
  {status status' : DlmStatus}

/-- A new lock asks for the value block from PR upwards. -/
theorem dlmNewLock_spec {node : Node} {lvb : Lvb} {flags' : LkmFlags}
    (result : dlmNewLock res node c type flags lvb = (flags', t)) :
    (∀ d, d ≠ c → t.copy d = res.copy d) ∧ t.lvb = res.lvb ∧
      ∃ get, t.copy c = { res.copy c with
          lock := { dlmInitLock type node lvb with getLvb := get } } ∧
        (get = true → .pr ≤ type) ∧ flags'.putLvb = flags.putLvb ∧
        flags'.getLvb = (flags.getLvb || get) := by
  have new := fun d => res.copy_modifyLock c d fun _ => dlmInitLock type node lvb
  simp only [dlmNewLock] at result
  split at result
  · split at result
    · cases result
      refine ⟨fun d other => by rw [new, if_neg other], rfl, false, by rw [new, if_pos rfl]; rfl,
        by simp, rfl, by simp⟩
    · next high =>
        cases result
        refine ⟨fun d other => ?_, rfl, true, ?_, fun _ => not_lt.1 high, rfl, by simp⟩
        · rw [DlmLockResource.copy_modifyLock, if_neg other, new, if_neg other]
        · rw [DlmLockResource.copy_modifyLock, if_pos rfl, new, if_pos rfl]
          simp [dlmInitLock, DlmLock.core]
  · cases result
    refine ⟨fun d other => by rw [new, if_neg other], rfl, false, by rw [new, if_pos rfl]; rfl,
      by simp, rfl, by simp⟩

/-- `dlmlock_remote` up to its message. -/
def dlmlockRemote (res : DlmLockResource Lvb) (c : Cookie) (flags : LkmFlags) :
    Call Lvb × DlmLockResource Lvb :=
  (.create (res.lock c).node c (res.lock c).type flags, res.moveTail c .blocked)

/-- `dlmlock_remote` from the status on; `dlm_revert_pending_lock`. -/
def dlmlockRemoteStatus (res : DlmLockResource Lvb) (c : Cookie) (status : DlmStatus) :
    DlmLockResource Lvb :=
  if status ≠ .normal then
    (res.del c).modifyLock c fun lock => { lock with getLvb := false }
  else res

theorem copy_dlmlockRemoteStatus (res : DlmLockResource Lvb) (c : Cookie)
    (error : status ≠ .normal) (d : Cookie) :
    (dlmlockRemoteStatus res c status).copy d =
      if d = c then
        { res.copy c with queue := none, lock := { (res.copy c).lock with getLvb := false } }
      else res.copy d := by
  rw [dlmlockRemoteStatus, if_pos error, DlmLockResource.copy_modifyLock,
    DlmLockResource.copy_del, DlmLockResource.copy_del, if_pos rfl]
  split <;> rfl

/-- The flags that `LKM_VALBLK` stands for in a message. -/
def valblkFlags (lock : DlmLock Lvb) (type : Mode) (flags : LkmFlags) : LkmFlags :=
  if flags.valblk then
    if lock.type = .ex then { flags with putLvb := true }
    else if type = .nl then { flags with valblk := false }
    else { flags with getLvb := true }
  else flags

/-- `dlmconvert_remote` up to its message, or the status that it returns without one. -/
def dlmconvertRemote (res : DlmLockResource Lvb) (c : Cookie) (flags : LkmFlags) (type : Mode) :
    (DlmStatus ⊕ Call Lvb) × DlmLockResource Lvb :=
  let lock := res.lock c
  if lock.convertType ≠ none then (.inl .denied, res)
  else if lock.type = type then (.inl .normal, res)
  else
    (.inr (.convert lock.node c type (valblkFlags lock type flags) lock.lvb),
      (res.moveTail c .converting).modifyLock c fun lock =>
        { noteValblk flags type lock with convertPending := true, convertType := some type })

theorem dlmconvertRemote_inl (result : dlmconvertRemote res c flags type = (.inl status, t)) :
    t = res := by
  simp only [dlmconvertRemote] at result
  split_ifs at result <;> cases result <;> rfl

theorem dlmconvertRemote_inr {call : Call Lvb}
    (result : dlmconvertRemote res c flags type = (.inr call, t)) :
    (res.lock c).convertType = none ∧ (res.lock c).type ≠ type ∧ t.lvb = res.lvb ∧
      call = .convert (res.lock c).node c type (valblkFlags (res.lock c) type flags)
        (res.lock c).lvb ∧
      ∀ d, t.copy d = if d = c then ⟨some .converting, { noted res c flags type with
        convertPending := true, convertType := some type }, (res.copy c).asts⟩ else res.copy d := by
  simp only [dlmconvertRemote] at result
  split at result
  · cases result
  next idle =>
  split at result
  · cases result
  next other =>
  cases result
  refine ⟨not_not.1 idle, other, rfl, rfl, fun d => ?_⟩
  rw [DlmLockResource.copy_modifyLock, DlmLockResource.copy_moveTail, DlmLockResource.copy_moveTail,
    if_pos rfl]
  split
  · simp [noted, noteValblk_eq, DlmLock.core, DlmLockResource.moveTail]
  · rfl

/-- `dlmconvert_remote` from the status on; `dlm_revert_pending_convert`. -/
def dlmconvertRemoteStatus (res : DlmLockResource Lvb) (c : Cookie) (status : DlmStatus) :
    DlmStatus × DlmLockResource Lvb :=
  let pending := (res.lock c).convertPending
  let res :=
    if status ≠ .normal then
      (res.moveTail c .granted).modifyLock c fun lock =>
        { lock with convertType := none, getLvb := false, putLvb := false }
    else res
  (if status = .normal ∧ ¬ pending then .recovering else status,
    res.modifyLock c fun lock => { lock with convertPending := false })

theorem copy_dlmconvertRemoteStatus (res : DlmLockResource Lvb) (c : Cookie)
    (status : DlmStatus) (d : Cookie) :
    (dlmconvertRemoteStatus res c status).2.copy d =
      if d = c then
        if status = .normal then
          { res.copy c with lock := { (res.copy c).lock with convertPending := false } }
        else ⟨some .granted, { (res.copy c).lock.plain with
          convertType := none, convertPending := false }, (res.copy c).asts⟩
      else res.copy d := by
  simp only [dlmconvertRemoteStatus]
  rw [DlmLockResource.copy_modifyLock]
  by_cases fine : status = .normal
  · simp only [fine, ne_eq, not_true, if_false, if_true]
    rfl
  · simp only [fine, ne_eq, not_false_eq_true, if_true, if_false]
    rw [DlmLockResource.copy_modifyLock, DlmLockResource.copy_modifyLock,
      DlmLockResource.copy_moveTail, DlmLockResource.copy_moveTail]
    split
    · simp [DlmLock.core, DlmLock.plain, DlmLockResource.moveTail]
    · rfl

/-- What `dlmunlock` leaves of the flags of its caller. -/
def dlmunlockFlags (lock : DlmLock Lvb) (flags : LkmFlags) : LkmFlags :=
  { flags with valblk := flags.valblk && !flags.cancel && decide (lock.type = .ex) }

/-- The status of a request that unlocks or cancels, and what is to be done then. -/
def unlockAnswer (res : DlmLockResource Lvb) (c : Cookie) (cancel : Bool) :
    DlmStatus × UnlockActions :=
  if cancel then dlmGetCancelActions res c else dlmGetUnlockActions res c

/-- `dlmunlock_common` up to its message, for a node that is not the owner. -/
def dlmunlockRemote (res : DlmLockResource Lvb) (c : Cookie) (flags : LkmFlags) :
    Option ((DlmStatus ⊕ Call Lvb) × DlmLockResource Lvb) :=
  let lock := res.lock c
  let flags := dlmunlockFlags lock flags
  let answer := unlockAnswer res c flags.cancel
  if answer.1 ≠ .normal then
    (leaveUnlock res c answer.1).map fun left => (.inl left.1, left.2)
  else
    let sent := { flags with putLvb := flags.putLvb || flags.valblk }
    some (.inr (.unlock lock.node c sent lock.lvb answer.2),
      if flags.cancel then res
      else res.modifyLock c fun lock => { lock with unlockPending := true })

/-- `dlmunlock_common` from the status on: when the owner granted the lock already, the
ast handles all the actions. -/
def dlmunlockRemoteStatus (res : DlmLockResource Lvb) (c : Cookie) (cancel : Bool)
    (actions : UnlockActions) (status : DlmStatus) :
    Option (DlmStatus × DlmLockResource Lvb) :=
  let actions := if status = .cancelGrant then ⟨false, false, false⟩ else actions
  let res :=
    if cancel then res else res.modifyLock c fun lock => { lock with unlockPending := false }
  leaveUnlock (takeActions res c actions) c status

theorem dlmunlockRemote_inl
    (result : dlmunlockRemote res c flags = some (.inl status, t)) : t = res := by
  simp only [dlmunlockRemote] at result
  split at result
  · next error =>
      obtain ⟨⟨status', u⟩, left, same⟩ := Option.map_eq_some_iff.1 result
      cases same
      exact (leaveUnlock_error left error).2
  · cases result

theorem dlmunlockRemote_inr {call : Call Lvb}
    (result : dlmunlockRemote res c flags = some (.inr call, t)) :
    let kept := dlmunlockFlags (res.lock c) flags
    ∃ actions, call = .unlock (res.lock c).node c
        { kept with putLvb := kept.putLvb || kept.valblk } (res.lock c).lvb actions ∧
      t.lvb = res.lvb ∧
      (flags.cancel = true ∧ t = res ∧ dlmGetCancelActions res c = (.normal, actions) ∨
        flags.cancel = false ∧ res.queues.find c = some .granted ∧ actions = ⟨true, false, false⟩ ∧
          ∀ d, t.copy d = if d = c then
            { res.copy c with lock := { (res.copy c).lock with unlockPending := true } }
            else res.copy d) := by
  simp only [dlmunlockRemote] at result
  have kept : (dlmunlockFlags (res.lock c) flags).cancel = flags.cancel := rfl
  split at result
  · obtain ⟨_, -, same⟩ := Option.map_eq_some_iff.1 result
    cases same
  next fine =>
  cases result
  rw [not_not, kept] at fine
  refine ⟨(unlockAnswer res c flags.cancel).2, rfl, by split <;> rfl, ?_⟩
  cases cancel : flags.cancel with
  | true =>
      rw [cancel] at fine
      refine .inl ⟨rfl, by rw [kept, cancel, if_pos rfl], ?_⟩
      rw [← fine]
      rfl
  | false =>
      have here : res.queues.find c = some .granted := by
        by_contra elsewhere
        simp [cancel, unlockAnswer, dlmGetUnlockActions, elsewhere] at fine
      refine .inr ⟨rfl, here, ?_, fun d => ?_⟩
      · simp [unlockAnswer, dlmGetUnlockActions, here]
      · rw [kept, cancel, if_neg (by decide)]
        exact res.copy_modifyLock c d _

/-- What the caller of `dlmunlock_common` does to its copy in the end. -/
theorem dlmunlockRemoteStatus_spec {cancel : Bool} {actions : UnlockActions}
    (result : dlmunlockRemoteStatus res c cancel actions status = some (status', t)) :
    (∀ d, d ≠ c → t.copy d = res.copy d) ∧
      (status = .cancelGrant → cancel = true → t = res) ∧
      (status = .normal → t.copy c =
        ⟨if actions.regrantLock then some .granted
            else if actions.removeLock then none else res.queues.find c,
          { (res.copy c).lock.plain with
            convertType :=
              if actions.clearConvertType then none else (res.lock c).convertType
            unlockPending := if cancel then (res.lock c).unlockPending else false },
          (res.copy c).asts⟩) := by
  have cleared := fun d => res.copy_modifyLock c d fun lock => { lock with unlockPending := false }
  simp only [dlmunlockRemoteStatus] at result
  refine ⟨fun d other => ?_, fun late cancelled => ?_, fun fine => ?_⟩
  · rw [(leaveUnlock_spec result).2.2, if_neg (by simp [other]), copy_takeActions, if_neg other]
    cases cancel with
    | true => rfl
    | false => exact (cleared d).trans (if_neg other)
  · rw [late, if_pos rfl, cancelled, if_pos rfl] at result
    exact (leaveUnlock_error result (by decide)).2
  · subst fine
    simp only [reduceCtorEq, if_false] at result
    rw [(leaveUnlock_spec result).2.2, if_pos ⟨rfl, rfl⟩, copy_takeActions, if_pos rfl]
    cases cancel with
    | true => rfl
    | false =>
        simp only [Bool.false_eq_true, if_false]
        rw [cleared, if_pos rfl]
        rfl

/-! ## Handlers of the owner -/

section

variable [DlmLockCompatible]

/-- `dlm_create_lock_handler`: its lock status block is zeroed. -/
def dlmCreateLockHandler [Inhabited Lvb] (res : DlmLockResource Lvb) (node : Node) (c : Cookie)
    (type : Mode) (flags : LkmFlags) : Option (DlmStatus × DlmLockResource Lvb) :=
  dlmlockMaster (res.modifyLock c fun _ =>
    { dlmInitLock type node default with getLvb := flags.getLvb }) c flags

/-- What the value block flags of a conversion do to the owner's copy. -/
def armLvb (flags : LkmFlags) (lvb : Lvb) (lock : DlmLock Lvb) : DlmLock Lvb :=
  if flags.putLvb then { lock with putLvb := true, lvb := lvb }
  else if flags.getLvb then { lock with getLvb := true }
  else lock

/-- `dlm_convert_lock_handler`. -/
def dlmConvertLockHandler (res : DlmLockResource Lvb) (node : Node) (c : Cookie) (type : Mode)
    (flags : LkmFlags) (lvb : Lvb) : Option (DlmStatus × DlmLockResource Lvb) :=
  if flags.putLvb ∧ flags.getLvb then some (.badArgs, res)
  else if c ∉ res.queues.granted ∨ (res.lock c).node ≠ node then some (.ivLockId, res)
  else
    bugOn ((flags.putLvb ∨ flags.getLvb) ∧ ((res.lock c).putLvb ∨ (res.lock c).getLvb)) <|
      (dlmconvertMaster (res.modifyLock c (armLvb flags lvb)) c flags type).map
        fun (status, res) => (status, if status = .normal then res else res.modifyLock c .plain)

theorem dlmCreateLockHandler_spec [Inhabited Lvb] {node : Node}
    (result : dlmCreateLockHandler res node c type flags = some (status, t)) :
    ∃ new : DlmLockResource Lvb, (∀ d, d ≠ c → new.copy d = res.copy d) ∧
      new.copy c = { res.copy c with
        lock := { dlmInitLock type node default with getLvb := flags.getLvb } } ∧
      new.pendingAsts = res.pendingAsts ∧
      (∀ d, d ≠ c → t.copy d = res.copy d) ∧ t.lvb = res.lvb ∧
      LockOutcome new t c flags status := by
  have copies := fun d => res.copy_modifyLock c d fun _ =>
    { dlmInitLock type node default with getLvb := flags.getLvb }
  obtain ⟨others, lvb, outcome⟩ := dlmlockMaster_spec result
  refine ⟨_, fun d other => (copies d).trans (if_neg other), (copies c).trans (if_pos rfl), rfl,
    fun d other => ?_, lvb, outcome⟩
  rw [others d other]
  exact (copies d).trans (if_neg other)

theorem dlmConvertLockHandler_spec {node : Node} {lvb : Lvb}
    (single : ¬ (flags.putLvb = true ∧ flags.getLvb = true))
    (here : res.queues.find c = some .granted) (mine : (res.lock c).node = node)
    (result : dlmConvertLockHandler res node c type flags lvb = some (status, t)) :
    ∃ new u : DlmLockResource Lvb, (∀ d, d ≠ c → new.copy d = res.copy d) ∧
      new.copy c = { res.copy c with lock := armLvb flags lvb (res.copy c).lock } ∧
      new.lvb = res.lvb ∧ new.pendingAsts = res.pendingAsts ∧
      (∀ d, d ≠ c → u.copy d = res.copy d) ∧ ConvertOutcome new u c flags type status ∧
      t.lvb = u.lvb ∧ (∀ d, d ≠ c → t.copy d = res.copy d) ∧
      t.copy c = if status = .normal then u.copy c
        else { u.copy c with lock := (u.copy c).lock.plain } := by
  simp only [dlmConvertLockHandler, if_neg single, Queues.mem_granted, here, mine, ne_eq,
    not_true, or_self, if_false, bugOn_eq_some] at result
  obtain ⟨⟨status', u⟩, converted, same⟩ := Option.map_eq_some_iff.1 result.2
  cases same
  have copies := fun d => res.copy_modifyLock c d (armLvb flags lvb)
  have core : (armLvb flags lvb (res.lock c)).core = armLvb flags lvb (res.copy c).lock := by
    simp only [armLvb]
    split_ifs <;> rfl
  obtain ⟨others, outcome⟩ := dlmconvertMaster_spec converted
  have others' : ∀ d, d ≠ c → u.copy d = res.copy d := by
    intro d other
    rw [others d other]
    exact (copies d).trans (if_neg other)
  refine ⟨_, u, fun d other => (copies d).trans (if_neg other), ?_, rfl, rfl, others', outcome,
    ?_, fun d other => ?_, ?_⟩
  · rw [← core]
    exact (copies c).trans (if_pos rfl)
  · split <;> rfl
  · split
    · exact others' d other
    · rw [DlmLockResource.copy_modifyLock, if_neg other, others' d other]
  · split
    · rfl
    · rw [DlmLockResource.copy_modifyLock, if_pos rfl]
      rfl

end

/-- The flags of an unlock for the owner's copy. -/
def ownerFlags (lock : DlmLock Lvb) (flags : LkmFlags) : LkmFlags :=
  if lock.type ≠ .ex then { flags with valblk := false, putLvb := false } else flags

/-- `dlm_unlock_lock_handler`. -/
def dlmUnlockLockHandler (res : DlmLockResource Lvb) (node : Node) (c : Cookie)
    (flags : LkmFlags) (lvb : Lvb) : Option (DlmStatus × DlmLockResource Lvb) :=
  if flags.getLvb then some (.badArgs, res)
  else if flags.putLvb ∧ flags.cancel then some (.badArgs, res)
  else if res.queues.find c = none ∨ (res.lock c).node ≠ node then some (.ivLockId, res)
  else
    let flags := ownerFlags (res.lock c) flags
    let res := res.modifyLock c fun lock =>
      if flags.putLvb then { lock with putLvb := true, lvb := lvb } else lock
    (dlmunlockMaster res c flags).map fun (status, res) =>
      (status, (res.modifyLock c fun lock =>
        if flags.putLvb then { lock with putLvb := false } else lock).kick)

theorem dlmUnlockLockHandler_spec {node : Node} {lvb : Lvb} (noGet : flags.getLvb = false)
    (keeps : flags.cancel = true → flags.valblk = false ∧ flags.putLvb = false)
    (here : res.queues.find c ≠ none) (mine : (res.lock c).node = node)
    (result : dlmUnlockLockHandler res node c flags lvb = some (status, t)) :
    let kept := ownerFlags (res.lock c) flags
    ∃ new u : DlmLockResource Lvb, (∀ d, d ≠ c → new.copy d = res.copy d) ∧
      new.copy c = { res.copy c with lock :=
        if kept.putLvb then { (res.copy c).lock with putLvb := true, lvb := lvb }
        else (res.copy c).lock } ∧
      new.lvb = res.lvb ∧ new.pendingAsts = res.pendingAsts ∧ UnlockOutcome new u c kept status ∧
      t.lvb = u.lvb ∧ (∀ d, d ≠ c → t.copy d = res.copy d) ∧
      t.copy c = { u.copy c with lock :=
        if kept.putLvb then { (u.copy c).lock with putLvb := false } else (u.copy c).lock } := by
  intro kept
  simp only [dlmUnlockLockHandler, noGet, Bool.false_eq_true, if_false] at result
  rw [if_neg (fun both => by simpa [keeps both.2] using both.1), if_neg (by simp [here, mine])]
    at result
  obtain ⟨⟨status', u⟩, unlocked, same⟩ := Option.map_eq_some_iff.1 result
  cases same
  have copies := fun d => res.copy_modifyLock c d fun lock =>
    if kept.putLvb then { lock with putLvb := true, lvb := lvb } else lock
  have after := fun d => u.copy_modifyLock c d fun lock =>
    if kept.putLvb then { lock with putLvb := false } else lock
  have plain : kept.cancel = true → kept.valblk = false := by
    intro cancel
    simp only [kept, ownerFlags] at cancel ⊢
    split at cancel
    · next low => rw [if_pos low]
    · next top => rw [if_neg top, (keeps cancel).1]
  obtain ⟨others, outcome⟩ := dlmunlockMaster_spec plain unlocked
  refine ⟨_, u, fun d other => (copies d).trans (if_neg other), ?_, rfl, rfl, outcome, rfl,
    fun d other => ?_, ?_⟩
  · refine (copies c).trans ((if_pos rfl).trans ?_)
    simp only [DlmLockResource.lock_copy]
    split <;> rfl
  · refine (after d).trans ((if_neg other).trans ?_)
    rw [others d other]
    exact (copies d).trans (if_neg other)
  · refine (after c).trans ((if_pos rfl).trans ?_)
    simp only [DlmLockResource.lock_copy]
    split <;> rfl

/-! ## Asts and basts -/

/-- `dlm_update_lvb`. -/
def dlmUpdateLvb (res : DlmLockResource Lvb) (owner : Bool) (c : Cookie) :
    DlmLockResource Lvb :=
  res.modifyLock c fun lock => { lock with
    lvb := if owner ∧ lock.getLvb then res.lvb else lock.lvb
    getLvb := false
    putLvb := false }

/-- The resource behind an ast that was delivered: another one that was queued meanwhile
keeps the flag. -/
def takeAst (res : DlmLockResource Lvb) (c : Cookie) (rest : List Cookie) : DlmLockResource Lvb :=
  (dlmUpdateLvb { res with pendingAsts := rest } true c).modifyLock c
    fun lock => { lock with astPending := decide (c ∈ rest) }

/-- The first ast of `dlm_flush_asts`: `dlm_do_local_ast`, or the message of
`dlm_do_remote_ast`. -/
def dlmFlushAst (res : DlmLockResource Lvb) (thisNode : Node) :
    Option (Option (ProxyAst Lvb) × DlmLockResource Lvb) :=
  match res.pendingAsts with
  | [] => none
  | c :: rest =>
      let lock := res.lock c
      bugOn (¬ lock.astPending) <|
        let res := takeAst res c rest
        if lock.node ≠ thisNode then
          some (some ⟨lock.node, c, if lock.getLvb then some (res.lock c).lvb else none⟩, res)
        else some (none, res)

/-- `dlm_do_local_bast`: the mode that the client is told. -/
def dlmDoLocalBast (res : DlmLockResource Lvb) (thisNode : Node) (c : Cookie)
    (blockedType : Mode) : Option Mode :=
  bugOn ((res.lock c).node ≠ thisNode) (some blockedType)

/-- The first bast of `dlm_flush_asts` with its mode: `dlm_do_local_bast`, or the message of
`dlm_send_proxy_bast`. -/
def dlmFlushBast (res : DlmLockResource Lvb) (thisNode : Node) :
    Option (Mode × Option ProxyBast × DlmLockResource Lvb) :=
  match res.pendingBasts with
  | [] => none
  | c :: rest =>
      bugOn (¬ (res.lock c).bastPending) <|
        match (res.lock c).highestBlocked with
        | none => none
        | some hi =>
            let res := { res.modifyLock c
              fun lock => { lock with highestBlocked := none, bastPending := false }
                with pendingBasts := rest }
            if (res.lock c).node ≠ thisNode then some (hi, some ⟨(res.lock c).node, c, hi⟩, res)
            else (dlmDoLocalBast res thisNode c hi).map (·, none, res)

/-- `dlm_proxy_ast_handler` for an ast, with `dlm_do_local_ast`. -/
def dlmProxyAstHandler (res : DlmLockResource Lvb) (owner thisNode : Node) (c : Cookie)
    (lvb : Option Lvb) : Option (DlmLockResource Lvb) :=
  let lock := res.lock c
  bugOn (owner = thisNode) <|
    if c ∈ res.queues.converting ∨ c ∈ res.queues.blocked ∧ ¬ lock.unlockPending then
      bugOn (lvb.isSome ∧ ¬ lock.getLvb) <|
        bugOn (lock.node ≠ thisNode) <|
          some (dlmUpdateLvb ((res.moveTail c .granted).modifyLock c fun lock => { lock with
            type := lock.convertType.getD lock.type
            convertType := none
            lvb := lvb.getD lock.lvb }) false c)
    else some res

/-- `dlm_proxy_ast_handler` for a bast: what the client is told. A bast for a lock that is
not found, or is on its way out, is dropped. -/
def dlmProxyBastHandler (res : DlmLockResource Lvb) (owner thisNode : Node) (c : Cookie)
    (blockedType : Mode) : Option (Option Mode) :=
  bugOn (owner = thisNode) <|
    if c ∈ res.queues.converting ∨ c ∈ res.queues.granted ∧ ¬ (res.lock c).unlockPending then
      (dlmDoLocalBast res thisNode c blockedType).map some
    else some none

section Asts

variable {thisNode : Node} {past : Option (ProxyAst Lvb)}

theorem copy_dlmUpdateLvb (res : DlmLockResource Lvb) (owner : Bool) (c d : Cookie) :
    (dlmUpdateLvb res owner c).copy d =
      if d = c then { res.copy c with lock := { (res.copy c).lock.plain with
        lvb := if owner = true ∧ (res.lock c).getLvb = true then res.lvb else (res.lock c).lvb } }
      else res.copy d :=
  res.copy_modifyLock c d _

theorem copy_takeAst (res : DlmLockResource Lvb) (c d : Cookie) (rest : List Cookie) :
    (takeAst res c rest).copy d = (dlmUpdateLvb { res with pendingAsts := rest } true c).copy d :=
  DlmLockResource.copy_modifyLock_of_core _ c d _ rfl

/-- A flushed ast takes the value block of the resource along. -/
theorem dlmFlushAst_spec (result : dlmFlushAst res thisNode = some (past, t)) :
    ∃ c, res.pendingAsts.head? = some c ∧ t.lvb = res.lvb ∧
      past = (if (res.lock c).node = thisNode then none else some ⟨(res.lock c).node, c,
        if (res.lock c).getLvb then some res.lvb else none⟩) ∧
      (∀ d, d ≠ c → t.copy d = res.copy d) ∧
      t.copy c = ⟨res.queues.find c, { (res.copy c).lock.plain with
        lvb := if (res.lock c).getLvb then res.lvb else (res.lock c).lvb },
          (res.copy c).asts - 1⟩ ∧ 0 < (res.copy c).asts := by
  simp only [dlmFlushAst] at result
  split at result
  · cases result
  next c rest waits =>
  have copies : ∀ d, (takeAst res c rest).copy d = _ := fun d =>
    (copy_takeAst res c d rest).trans (copy_dlmUpdateLvb { res with pendingAsts := rest } true c d)
  have sent : ((takeAst res c rest).lock c).lvb =
      if (res.lock c).getLvb then res.lvb else (res.lock c).lvb := by
    simp [takeAst, dlmUpdateLvb]
  rw [bugOn_eq_some] at result
  obtain ⟨-, result⟩ := result
  have moved : t = takeAst res c rest ∧
      past = (if (res.lock c).node = thisNode then none else some ⟨(res.lock c).node, c,
        if (res.lock c).getLvb then some res.lvb else none⟩) := by
    split at result
    · next away =>
        cases result
        refine ⟨rfl, ?_⟩
        rw [if_neg away, sent]
        cases (res.lock c).getLvb <;> rfl
    · next home =>
        cases result
        exact ⟨rfl, by rw [if_pos (not_not.1 home)]⟩
  obtain ⟨rfl, told⟩ := moved
  refine ⟨c, by rw [waits]; rfl, rfl, told, fun d other => ?_, ?_, ?_⟩
  · rw [copies, if_neg other]
    have apart : c ≠ d := other.symm
    simp [DlmLockResource.copy, waits, List.count_cons_of_ne apart]
  · rw [copies, if_pos rfl]
    simp [DlmLockResource.copy, waits]
  · simp [waits]

/-- A bast that is sent, or told, is not noted any more, and nothing else changes. -/
theorem dlmFlushBast_spec {hi : Mode} {past : Option ProxyBast}
    (result : dlmFlushBast res thisNode = some (hi, past, t)) :
    ∃ c rest, res.pendingBasts = c :: rest ∧ (res.lock c).highestBlocked = some hi ∧
      past = (if (res.lock c).node = thisNode then none else some ⟨(res.lock c).node, c, hi⟩) ∧
      t = { res.modifyLock c fun lock => { lock with highestBlocked := none, bastPending := false }
        with pendingBasts := rest } := by
  simp only [dlmFlushBast] at result
  split at result
  · cases result
  next c rest waits =>
  rw [bugOn_eq_some] at result
  obtain ⟨-, result⟩ := result
  split at result
  · cases result
  next hi' noted =>
  have node : (({ res.modifyLock c fun lock =>
      { lock with highestBlocked := none, bastPending := false } with pendingBasts := rest } :
        DlmLockResource Lvb).lock c).node = (res.lock c).node := by
    simp
  rw [node] at result
  split at result
  · next away =>
      cases result
      exact ⟨c, rest, waits, noted, (if_neg away).symm, rfl⟩
  · next home =>
      obtain ⟨mode, told, same⟩ := Option.map_eq_some_iff.1 result
      simp only [dlmDoLocalBast, bugOn_eq_some, Option.some.injEq] at told
      cases same
      rw [← told.2]
      exact ⟨c, rest, waits, noted, (if_pos (not_not.1 home)).symm, rfl⟩

theorem copy_dlmFlushBast {hi : Mode} {past : Option ProxyBast}
    (result : dlmFlushBast res thisNode = some (hi, past, t)) :
    t.lvb = res.lvb ∧ t.pendingAsts = res.pendingAsts ∧ ∀ d, t.copy d = res.copy d := by
  obtain ⟨c, rest, -, -, -, rfl⟩ := dlmFlushBast_spec result
  exact ⟨rfl, rfl, fun d => res.copy_modifyLock_of_core c d
    (fun lock => { lock with highestBlocked := none, bastPending := false }) rfl⟩

/-- An ast turns what its lock waits for into what it has. -/
theorem dlmProxyAstHandler_spec {owner : Node} {lvb : Option Lvb}
    (result : dlmProxyAstHandler res owner thisNode c lvb = some t) :
    (∀ d, d ≠ c → t.copy d = res.copy d) ∧
      (res.queues.find c = some .converting ∨
          res.queues.find c = some .blocked ∧ (res.lock c).unlockPending = false →
        (lvb.isSome = true → (res.lock c).getLvb = true) ∧
        t.copy c = ⟨some .granted, { (res.copy c).lock.plain with
          type := (res.lock c).convertType.getD (res.lock c).type
          convertType := none
          lvb := lvb.getD (res.lock c).lvb }, (res.copy c).asts⟩) := by
  simp only [dlmProxyAstHandler, Queues.mem_converting, Queues.mem_blocked] at result
  rw [bugOn_eq_some] at result
  obtain ⟨-, result⟩ := result
  split at result
  · next waits =>
      rw [bugOn_eq_some, bugOn_eq_some] at result
      obtain ⟨fine, -, result⟩ := result
      cases result
      refine ⟨fun d other => ?_, fun _ => ⟨fun some => ?_, ?_⟩⟩
      · rw [copy_dlmUpdateLvb, if_neg other, DlmLockResource.copy_modifyLock, if_neg other,
          DlmLockResource.copy_moveTail, if_neg other]
      · by_contra none
        exact fine ⟨some, none⟩
      · rw [copy_dlmUpdateLvb, if_pos rfl, DlmLockResource.copy_modifyLock, if_pos rfl,
          DlmLockResource.copy_moveTail, if_pos rfl]
        simp [DlmLock.core, DlmLock.plain, DlmLockResource.moveTail]
  · next elsewhere =>
      cases result
      refine ⟨fun _ _ => rfl, fun waits => absurd ?_ elsewhere⟩
      simpa using waits

/-- A client is told of the mode if and only if its lock is found and stays. -/
theorem dlmProxyBastHandler_spec {owner : Node} {mode : Mode} {told : Option Mode}
    (result : dlmProxyBastHandler res owner thisNode c mode = some told) :
    told = if res.queues.find c = some .converting ∨
        res.queues.find c = some .granted ∧ (res.lock c).unlockPending = false then some mode
      else none := by
  simp only [dlmProxyBastHandler, dlmDoLocalBast, Queues.mem_converting, Queues.mem_granted,
    Bool.not_eq_true] at result
  rw [bugOn_eq_some] at result
  obtain ⟨-, result⟩ := result
  split at result
  · next found =>
      obtain ⟨mode', told', same⟩ := Option.map_eq_some_iff.1 result
      rw [bugOn_eq_some, Option.some.injEq] at told'
      rw [if_pos found, ← same, ← told'.2]
  · next lost =>
      cases result
      rw [if_neg lost]

end Asts

end Ocfs2Coverage.Dlm
