import Ocfs2Coverage.Dlm.Resource

/-!
Contract: what the owner of a lock resource does with a request (`dlmlock.c`,
`dlmconvert.c`, `dlmunlock.c`, and the ast queue of `dlmast.c`).

Owns: granting, queueing and refusing locks and conversions, unlocking and
cancelling, as one step under the lock of the resource each.

Does not own: messages, the thread that grants what waits; recovery and migration, so
a resource is in its normal state throughout.
-/

namespace Ocfs2Coverage.Dlm

open Ocfs2Coverage.Kernel

variable {Lvb : Type}

/-- The values of `enum dlm_status` that requests end with. -/
inductive DlmStatus where
  | normal
  | denied
  | notQueued
  | cancelGrant
  | ivLockId
  | badParam
  | badArgs
  | recovering
deriving DecidableEq, Repr

/-- The `LKM_` flags of a request. -/
structure LkmFlags where
  noqueue : Bool
  valblk : Bool
  getLvb : Bool
  putLvb : Bool
  cancel : Bool
deriving DecidableEq, Repr

/-! ## Asts -/

def dlmShouldCancelBast (res : DlmLockResource Lvb) (c : Cookie) : Option Bool :=
  let lock := res.lock c
  match lock.highestBlocked with
  | none => some false
  | some hi => bugOn (hi = .nl) <|
      if lock.bastPending ∧ c ∉ res.pendingBasts then some false
      else match lock.type with
        | .ex => some false
        | .nl => some true
        | .pr => some (hi ≠ .ex)

/-- A bast that waits is dropped. -/
def cancelBast (res : DlmLockResource Lvb) (c : Cookie) : DlmLockResource Lvb :=
  { res.modifyLock c fun lock => { lock with bastPending := false, highestBlocked := none }
    with pendingBasts := res.pendingBasts.filter (· ≠ c) }

/-- `__dlm_queue_ast`: an ast makes a bast that waits for the same lock obsolete, unless
the new mode still blocks. -/
def dlmQueueAst (res : DlmLockResource Lvb) (c : Cookie) :
    Option (DlmLockResource Lvb) :=
  bugOn (c ∈ res.pendingAsts) do
    let obsolete ← dlmShouldCancelBast res c
    let res := if obsolete then cancelBast res c else res
    some { res.modifyLock c fun lock => { lock with astPending := true }
      with pendingAsts := res.pendingAsts ++ [c] }

variable {res t : DlmLockResource Lvb} {c d : Cookie}

theorem core_cancelBast (res : DlmLockResource Lvb) (c d : Cookie) :
    ((cancelBast res c).lock d).core = (res.lock d).core := by
  simp only [cancelBast, DlmLockResource.lock_modifyLock]
  split
  · next same => rw [same]; rfl
  · rfl

/-- An ast in the list changes nothing else than what is noted for asts and basts. -/
theorem dlmQueueAst_spec (result : dlmQueueAst res c = some t) :
    c ∉ res.pendingAsts ∧ t.queues = res.queues ∧ t.lvb = res.lvb ∧ t.dirty = res.dirty ∧
      t.pendingAsts = res.pendingAsts ++ [c] ∧ ∀ d, (t.lock d).core = (res.lock d).core := by
  simp only [dlmQueueAst, bugOn_eq_some] at result
  obtain ⟨fresh, result⟩ := result
  obtain ⟨obsolete, -, same⟩ := Option.bind_eq_some_iff.1 result
  cases same
  have pending : ∀ (u : DlmLockResource Lvb) d, ((u.modifyLock c fun lock =>
      { lock with astPending := true }).lock d).core = (u.lock d).core := by
    intro u d
    rw [DlmLockResource.lock_modifyLock]
    split
    · next same => rw [same]; rfl
    · rfl
  cases obsolete with
  | true =>
      exact ⟨fresh, rfl, rfl, rfl, rfl, fun d => (pending _ d).trans (core_cancelBast res c d)⟩
  | false => exact ⟨fresh, rfl, rfl, rfl, rfl, pending res⟩

theorem copy_dlmQueueAst (result : dlmQueueAst res c = some t) (d : Cookie) :
    t.copy d = if d = c then { res.copy c with asts := (res.copy c).asts + 1 } else res.copy d := by
  obtain ⟨-, queues, -, -, asts, core⟩ := dlmQueueAst_spec result
  split
  · next same => simp [DlmLockResource.copy, queues, asts, core, same]
  · next other =>
      have apart : c ≠ d := fun same => other same.symm
      simp [DlmLockResource.copy, queues, asts, core, List.count_cons_of_ne apart]

/-! ## The flags of a conversion -/

/-- The flags of the lock status block that `LKM_VALBLK` sets for a conversion. -/
def noteValblk (flags : LkmFlags) (type : Mode) (lock : DlmLock Lvb) : DlmLock Lvb :=
  if flags.valblk then
    if lock.type = .ex then { lock with putLvb := true }
    else if .nl < type then { lock with getLvb := true }
    else lock
  else lock

/-- `LKM_VALBLK` sets the put flag of an EX lock and the get flag of any other that
converts to more than NL. -/
theorem noteValblk_eq (flags : LkmFlags) (type : Mode) (lock : DlmLock Lvb) :
    noteValblk flags type lock = { lock with
      getLvb := lock.getLvb || flags.valblk && decide (lock.type ≠ .ex ∧ .nl < type)
      putLvb := lock.putLvb || flags.valblk && decide (lock.type = .ex) } := by
  simp only [noteValblk]
  by_cases valblk : flags.valblk = true
  · by_cases top : lock.type = .ex
    · simp [valblk, top]
    · by_cases some : .nl < type <;> simp [valblk, top, some]
  · simp [valblk]

/-- The copy of the lock behind the `LKM_VALBLK` part of a conversion. -/
def noted (res : DlmLockResource Lvb) (c : Cookie) (flags : LkmFlags) (type : Mode) :
    DlmLock Lvb := noteValblk flags type (res.lock c).core

theorem core_noteValblk (flags : LkmFlags) (type : Mode) (lock : DlmLock Lvb) :
    (noteValblk flags type lock).core = noteValblk flags type lock.core := by
  rw [noteValblk_eq, noteValblk_eq]
  rfl

theorem copy_noteValblk (res : DlmLockResource Lvb) (c : Cookie) (flags : LkmFlags)
    (type : Mode) (d : Cookie) : (res.modifyLock c (noteValblk flags type)).copy d =
      if d = c then { res.copy c with lock := noted res c flags type } else res.copy d := by
  rw [DlmLockResource.copy_modifyLock, core_noteValblk]
  rfl

/-- What stands behind the label `grant`. -/
def grantConvert (res : DlmLockResource Lvb) (c : Cookie) (type : Mode) :
    DlmLockResource Lvb :=
  let res := res.modifyLock c fun lock => { lock with type := type }
  let res := if (res.lock c).putLvb then { res with lvb := (res.lock c).lvb } else res
  res.moveTail c .granted

theorem copy_grantConvert (res : DlmLockResource Lvb) (c : Cookie) (type : Mode)
    (d : Cookie) : (grantConvert res c type).copy d =
      if d = c then
        ⟨some .granted, { (res.copy c).lock with type := type }, (res.copy c).asts⟩
      else res.copy d := by
  simp only [grantConvert]
  rw [DlmLockResource.copy_moveTail, DlmLockResource.copy_ite_lvb, DlmLockResource.copy_ite_lvb,
    DlmLockResource.copy_modifyLock, if_pos rfl, DlmLockResource.copy_modifyLock]
  split <;> rfl

theorem pendingAsts_grantConvert (res : DlmLockResource Lvb) (c : Cookie) (type : Mode) :
    (grantConvert res c type).pendingAsts = res.pendingAsts := by
  simp only [grantConvert, DlmLockResource.moveTail]
  split <;> rfl

theorem lvb_grantConvert (res : DlmLockResource Lvb) (c : Cookie) (type : Mode) :
    (grantConvert res c type).lvb = if (res.lock c).putLvb then (res.lock c).lvb else res.lvb := by
  simp only [grantConvert, DlmLockResource.moveTail, DlmLockResource.lock_modifyLock, if_true]
  split <;> rfl

section

variable [DlmLockCompatible]

open DlmLockCompatible

/-! ## New locks -/

def dlmCanGrantNewLock (res : DlmLockResource Lvb) (c : Cookie) : Bool :=
  let type := (res.lock c).type
  res.queues.granted.all (fun l => dlmLockCompatible (some (res.lock l).type) type) &&
    res.queues.converting.all fun l =>
      dlmLockCompatible (some (res.lock l).type) type &&
        dlmLockCompatible (res.lock l).convertType type

/-- `dlmlock_master`. -/
def dlmlockMaster (res : DlmLockResource Lvb) (c : Cookie) (flags : LkmFlags) :
    Option (DlmStatus × DlmLockResource Lvb) :=
  if dlmCanGrantNewLock res c then do
    let res ← dlmQueueAst (res.moveTail c .granted) c
    some (.normal, res.kick)
  else if flags.noqueue then some (.notQueued, res)
  else some (.normal, (res.moveTail c .blocked).kick)

/-- A lock that can be granted goes together with everything that is held. -/
theorem compatible_of_canGrant (fits : dlmCanGrantNewLock res c = true) {u : Mode}
    (held : u ∈ (res.copy d).held) : u.Compatible (res.lock c).type := by
  simp only [dlmCanGrantNewLock, Bool.and_eq_true, List.all_eq_true, Queues.mem_granted,
    Queues.mem_converting] at fits
  obtain ⟨queue, rfl⟩ := DlmLockResource.Copy.mem_held.1 held
  rcases queue with granted | converting
  · exact (compatible_iff _ _).1 (fits.1 d granted)
  · exact (compatible_iff _ _).1 (fits.2 d converting).1

/-- What becomes of a new lock. -/
inductive LockOutcome (res t : DlmLockResource Lvb) (c : Cookie) (flags : LkmFlags) :
    DlmStatus → Prop where
  | granted (fits : dlmCanGrantNewLock res c = true) (fresh : c ∉ res.pendingAsts)
      (copy : t.copy c = ⟨some .granted, (res.copy c).lock, (res.copy c).asts + 1⟩) :
      LockOutcome res t c flags .normal
  | queued (stands : dlmCanGrantNewLock res c = false)
      (copy : t.copy c = { res.copy c with queue := some .blocked }) :
      LockOutcome res t c flags .normal
  | refused (noqueue : flags.noqueue = true) (same : t = res) :
      LockOutcome res t c flags .notQueued

theorem dlmlockMaster_spec {flags : LkmFlags} {status : DlmStatus}
    (result : dlmlockMaster res c flags = some (status, t)) :
    (∀ d, d ≠ c → t.copy d = res.copy d) ∧ t.lvb = res.lvb ∧
      LockOutcome res t c flags status := by
  simp only [dlmlockMaster] at result
  split at result
  · next fits =>
      obtain ⟨u, queued, same⟩ := Option.bind_eq_some_iff.1 result
      cases same
      obtain ⟨fresh, -, lvb, -⟩ := dlmQueueAst_spec queued
      have copies := copy_dlmQueueAst queued
      refine ⟨fun d other => ?_, lvb, .granted fits fresh ?_⟩
      · rw [DlmLockResource.copy_kick, copies, if_neg other, DlmLockResource.copy_moveTail,
          if_neg other]
      · rw [DlmLockResource.copy_kick, copies, if_pos rfl, DlmLockResource.copy_moveTail, if_pos rfl]
  · next stands =>
      split at result
      · next noqueue =>
          cases result
          exact ⟨fun _ _ => rfl, rfl, .refused noqueue rfl⟩
      · cases result
        refine ⟨fun d other => ?_, rfl, .queued (by simpa using stands) ?_⟩
        · rw [DlmLockResource.copy_kick, DlmLockResource.copy_moveTail, if_neg other]
        · rw [DlmLockResource.copy_kick, DlmLockResource.copy_moveTail, if_pos rfl]

/-! ## Conversions -/

/-- Whether nothing stands against a conversion upwards. -/
def canConvert (res : DlmLockResource Lvb) (c : Cookie) (type : Mode) : Bool :=
  res.queues.granted.all (fun l =>
      l == c || dlmLockCompatible (some (res.lock l).type) type) &&
    res.queues.converting.all fun l =>
      dlmLockCompatible (some (res.lock l).type) type &&
        dlmLockCompatible (res.lock l).convertType type

/-- `dlmconvert_master` with `__dlmconvert_master`. -/
def dlmconvertMaster (res : DlmLockResource Lvb) (c : Cookie) (flags : LkmFlags)
    (type : Mode) : Option (DlmStatus × DlmLockResource Lvb) :=
  let lock := res.lock c
  if lock.convertType ≠ none then some (.denied, res)
  else if c ∉ res.queues.granted then some (.denied, res)
  else
    let res := res.modifyLock c (noteValblk flags type)
    if type ≤ lock.type ∨ canConvert res c type then do
      let res ← dlmQueueAst (grantConvert res c type) c
      some (.normal, res.kick)
    else if flags.noqueue then some (.notQueued, res)
    else
      let res := res.modifyLock c fun lock => { lock with convertType := some type }
      some (.normal, (res.moveTail c .converting).kick)

/-- So can a conversion that nothing stands against. -/
theorem compatible_of_canConvert {type : Mode} (fits : canConvert res c type = true)
    (other : d ≠ c) {u : Mode} (held : u ∈ (res.copy d).held) : u.Compatible type := by
  simp only [canConvert, Bool.and_eq_true, List.all_eq_true, Queues.mem_granted,
    Queues.mem_converting, Bool.or_eq_true, beq_iff_eq] at fits
  obtain ⟨queue, rfl⟩ := DlmLockResource.Copy.mem_held.1 held
  rcases queue with granted | converting
  · exact (compatible_iff _ _).1 ((fits.1 d granted).resolve_left other)
  · exact (compatible_iff _ _).1 (fits.2 d converting).1

/-- What becomes of a conversion. -/
inductive ConvertOutcome (res t : DlmLockResource Lvb) (c : Cookie) (flags : LkmFlags)
    (type : Mode) : DlmStatus → Prop where
  | denied (busy : (res.lock c).convertType ≠ none ∨ res.queues.find c ≠ some .granted)
      (same : t = res) : ConvertOutcome res t c flags type .denied
  | granted (idle : (res.lock c).convertType = none)
      (here : res.queues.find c = some .granted) (fresh : c ∉ res.pendingAsts)
      (fits : type ≤ (res.lock c).type ∨
        ∀ d, d ≠ c → ∀ u ∈ (res.copy d).held, u.Compatible type)
      (lvb : t.lvb = if (noted res c flags type).putLvb then (res.lock c).lvb else res.lvb)
      (copy : t.copy c =
        ⟨some .granted, { noted res c flags type with type := type }, (res.copy c).asts + 1⟩) :
      ConvertOutcome res t c flags type .normal
  | refused (idle : (res.lock c).convertType = none)
      (here : res.queues.find c = some .granted) (upwards : (res.lock c).type < type)
      (noqueue : flags.noqueue = true) (lvb : t.lvb = res.lvb)
      (copy : t.copy c = { res.copy c with lock := noted res c flags type }) :
      ConvertOutcome res t c flags type .notQueued
  | queued (idle : (res.lock c).convertType = none)
      (here : res.queues.find c = some .granted) (upwards : (res.lock c).type < type)
      (lvb : t.lvb = res.lvb)
      (copy : t.copy c = ⟨some .converting,
        { noted res c flags type with convertType := some type }, (res.copy c).asts⟩) :
      ConvertOutcome res t c flags type .normal

theorem dlmconvertMaster_spec {flags : LkmFlags} {type : Mode} {status : DlmStatus}
    (result : dlmconvertMaster res c flags type = some (status, t)) :
    (∀ d, d ≠ c → t.copy d = res.copy d) ∧ ConvertOutcome res t c flags type status := by
  simp only [dlmconvertMaster] at result
  split at result
  · next busy =>
      cases result
      exact ⟨fun _ _ => rfl, .denied (.inl busy) rfl⟩
  next idle =>
  rw [not_not] at idle
  split at result
  · next elsewhere =>
      cases result
      exact ⟨fun _ _ => rfl, .denied (.inr (by simpa using elsewhere)) rfl⟩
  next here =>
  rw [not_not, Queues.mem_granted] at here
  have note := copy_noteValblk res c flags type
  split at result
  · next fits =>
      obtain ⟨u, queued, same⟩ := Option.bind_eq_some_iff.1 result
      cases same
      obtain ⟨fresh, -, lvb, -⟩ := dlmQueueAst_spec queued
      have copies := copy_dlmQueueAst queued
      refine ⟨fun d other => ?_, .granted idle here ?_ ?_ ?_ ?_⟩
      · rw [DlmLockResource.copy_kick, copies, if_neg other, copy_grantConvert, if_neg other, note,
          if_neg other]
      · rwa [pendingAsts_grantConvert] at fresh
      · refine fits.imp_right fun fits d other u held => ?_
        refine compatible_of_canConvert fits other ?_
        rwa [note, if_neg other]
      · show u.lvb = _
        rw [lvb, lvb_grantConvert]
        simp [noted, noteValblk_eq, DlmLock.core]
      · rw [DlmLockResource.copy_kick, copies, if_pos rfl, copy_grantConvert, if_pos rfl, note,
          if_pos rfl]
  · next stands =>
      rw [not_or, not_le] at stands
      split at result
      · next noqueue =>
          cases result
          refine ⟨fun d other => ?_, .refused idle here stands.1 noqueue rfl ?_⟩
          · rw [note, if_neg other]
          · rw [note, if_pos rfl]
      · cases result
        refine ⟨fun d other => ?_, .queued idle here stands.1 rfl ?_⟩
        · rw [DlmLockResource.copy_kick, DlmLockResource.copy_moveTail, if_neg other,
            DlmLockResource.copy_modifyLock, if_neg other, note, if_neg other]
        · rw [DlmLockResource.copy_kick, DlmLockResource.copy_moveTail, if_pos rfl,
            DlmLockResource.copy_modifyLock, if_pos rfl, note, if_pos rfl]
          simp [noted, noteValblk_eq, DlmLock.core]

end

/-! ## Unlocking -/

/-- The `DLM_UNLOCK_` actions on the queues. -/
structure UnlockActions where
  removeLock : Bool
  regrantLock : Bool
  clearConvertType : Bool
deriving DecidableEq, Repr

def dlmGetCancelActions (res : DlmLockResource Lvb) (c : Cookie) :
    DlmStatus × UnlockActions :=
  if c ∈ res.queues.blocked then (.normal, ⟨true, false, false⟩)
  else if c ∈ res.queues.converting then (.normal, ⟨true, true, true⟩)
  else if c ∈ res.queues.granted then (.cancelGrant, ⟨false, false, false⟩)
  else (.ivLockId, ⟨false, false, false⟩)

def dlmGetUnlockActions (res : DlmLockResource Lvb) (c : Cookie) :
    DlmStatus × UnlockActions :=
  if c ∉ res.queues.granted then (.denied, ⟨false, false, false⟩)
  else (.normal, ⟨true, false, false⟩)

/-- The part of `dlmunlock_common` that carries the actions out. -/
def takeActions (res : DlmLockResource Lvb) (c : Cookie) (actions : UnlockActions) :
    DlmLockResource Lvb :=
  let res := if actions.removeLock then res.del c else res
  let res := if actions.regrantLock then res.moveTail c .granted else res
  if actions.clearConvertType then
    res.modifyLock c fun lock => { lock with convertType := none }
  else res

/-- The end of `dlmunlock_common`: the queue of the lock and its `convert_type` must
agree, and a request that went well needs no lock value block any more. -/
def leaveUnlock (res : DlmLockResource Lvb) (c : Cookie) (status : DlmStatus) :
    Option (DlmStatus × DlmLockResource Lvb) :=
  bugOn (c ∈ res.queues.converting ↔ (res.lock c).convertType = none) <|
    some (status,
      if status = .normal then
        res.modifyLock c fun lock => { lock with putLvb := false, getLvb := false }
      else res)

/-- `dlmunlock_common` for the owner. -/
def dlmunlockMaster (res : DlmLockResource Lvb) (c : Cookie) (flags : LkmFlags) :
    Option (DlmStatus × DlmLockResource Lvb) :=
  if c ∈ res.pendingAsts ∧ ¬ flags.cancel then some (.badParam, res)
  else
    let (status, actions) :=
      if flags.cancel then dlmGetCancelActions res c else dlmGetUnlockActions res c
    if status ≠ .normal ∧ status ≠ .cancelGrant then leaveUnlock res c status
    else
      let res := if flags.valblk then { res with lvb := (res.lock c).lvb } else res
      leaveUnlock (takeActions res c actions) c status

theorem dlmGetCancelActions_eq (res : DlmLockResource Lvb) (c : Cookie) :
    dlmGetCancelActions res c = match res.queues.find c with
      | some .blocked => (.normal, ⟨true, false, false⟩)
      | some .converting => (.normal, ⟨true, true, true⟩)
      | some .granted => (.cancelGrant, ⟨false, false, false⟩)
      | none => (.ivLockId, ⟨false, false, false⟩) := by
  simp only [dlmGetCancelActions, Queues.mem_blocked, Queues.mem_converting, Queues.mem_granted]
  cases res.queues.find c with
  | none => rfl
  | some queue => cases queue <;> rfl

theorem copy_takeActions (res : DlmLockResource Lvb) (c : Cookie) (actions : UnlockActions)
    (d : Cookie) : (takeActions res c actions).copy d =
      if d = c then
        ⟨if actions.regrantLock then some .granted
          else if actions.removeLock then none else (res.copy c).queue,
          { (res.copy c).lock with
            convertType :=
              if actions.clearConvertType then none else (res.copy c).lock.convertType },
          (res.copy c).asts⟩
      else res.copy d := by
  obtain ⟨remove, regrant, clear⟩ := actions
  have cleared := fun (res : DlmLockResource Lvb) f => res.copy_modifyLock c d f
  simp only [takeActions]
  by_cases same : d = c
  · subst same
    cases remove <;> cases regrant <;> cases clear <;>
      simp [cleared, DlmLockResource.copy_moveTail, DlmLockResource.copy_del] <;> rfl
  · cases remove <;> cases regrant <;> cases clear <;>
      simp [cleared, DlmLockResource.copy_moveTail, DlmLockResource.copy_del, same]

theorem lvb_takeActions (res : DlmLockResource Lvb) (c : Cookie) (actions : UnlockActions) :
    (takeActions res c actions).lvb = res.lvb := by
  obtain ⟨remove, regrant, clear⟩ := actions
  cases remove <;> cases regrant <;> cases clear <;> rfl

/-- A lock without the flags for its value block. -/
def DlmLock.plain (lock : DlmLock Lvb) : DlmLock Lvb :=
  { lock with putLvb := false, getLvb := false }

theorem leaveUnlock_spec {status status' : DlmStatus}
    (result : leaveUnlock res c status = some (status', t)) :
    status' = status ∧ t.lvb = res.lvb ∧ ∀ d, t.copy d =
      if d = c ∧ status = .normal then { res.copy c with lock := (res.copy c).lock.plain }
      else res.copy d := by
  simp only [leaveUnlock, bugOn_eq_some, Option.some.injEq, Prod.mk.injEq] at result
  obtain ⟨-, rfl, rfl⟩ := result
  refine ⟨rfl, by split <;> rfl, fun d => ?_⟩
  by_cases fine : status = .normal
  · simp only [fine, if_true, and_true]
    exact res.copy_modifyLock c d _
  · simp [fine]

theorem leaveUnlock_error {status status' : DlmStatus}
    (result : leaveUnlock res c status = some (status', t)) (error : status ≠ .normal) :
    status' = status ∧ t = res := by
  simp only [leaveUnlock, bugOn_eq_some, Option.some.injEq, Prod.mk.injEq, if_neg error] at result
  exact ⟨result.2.1.symm, result.2.2.symm⟩

/-- What becomes of a lock that is unlocked or whose request is cancelled. -/
inductive UnlockOutcome (res t : DlmLockResource Lvb) (c : Cookie) (flags : LkmFlags) :
    DlmStatus → Prop where
  | busy (unlock : flags.cancel = false) (waits : c ∈ res.pendingAsts) (same : t = res) :
      UnlockOutcome res t c flags .badParam
  | denied (unlock : flags.cancel = false) (elsewhere : res.queues.find c ≠ some .granted)
      (same : t = res) : UnlockOutcome res t c flags .denied
  | unlocked (unlock : flags.cancel = false) (idle : c ∉ res.pendingAsts)
      (here : res.queues.find c = some .granted)
      (lvb : t.lvb = if flags.valblk then (res.lock c).lvb else res.lvb)
      (copy : t.copy c = { res.copy c with queue := none, lock := (res.copy c).lock.plain }) :
      UnlockOutcome res t c flags .normal
  | tooLate (cancel : flags.cancel = true) (here : res.queues.find c = some .granted)
      (same : t = res) : UnlockOutcome res t c flags .cancelGrant
  | unknown (cancel : flags.cancel = true) (nowhere : res.queues.find c = none)
      (same : t = res) : UnlockOutcome res t c flags .ivLockId
  | withdrawn (cancel : flags.cancel = true) (here : res.queues.find c = some .blocked)
      (lvb : t.lvb = res.lvb)
      (copy : t.copy c = { res.copy c with queue := none, lock := (res.copy c).lock.plain }) :
      UnlockOutcome res t c flags .normal
  | reverted (cancel : flags.cancel = true) (here : res.queues.find c = some .converting)
      (lvb : t.lvb = res.lvb)
      (copy : t.copy c = { res.copy c with
        queue := some .granted, lock := { (res.copy c).lock.plain with convertType := none } }) :
      UnlockOutcome res t c flags .normal

/-- A cancel request carries no value block. -/
theorem dlmunlockMaster_spec {flags : LkmFlags} {status : DlmStatus}
    (keeps : flags.cancel = true → flags.valblk = false)
    (result : dlmunlockMaster res c flags = some (status, t)) :
    (∀ d, d ≠ c → t.copy d = res.copy d) ∧ UnlockOutcome res t c flags status := by
  simp only [dlmunlockMaster] at result
  split at result
  · next busy =>
      cases result
      exact ⟨fun _ _ => rfl, .busy (by simpa using busy.2) busy.1 rfl⟩
  next free =>
  cases cancel : flags.cancel with
  | true =>
      simp only [cancel, if_true, keeps cancel, Bool.false_eq_true, if_false,
        dlmGetCancelActions_eq] at result
      cases here : res.queues.find c with
      | none =>
          simp only [here] at result
          obtain ⟨rfl, rfl⟩ := leaveUnlock_error result (by decide)
          exact ⟨fun _ _ => rfl, .unknown cancel here rfl⟩
      | some queue =>
          cases queue with
          | granted =>
              simp only [here] at result
              obtain ⟨rfl, rfl⟩ := leaveUnlock_error result (by decide)
              exact ⟨fun _ _ => rfl, .tooLate cancel here rfl⟩
          | converting =>
              simp only [here] at result
              obtain ⟨rfl, lvb, copy⟩ := leaveUnlock_spec result
              refine ⟨fun d other => ?_, .reverted cancel here lvb ?_⟩
              · rw [copy, if_neg (by simp [other]), copy_takeActions, if_neg other]
              · rw [copy, if_pos ⟨rfl, rfl⟩, copy_takeActions, if_pos rfl]
                rfl
          | blocked =>
              simp only [here] at result
              obtain ⟨rfl, lvb, copy⟩ := leaveUnlock_spec result
              refine ⟨fun d other => ?_, .withdrawn cancel here lvb ?_⟩
              · rw [copy, if_neg (by simp [other]), copy_takeActions, if_neg other]
              · rw [copy, if_pos ⟨rfl, rfl⟩, copy_takeActions, if_pos rfl]
                rfl
  | false =>
      simp only [cancel, Bool.false_eq_true, if_false, dlmGetUnlockActions] at result
      by_cases here : res.queues.find c = some .granted
      · simp only [Queues.mem_granted, here, not_true, if_false] at result
        obtain ⟨rfl, lvb, copy⟩ := leaveUnlock_spec result
        refine ⟨fun d other => ?_, .unlocked cancel (by simpa [cancel] using free) here ?_ ?_⟩
        · rw [copy, if_neg (by simp [other]), copy_takeActions, if_neg other,
            DlmLockResource.copy_ite_lvb]
        · rw [lvb, lvb_takeActions]
          split <;> rfl
        · rw [copy, if_pos ⟨rfl, rfl⟩, copy_takeActions, if_pos rfl, DlmLockResource.copy_ite_lvb]
          rfl
      · simp only [Queues.mem_granted, here, not_false_eq_true, if_true] at result
        obtain ⟨rfl, rfl⟩ := leaveUnlock_error result (by decide)
        exact ⟨fun _ _ => rfl, .denied cancel here rfl⟩

end Ocfs2Coverage.Dlm
