import Ocfs2Coverage.Dlm.Notes
import Ocfs2Coverage.Dlm.Coherence

/-!
Contract: the assertions of the lock manager.

Owns: that none fails behind any run as long as the thread delivers basts before it grants
again, and that the owner knows every lock it is asked about.

Does not own: assertions about nodes that die, recovery and migration.
-/

namespace Ocfs2Coverage.Dlm

open Ocfs2Coverage.Kernel
open Ocfs2Coverage.Runs

variable {Lvb : Type} {res t : DlmLockResource Lvb} {c d : Cookie} {flags : LkmFlags}
  {type : Mode} {status : DlmStatus}

/-! ## One operation -/

theorem exists_dlmQueueAst (res : DlmLockResource Lvb) (c : Cookie)
    (high : (res.lock c).highestBlocked ≠ some .nl)
    (fresh : c ∉ res.pendingAsts) :
    ∃ t, dlmQueueAst res c = some t := by
  have decided : ∃ obsolete, dlmShouldCancelBast res c = some obsolete := by
    simp only [dlmShouldCancelBast]
    cases blocked : (res.lock c).highestBlocked with
    | none => exact ⟨false, rfl⟩
    | some hi =>
        have some' : hi ≠ .nl := by
          rintro rfl
          exact high blocked
        simp only [bugOn, if_neg some']
        split
        · exact ⟨_, rfl⟩
        · cases (res.lock c).type <;> exact ⟨_, rfl⟩
  obtain ⟨obsolete, decided⟩ := decided
  simp only [dlmQueueAst, bugOn, if_neg fresh, decided]
  exact ⟨_, rfl⟩

/-- A lock converts if and only if its `convert_type` says so. -/
def DlmLockResource.Copy.Agrees (copy : DlmLockResource.Copy Lvb) : Prop :=
  copy.queue = some .converting ↔ copy.lock.convertType ≠ none

theorem exists_leaveUnlock (agrees : (res.copy c).Agrees) (status : DlmStatus) :
    ∃ t, leaveUnlock res c status = some (status, t) := by
  have fine : ¬ (c ∈ res.queues.converting ↔ (res.lock c).convertType = none) := by
    intro same
    have same' : res.queues.find c = some .converting ↔ (res.lock c).convertType = none := by
      simpa using same
    exact iff_not_self (same'.symm.trans agrees)
  simp only [leaveUnlock, bugOn, if_neg fine]
  exact ⟨_, rfl⟩

theorem agrees_takeActions (agrees : (res.copy c).Agrees) {actions : UnlockActions}
    (removes : actions.removeLock = true → actions.regrantLock = false →
      (res.copy c).lock.convertType = none)
    (regrants : actions.regrantLock = actions.clearConvertType) :
    ((takeActions res c actions).copy c).Agrees := by
  obtain ⟨remove, regrant, clear⟩ := actions
  cases regrants
  rw [copy_takeActions, if_pos rfl]
  cases regrant with
  | true => simp [DlmLockResource.Copy.Agrees]
  | false =>
      cases remove with
      | true => simpa [DlmLockResource.Copy.Agrees] using removes rfl rfl
      | false => exact agrees

theorem exists_dlmunlockMaster (agrees : (res.copy c).Agrees) (flags : LkmFlags) :
    ∃ status t, dlmunlockMaster res c flags = some (status, t) := by
  have idle : ∀ queue, res.queues.find c = some queue → queue ≠ .converting →
      (res.copy c).lock.convertType = none := by
    intro queue here other
    by_contra busy
    have converts : res.queues.find c = some .converting := agrees.2 busy
    rw [here, Option.some.injEq] at converts
    exact other converts
  have acts : ∀ actions : UnlockActions, (actions.removeLock = true →
      actions.regrantLock = false → (res.copy c).lock.convertType = none) →
      actions.regrantLock = actions.clearConvertType → ∀ status (store : Bool), ∃ status' t,
        leaveUnlock (takeActions (if store then { res with lvb := (res.lock c).lvb } else res)
          c actions) c status = some (status', t) := by
    intro actions removes regrants status store
    have agrees' : ((if store = true then { res with lvb := (res.lock c).lvb }
        else res).copy c).Agrees := by
      rwa [DlmLockResource.copy_ite_lvb]
    obtain ⟨t, left⟩ := exists_leaveUnlock
      (agrees_takeActions agrees' (by rwa [DlmLockResource.copy_ite_lvb]) regrants) status
    exact ⟨status, t, left⟩
  simp only [dlmunlockMaster]
  split
  · exact ⟨_, _, rfl⟩
  · cases cancel : flags.cancel with
    | true =>
        simp only [if_true, dlmGetCancelActions_eq]
        cases here : res.queues.find c with
        | none =>
            obtain ⟨t, left⟩ := exists_leaveUnlock agrees .ivLockId
            exact ⟨_, t, left⟩
        | some queue =>
            cases queue with
            | granted => exact acts ⟨false, false, false⟩ (by simp) rfl .cancelGrant _
            | converting => exact acts ⟨true, true, true⟩ (by simp) rfl .normal _
            | blocked =>
                exact acts ⟨true, false, false⟩ (fun _ _ => idle _ here (by decide)) rfl .normal _
    | false =>
        simp only [Bool.false_eq_true, if_false, dlmGetUnlockActions]
        by_cases here : res.queues.find c = some .granted
        · simp only [Queues.mem_granted, here, not_true, if_false]
          exact acts ⟨true, false, false⟩ (fun _ _ => idle _ here (by decide)) rfl .normal _
        · simp only [Queues.mem_granted, here, not_false_eq_true, if_true]
          obtain ⟨t, left⟩ := exists_leaveUnlock agrees .denied
          exact ⟨_, t, left⟩

theorem exists_dlmunlockRemoteStatus {cancel : Bool} {actions : UnlockActions}
    (agrees : (res.copy c).Agrees)
    (removes : status ≠ .cancelGrant → actions.removeLock = true → actions.regrantLock = false →
      (res.copy c).lock.convertType = none)
    (regrants : actions.regrantLock = actions.clearConvertType) :
    ∃ t, dlmunlockRemoteStatus res c cancel actions status = some (status, t) := by
  simp only [dlmunlockRemoteStatus]
  refine exists_leaveUnlock (agrees_takeActions ?_ ?_ ?_) status
  · cases cancel with
    | true => exact agrees
    | false =>
        simp only [Bool.false_eq_true, if_false, DlmLockResource.copy_modifyLock, if_true]
        exact agrees
  · intro remove regrant
    have late : status ≠ .cancelGrant := by
      rintro rfl
      cases remove
    rw [if_neg late] at remove regrant
    have idle := removes late remove regrant
    cases cancel with
    | true => exact idle
    | false =>
        simp only [Bool.false_eq_true, if_false, DlmLockResource.copy_modifyLock, if_true]
        exact idle
  · split
    · rfl
    · exact regrants

theorem exists_dlmFlushBast (sound : NotesSound res) (thisNode : Node)
    (waits : res.pendingBasts ≠ []) :
    ∃ hi past t, dlmFlushBast res thisNode = some (hi, past, t) := by
  simp only [dlmFlushBast]
  cases basts : res.pendingBasts with
  | nil => exact absurd basts waits
  | cons c rest =>
      have member : c ∈ res.pendingBasts := by simp [basts]
      obtain ⟨hi, blocked⟩ := Option.ne_none_iff_exists'.1 ((sound.blocked c).2 member)
      simp only [(sound.pending c).2 member, not_true, bugOn, if_false, blocked]
      split
      · exact ⟨_, _, _, rfl⟩
      · next home => simpa [dlmDoLocalBast, bugOn] using home

theorem exists_dlmFlushAst (sound : NotesSound res) (thisNode : Node)
    (waits : res.pendingAsts ≠ []) : ∃ past t, dlmFlushAst res thisNode = some (past, t) := by
  obtain ⟨c, rest, asts⟩ := List.exists_cons_of_ne_nil waits
  have noted : (res.lock c).astPending = true := sound.asts c (by simp [asts])
  simp only [dlmFlushAst, asts, bugOn, noted, not_true, if_false]
  split
  · exact ⟨_, _, rfl⟩
  · exact ⟨_, _, rfl⟩

theorem highestBlocked_grantConvert (res : DlmLockResource Lvb) (c : Cookie) (type : Mode) :
    ((grantConvert res c type).lock c).highestBlocked = (res.lock c).highestBlocked := by
  simp only [grantConvert, DlmLockResource.moveTail]
  split <;> simp

section

variable [DlmLockCompatible]

theorem exists_dlmlockMaster (res : DlmLockResource Lvb) (c : Cookie)
    (high : (res.lock c).highestBlocked ≠ some .nl)
    (fresh : c ∉ res.pendingAsts) (flags : LkmFlags) :
    ∃ status t, dlmlockMaster res c flags = some (status, t) := by
  simp only [dlmlockMaster]
  split
  · obtain ⟨t, queued⟩ :=
      exists_dlmQueueAst (res.moveTail c .granted) c high fresh
    rw [queued]
    exact ⟨_, _, rfl⟩
  · split
    · exact ⟨_, _, rfl⟩
    · exact ⟨_, _, rfl⟩

theorem exists_dlmconvertMaster (res : DlmLockResource Lvb) (c : Cookie)
    (high : (res.lock c).highestBlocked ≠ some .nl)
    (fresh : c ∉ res.pendingAsts) (flags : LkmFlags) (type : Mode) :
    ∃ status t, dlmconvertMaster res c flags type = some (status, t) := by
  simp only [dlmconvertMaster]
  split
  · exact ⟨_, _, rfl⟩
  split
  · exact ⟨_, _, rfl⟩
  split
  · obtain ⟨t, queued⟩ := exists_dlmQueueAst
      (grantConvert (res.modifyLock c (noteValblk flags type)) c type) c
      (by
        rw [highestBlocked_grantConvert, DlmLockResource.lock_modifyLock, if_pos rfl,
          (noteValblk_notes flags type _).highestBlocked]
        exact high)
      (by
        rw [pendingAsts_grantConvert]
        exact fresh)
    rw [queued]
    exact ⟨_, _, rfl⟩
  split
  · exact ⟨_, _, rfl⟩
  · exact ⟨_, _, rfl⟩

end

/-! ## The thread -/

/-- A lock that waits has nothing left to deliver, and says what it waits for. -/
structure Ready (res : DlmLockResource Lvb) : Prop where
  basts : NotesSound res
  delivered : ∀ c ∈ res.pendingBasts,
    res.queues.find c ≠ some .converting ∧ res.queues.find c ≠ some .blocked
  convert : ∀ c, res.queues.find c = some .converting → (res.lock c).convertType ≠ none
  asts : ∀ c, res.queues.find c = some .converting ∨ res.queues.find c = some .blocked →
    c ∉ res.pendingAsts

/-- Granting a lock that waits goes well, and the others stay ready. -/
theorem Ready.grant (ready : Ready res) (f : DlmLock Lvb → DlmLock Lvb)
    (waits : res.queues.find c = some .converting ∨ res.queues.find c = some .blocked)
    (same : SameNotes (res.lock c) (f (res.lock c))) :
    ∃ t, grantTarget (res.modifyLock c f) c = some t ∧ Ready t := by
  have calm : ((res.modifyLock c f).lock c).highestBlocked = none := by
    rw [DlmLockResource.lock_modifyLock, if_pos rfl, same.highestBlocked]
    by_contra noted
    have told := ready.delivered c ((ready.basts.blocked c).1 noted)
    rcases waits with here | here
    · exact told.1 here
    · exact told.2 here
  obtain ⟨t, queued⟩ := exists_dlmQueueAst ((res.modifyLock c f).moveTail c .granted) c
    (by
      show ((res.modifyLock c f).lock c).highestBlocked ≠ _
      rw [calm]
      simp)
    (ready.asts c waits)
  have moved : KeepsNotes (res.modifyLock c f) ((res.modifyLock c f).moveTail c .granted) :=
    .of_same rfl rfl fun _ => rfl
  have kept := ((KeepsNotes.modifyLock res c f same).trans moved).trans
    (keepsNotes_dlmQueueAst queued)
  obtain ⟨-, queues, -, -, asts, core⟩ := dlmQueueAst_spec queued
  have find : ∀ d, t.queues.find d = if d = c then some .granted else res.queues.find d := by
    intro d
    rw [queues]
    exact Queues.find_moveTail ..
  have waiting : ∀ d queue, queue ≠ .granted → t.queues.find d = some queue →
      d ≠ c ∧ res.queues.find d = some queue := by
    intro d queue other here
    rw [find] at here
    split at here
    · exact absurd (Option.some.inj here).symm other
    · next apart => exact ⟨apart, here⟩
  refine ⟨t, ?_, kept.sound ready.basts, fun d member => ?_, fun d here => ?_, fun d here => ?_⟩
  · simp only [grantTarget, calm, ne_eq, not_true, bugOn, if_false]
    exact queued
  · have told := ready.delivered d (kept.fewer member)
    exact ⟨fun here => told.1 (waiting d _ (by decide) here).2,
      fun here => told.2 (waiting d _ (by decide) here).2⟩
  · obtain ⟨apart, here⟩ := waiting d _ (by decide) here
    have convert : (t.lock d).convertType = (res.lock d).convertType := by
      rw [← core_convertType, core d]
      show ((res.modifyLock c f).lock d).core.convertType = _
      rw [DlmLockResource.lock_modifyLock, if_neg apart, core_convertType]
    rw [convert]
    exact ready.convert d here
  · have waits' : d ≠ c ∧ (res.queues.find d = some .converting ∨
        res.queues.find d = some .blocked) := by
      rcases here with here | here
      · obtain ⟨apart, here⟩ := waiting d _ (by decide) here
        exact ⟨apart, .inl here⟩
      · obtain ⟨apart, here⟩ := waiting d _ (by decide) here
        exact ⟨apart, .inr here⟩
    rw [asts, List.mem_append, List.mem_singleton, not_or]
    exact ⟨ready.asts d waits'.2, waits'.1⟩

section

variable [DlmLockCompatible]

theorem Ready.shuffleBlocked (ready : Ready res) (canGrant : Bool) :
    ∃ again t, shuffleBlocked canGrant res = some (again, t) ∧ (again = true → Ready t) := by
  simp only [Dlm.shuffleBlocked]
  split
  · exact ⟨false, _, rfl, fun again => by cases again⟩
  next target rest waits =>
  have here : res.queues.find target = some .blocked := by
    rw [← Queues.mem_blocked, waits]
    exact List.mem_cons_self
  obtain ⟨granted, u, loops, same, -⟩ :=
    noteQueues_basts target (res.lock target).type canGrant ready.basts
  rw [loops]
  cases granted with
  | false => exact ⟨false, u, rfl, fun again => by cases again⟩
  | true =>
      cases same rfl
      obtain ⟨t, taken, ready'⟩ := ready.grant id (.inr here) rfl
      have unchanged : res.modifyLock target id = res := by
        simp [DlmLockResource.modifyLock]
      rw [unchanged] at taken
      exact ⟨true, t, by simp [taken], fun _ => ready'⟩

theorem Ready.shuffleConverting (ready : Ready res) :
    ∃ again t, shuffleConverting res = some (again, t) ∧ (again = true → Ready t) := by
  simp only [Dlm.shuffleConverting]
  split
  · exact ready.shuffleBlocked true
  next target rest waits =>
  have here : res.queues.find target = some .converting := by
    rw [← Queues.mem_converting, waits]
    exact List.mem_cons_self
  obtain ⟨mode, wants⟩ := Option.ne_none_iff_exists'.1 (ready.convert target here)
  obtain ⟨granted, u, loops, same, stays⟩ := noteQueues_basts target mode true ready.basts
  simp only [wants]
  rw [loops]
  cases granted with
  | true =>
      cases same rfl
      obtain ⟨t, taken, ready'⟩ := ready.grant
        (fun lock => { lock with type := mode, convertType := none }) (.inl here)
        rfl
      exact ⟨true, t, by simp [taken], fun _ => ready'⟩
  | false =>
      -- Nothing is granted behind a note, so only the basts have to stay sound here.
      simp only [Option.bind_eq_bind, Option.bind_some, Bool.false_eq_true, if_false,
        Dlm.shuffleBlocked]
      split
      · exact ⟨false, u, rfl, fun again => by cases again⟩
      obtain ⟨granted', v, loops', -, -⟩ :=
        noteQueues_basts _ (u.lock _).type false stays.sound
      rw [loops']
      have none := ((noteBlockers_spec loops').2.1.1 : _ → _)
      cases granted' with
      | true => cases (none rfl).1
      | false => exact ⟨false, v, rfl, fun again => by cases again⟩

/-- The thread goes through the queues without a failure. -/
theorem Ready.dlmShuffleLists (ready : Ready res) : ∃ t, dlmShuffleLists res = some t := by
  simp only [Dlm.dlmShuffleLists]
  generalize res.queues.converting.length + res.queues.blocked.length + 1 = rounds
  induction rounds generalizing res with
  | zero => exact ⟨res, rfl⟩
  | succ rounds inductionHypothesis =>
      obtain ⟨again, t, round, ready'⟩ := ready.shuffleConverting
      simp only [shuffleRounds, round, Option.bind_eq_bind, Option.bind_some]
      cases again with
      | true => exact inductionHypothesis (ready' rfl)
      | false => exact ⟨t, rfl⟩

end

/-! ## Messages on their way -/

section Cluster

variable {owner n : Node} {s : Cluster Lvb} {last : Lvb} {phase : Phase} {call : Call Lvb}

theorem Conforms.agreesThere (conforms : Conforms owner s c phase) :
    ((s.res owner).copy c).Agrees ∨ (s.res owner).queues.find c = none := by
  have place := conforms.there
  cases phase with
  | absent | requested t | refused t | left t => exact .inr (place_eq_none.1 place)
  | queued t | given t | idle t | asked t u | waiting t u | converted t u | turnedDown t u
  | cancelled t u | leaving t =>
      obtain ⟨queue, -, -, convert, -⟩ := place_eq_some.1 place
      left
      rw [DlmLockResource.Copy.Agrees, queue, convert]
      simp

theorem Conforms.agreesHere (conforms : Conforms owner s c phase) :
    (s.own c).Agrees ∨ (s.own c).queue = none := by
  have place := conforms.here
  cases phase with
  | absent => exact .inr (place_eq_none.1 place)
  | requested t | refused t | left t | queued t | given t | idle t | asked t u | waiting t u
  | converted t u | turnedDown t u | cancelled t u | leaving t =>
      obtain ⟨queue, -, -, convert, -⟩ := place_eq_some.1 place
      left
      rw [DlmLockResource.Copy.Agrees, queue, convert]
      simp

/-- What the owner's copy of a lock in its queues is like. -/
theorem Invariant.agrees (inv : Invariant owner s) {queue : Queue}
    (here : (s.res owner).queues.find c = some queue) : ((s.res owner).copy c).Agrees ∧
      (queue ≠ .granted → c ∉ (s.res owner).pendingAsts) := by
  by_cases home : dlmGetLockCookieNode c = owner
  · obtain ⟨-, -, waits, -, convert⟩ := (inv.home c home).of_queue here
    refine ⟨?_, fun waiting => List.count_eq_zero.1 (waits waiting)⟩
    rw [DlmLockResource.Copy.Agrees, ← convert, DlmLockResource.queue_copy, here,
      Option.some.injEq]
  · obtain ⟨phase, conforms⟩ := inv.remote c home
    refine ⟨conforms.agreesThere.resolve_right (by simp [here]), fun waiting => ?_⟩
    refine List.count_eq_zero.1 (conforms.noAst ?_).1
    have queue' := conforms.queue
    rw [here] at queue'
    cases phase with
    | absent | requested t | refused t | left t => rfl
    | queued t | idle t | asked t u | waiting t u | turnedDown t u | cancelled t u
    | leaving t => rfl
    | given t | converted t u => exact absurd (Option.some.inj queue') waiting

/-- The statuses of a request that the owner could make sense of. -/
def Understood (status : DlmStatus) : Prop :=
  status = .normal ∨ status = .notQueued ∨ status = .cancelGrant

variable [DlmLockCompatible] [Inhabited Lvb]

theorem Invariant.handledCreate (inv : Invariant owner s) {node : Node}
    (sent : (Call.create node c type flags, none) ∈ s.calls) : ∃ status t,
      dlmCreateLockHandler (s.res owner) node c type flags = some (status, t) ∧
        Understood status := by
  obtain ⟨rest, calls⟩ := Multiset.exists_cons_of_mem sent
  obtain ⟨-, -, -, phase, conforms, waits⟩ := inv.awaited (c := c) calls rfl
  obtain ⟨-, rfl⟩ := phase_of_errand waits
  obtain ⟨status, t, result⟩ := exists_dlmlockMaster
    ((s.res owner).modifyLock c fun _ =>
      { dlmInitLock type node default with getLvb := flags.getLvb }) c (by simp [dlmInitLock])
    (List.count_eq_zero.1 (conforms.noAst rfl).1) flags
  have result : dlmCreateLockHandler (s.res owner) node c type flags = some (status, t) := result
  obtain ⟨new, -, -, -, -, -, outcome⟩ := dlmCreateLockHandler_spec result
  refine ⟨status, t, result, ?_⟩
  cases outcome with
  | granted | queued => exact .inl rfl
  | refused => exact .inr (.inl rfl)

omit [Inhabited Lvb] in
theorem Coherent.handledConvert (coherent : Coherent owner s last) (inv : Invariant owner s)
    (basts : NotesSound (s.res owner)) {node : Node} {lvb : Lvb}
    (sent : (Call.convert node c type flags lvb, none) ∈ s.calls) : ∃ status t,
      dlmConvertLockHandler (s.res owner) node c type flags lvb = some (status, t) ∧
        Understood status := by
  obtain ⟨rest, calls⟩ := Multiset.exists_cons_of_mem sent
  obtain ⟨⟨remote, -, single⟩, -, sender, phase, conforms, waits⟩ :=
    inv.awaited (c := c) calls rfl
  obtain ⟨-, t, rfl⟩ := phase_of_errand waits
  have sender : dlmGetLockCookieNode c = node := sender
  have away : dlmGetLockCookieNode c ≠ owner := by
    rw [sender]
    exact remote
  obtain ⟨here, node', -, convert, -⟩ := place_eq_some.1 conforms.there
  have here : (s.res owner).queues.find c = some .granted := here
  have node' : ((s.res owner).lock c).node = node := node'.trans sender
  obtain ⟨noAst, -⟩ := conforms.noAst rfl
  obtain ⟨noGet, noPut⟩ := (coherent.sound c).clear away here noAst
  have noGet : ((s.res owner).lock c).getLvb = false := noGet
  have noPut : ((s.res owner).lock c).putLvb = false := noPut
  have high : (armLvb flags lvb ((s.res owner).lock c)).highestBlocked ≠ some .nl := by
    obtain ⟨get, put, lvb', arm⟩ := armLvb_eq flags lvb ((s.res owner).lock c)
    rw [arm]
    exact basts.high c
  obtain ⟨status, u, converted⟩ := exists_dlmconvertMaster
    ((s.res owner).modifyLock c (armLvb flags lvb)) c (by simpa using high)
    (List.count_eq_zero.1 noAst) flags type
  have result : dlmConvertLockHandler (s.res owner) node c type flags lvb =
      some (status, if status = .normal then u else u.modifyLock c .plain) := by
    have single : ¬ (flags.putLvb = true ∧ flags.getLvb = true) := single
    rw [dlmConvertLockHandler, if_neg single]
    simp [here, node', noGet, noPut, bugOn, converted]
  refine ⟨status, _, result, ?_⟩
  obtain ⟨new, v, -, copy, -, -, -, outcome, -⟩ :=
    dlmConvertLockHandler_spec single here node' result
  cases outcome with
  | granted | queued => exact .inl rfl
  | refused => exact .inr (.inl rfl)
  | denied busy =>
      obtain ⟨get, put, lvb', arm⟩ := armLvb_eq flags lvb ((s.res owner).copy c).lock
      rw [arm] at copy
      rcases busy with busy | elsewhere
      · exact absurd ((congrArg (fun copy => copy.lock.convertType) copy).trans convert) busy
      · exact absurd ((congrArg DlmLockResource.Copy.queue copy).trans here) elsewhere

omit [DlmLockCompatible] [Inhabited Lvb] in
theorem Invariant.handledUnlock (inv : Invariant owner s) {node : Node} {lvb : Lvb}
    {actions : UnlockActions}
    (sent : (Call.unlock node c flags lvb actions, none) ∈ s.calls) : ∃ status t,
      dlmUnlockLockHandler (s.res owner) node c flags lvb = some (status, t) ∧
        Understood status := by
  obtain ⟨rest, calls⟩ := Multiset.exists_cons_of_mem sent
  obtain ⟨⟨-, -, noGet, keeps, -⟩, -, sender, phase, conforms, waits⟩ :=
    inv.awaited (c := c) calls rfl
  have sender : dlmGetLockCookieNode c = node := sender
  -- An unlock finds its lock granted without an ast, a cancel finds it granted or converting.
  have stands : (s.res owner).queues.find c = some .granted ∨
      flags.cancel = true ∧ (s.res owner).queues.find c = some .converting := by
    cases cancel : flags.cancel with
    | false =>
        obtain ⟨t, rfl⟩ := conforms.awaits (e := .unlock) sent rfl (by simp [errand, cancel])
        exact .inl conforms.queue
    | true =>
        have may := conforms.cancels ⟨node, flags, lvb, actions, _, sent, cancel⟩
        rcases conforms.cancellable may with here | ⟨-, -, -, here⟩
        · exact .inl here
        · exact .inr ⟨rfl, here⟩
  obtain ⟨queue, here⟩ : ∃ queue, (s.res owner).queues.find c = some queue := by
    rcases stands with here | ⟨-, here⟩
    · exact ⟨_, here⟩
    · exact ⟨_, here⟩
  have mine : ((s.res owner).lock c).node = node := (inv.node_of_queue here).trans sender
  have known : (s.res owner).queues.find c ≠ none := by simp [here]
  have agrees : (((s.res owner).modifyLock c fun lock =>
      if (ownerFlags ((s.res owner).lock c) flags).putLvb then
        { lock with putLvb := true, lvb := lvb } else lock).copy c).Agrees := by
    rw [DlmLockResource.copy_modifyLock, if_pos rfl, DlmLockResource.Copy.Agrees]
    have agrees := (inv.agrees here).1
    split <;> exact agrees
  obtain ⟨status, u, unlocked⟩ := exists_dlmunlockMaster agrees
    (ownerFlags ((s.res owner).lock c) flags)
  have result : ∃ t, dlmUnlockLockHandler (s.res owner) node c flags lvb = some (status, t) := by
    simp only [dlmUnlockLockHandler, noGet, Bool.false_eq_true, if_false]
    rw [if_neg (fun both => by simpa [keeps both.2] using both.1), if_neg (by simp [known, mine]),
      unlocked]
    exact ⟨_, rfl⟩
  obtain ⟨t, result⟩ := result
  refine ⟨status, t, result, ?_⟩
  obtain ⟨new, v, -, copy, -, asts, outcome, -⟩ :=
    dlmUnlockLockHandler_spec noGet keeps known mine result
  have queue' : new.queues.find c = (s.res owner).queues.find c :=
    congrArg DlmLockResource.Copy.queue copy
  cases outcome with
  | unlocked | withdrawn | reverted => exact .inl rfl
  | tooLate => exact .inr (.inr rfl)
  | busy unlock waiting =>
      rw [ownerFlags_cancel] at unlock
      obtain ⟨t, rfl⟩ := conforms.awaits (e := .unlock) sent rfl (by simp [errand, unlock])
      rw [asts] at waiting
      exact absurd waiting (List.count_eq_zero.1 (conforms.noAst rfl).1)
  | denied unlock elsewhere =>
      rw [ownerFlags_cancel] at unlock
      rcases stands with here | ⟨cancel, -⟩
      · exact absurd (queue'.trans here) elsewhere
      · rw [unlock] at cancel
        cases cancel
  | unknown cancel nowhere => exact absurd (queue'.symm.trans nowhere) known

omit [DlmLockCompatible] [Inhabited Lvb] in
/-- The caller of an unlock or a cancel can take its answer back. -/
theorem Invariant.returnedUnlock (inv : Invariant owner s) {node : Node} {lvb : Lvb}
    {actions : UnlockActions}
    (answered : (Call.unlock node c flags lvb actions, some status) ∈ s.calls) :
    ∃ t, dlmunlockRemoteStatus (s.res node) c flags.cancel actions status = some (status, t) := by
  obtain ⟨rest, calls⟩ := Multiset.exists_cons_of_mem answered
  obtain ⟨⟨-, -, -, -, act⟩, -, sender, phase, conforms, waits⟩ := inv.awaited (c := c) calls rfl
  have sender : dlmGetLockCookieNode c = node := sender
  have here := conforms.here
  rw [Cluster.own, sender] at here
  have agrees := conforms.agreesHere
  rw [Cluster.own, sender] at agrees
  cases cancel : flags.cancel with
  | true =>
      have may := conforms.cancels ⟨node, flags, lvb, actions, _, answered, cancel⟩
      have stands : ((s.res node).copy c).queue ≠ none := by
        rw [ne_eq, ← place_eq_none, here]
        cases phase <;> first | exact absurd may id | simp [Phase.here]
      rw [act, cancel]
      exact exists_dlmunlockRemoteStatus (agrees.resolve_right stands) (by simp) rfl
  | false =>
      have leaves : status = .normal ∧ ∃ t, phase = .left t := by
        cases status with
        | normal =>
            exact ⟨rfl, conforms.awaits (e := .unlocked) answered rfl (by simp [errand, cancel])⟩
        | denied | notQueued | cancelGrant | ivLockId | badParam | badArgs | recovering =>
            exact absurd (conforms.awaits (e := .broken) answered rfl (by simp [errand, cancel])) id
      obtain ⟨rfl, t, rfl⟩ := leaves
      obtain ⟨queue, -, -, convert, -⟩ := place_eq_some.1 here
      rw [act, cancel]
      exact exists_dlmunlockRemoteStatus (agrees.resolve_right (by rw [queue]; simp))
        (fun _ _ _ => convert) rfl

omit [DlmLockCompatible] [Inhabited Lvb] in
/-- A lock in a queue of its own node says so. -/
theorem Invariant.own_node (inv : Invariant owner s) {n : Node} (remote : n ≠ owner)
    (mine : dlmGetLockCookieNode c = n) {queue : Queue}
    (here : (s.res n).queues.find c = some queue) : ((s.res n).lock c).node = n := by
  obtain ⟨phase, conforms⟩ := inv.remote c (by rwa [mine])
  have place : ((s.res n).copy c).place = some ⟨((s.res n).lock c).node, queue,
      ((s.res n).lock c).type, ((s.res n).lock c).convertType,
      ((s.res n).lock c).unlockPending⟩ := place_eq_some.2 ⟨here, rfl, rfl, rfl, rfl⟩
  have own := conforms.here
  rw [Cluster.own, mine, place] at own
  cases phase with
  | absent => cases own
  | requested | queued | given | refused | idle | asked | waiting | converted | turnedDown
  | cancelled | leaving | left => exact congrArg Place.node (Option.some.inj own)

omit [DlmLockCompatible] [Inhabited Lvb] in
/-- An ast takes a value block only to a lock that asked for one. -/
theorem Coherent.delivered (coherent : Coherent owner s last) (inv : Invariant owner s)
    {past : ProxyAst Lvb} (sent : past ∈ s.asts) :
    ∃ t, dlmProxyAstHandler (s.res past.node) owner past.node past.cookie past.lvb = some t := by
  obtain ⟨remote, home⟩ := inv.asts past sent
  have fine : ¬ (past.lvb.isSome = true ∧
      ¬ ((s.res past.node).lock past.cookie).getLvb = true) := by
    rintro ⟨taken, plain⟩
    obtain ⟨lvb, taken⟩ := Option.isSome_iff_exists.1 taken
    obtain ⟨-, -, asked⟩ := (coherent.sound past.cookie).asts past sent rfl lvb taken
    rw [Cluster.own, home] at asked
    exact plain asked
  simp only [dlmProxyAstHandler, bugOn, if_neg remote.symm, if_neg fine, Queues.mem_converting,
    Queues.mem_blocked]
  split
  · next waits =>
      have node : ((s.res past.node).lock past.cookie).node = past.node := by
        rcases waits with here | ⟨here, -⟩
        · exact inv.own_node remote home here
        · exact inv.own_node remote home here
      rw [if_neg (not_not.2 node)]
      exact ⟨_, rfl⟩
  · exact ⟨_, rfl⟩

omit [DlmLockCompatible] [Inhabited Lvb] in
/-- A bast reaches the node of its lock, which drops it or tells its own client. -/
theorem NotesInvariant.delivered (basts : NotesInvariant owner s) (inv : Invariant owner s)
    {past : ProxyBast} (sent : past ∈ s.basts) :
    ∃ told, dlmProxyBastHandler (s.res past.node) owner past.node past.cookie past.blockedType =
      some told := by
  obtain ⟨remote, home⟩ := basts.sent past sent
  simp only [dlmProxyBastHandler, dlmDoLocalBast, bugOn, if_neg remote.symm,
    Queues.mem_converting, Queues.mem_granted]
  split
  · next found =>
      have node : ((s.res past.node).lock past.cookie).node = past.node := by
        rcases found with here | ⟨here, -⟩
        · exact inv.own_node remote home here
        · exact inv.own_node remote home here
      rw [if_neg (not_not.2 node)]
      exact ⟨_, rfl⟩
  · exact ⟨_, rfl⟩

omit [DlmLockCompatible] [Inhabited Lvb] in
theorem Invariant.ready (inv : Invariant owner s) (basts : NotesSound (s.res owner))
    (delivered : ∀ c ∈ (s.res owner).pendingBasts, (s.res owner).queues.find c ≠ some .converting ∧
      (s.res owner).queues.find c ≠ some .blocked) : Ready (s.res owner) where
  basts := basts
  delivered := delivered
  convert _ here := (inv.agrees here).1.1 here
  asts c waits := by
    rcases waits with here | here
    · exact (inv.agrees here).2 (by decide)
    · exact (inv.agrees here).2 (by decide)

/-- Whatever is under way can go on: no assertion fails, and the owner can make sense of
every request. -/
structure Moves (owner : Node) (s : Cluster Lvb) : Prop where
  handle : ∀ call, (call, none) ∈ s.calls → ∃ status t,
    handleCall (s.res owner) call = some (status, t) ∧ Understood status
  answer : ∀ call status, (call, some status) ∈ s.calls →
    ∃ t, returnCall (s.res call.node) status call = some t
  ast : ∀ past ∈ s.asts, ∃ t,
    dlmProxyAstHandler (s.res past.node) owner past.node past.cookie past.lvb = some t
  flush : (s.res owner).pendingAsts ≠ [] →
    ∃ past t, dlmFlushAst (s.res owner) owner = some (past, t)
  flushBast : (s.res owner).pendingBasts ≠ [] →
    ∃ hi past t, dlmFlushBast (s.res owner) owner = some (hi, past, t)
  bast : ∀ past ∈ s.basts, ∃ told, dlmProxyBastHandler (s.res past.node) owner past.node
    past.cookie past.blockedType = some told
  lock : ∀ c next mode flags flags' lvb new, s.next owner + 1 < 2 ^ 56 →
    dlmGetNextCookie owner (s.next owner) = (c, next) →
    dlmNewLock (s.res owner) owner c mode flags lvb = (flags', new) →
    ∃ status t, dlmlockMaster new c flags' = some (status, t)
  convert : ∀ c flags type, Usable (s.res owner) owner c →
    ∃ status t, dlmconvertMaster (s.res owner) c flags type = some (status, t)
  unlock : ∀ c flags, (s.res owner).queues.find c ≠ none →
    ∃ status t, dlmunlockMaster (s.res owner) c flags = some (status, t)
  unlockRemote : ∀ n c flags, n ≠ owner → (s.res n).queues.find c ≠ none →
    ∃ answer t, dlmunlockRemote (s.res n) c flags = some (answer, t)
  shuffle : (∀ c ∈ (s.res owner).pendingBasts, (s.res owner).queues.find c ≠ some .converting ∧
    (s.res owner).queues.find c ≠ some .blocked) → ∃ t, dlmShuffleLists (s.res owner) = some t

/-- No assertion of the lock manager fails behind any run, as long as no lock that waits has
a bast to be delivered when the thread goes through the queues; and no message to the owner
is about a lock that it does not know or cannot serve. -/
theorem no_assertion_fails {lvb : Lvb} {events : List (Event Lvb)}
    (run : Run (Step owner) (.start lvb) events s) : Moves owner s := by
  obtain ⟨inv, coherent⟩ := coherent_of_run run
  obtain ⟨-, basts⟩ := notesInvariant_of_run run
  refine ⟨fun call sent => ?_, fun call status answered => ?_,
    fun past sent => coherent.delivered inv sent, exists_dlmFlushAst basts.sound owner,
    exists_dlmFlushBast basts.sound owner, fun past sent => basts.delivered inv sent, ?_,
    fun c flags type usable => ?_, fun c flags here => ?_,
    fun n c flags remote here => ?_,
    fun delivered => (inv.ready basts.sound delivered).dlmShuffleLists⟩
  · cases call with
    | create => exact inv.handledCreate sent
    | convert => exact coherent.handledConvert inv basts.sound sent
    | unlock => exact inv.handledUnlock sent
  · cases call with
    | create => exact ⟨_, rfl⟩
    | convert => exact ⟨_, rfl⟩
    | unlock node c flags lvb actions =>
        obtain ⟨t, result⟩ := inv.returnedUnlock answered
        exact ⟨t, by simp [returnCall, Call.node, result]⟩
  · intro c next mode flags flags' lvb new few key prepared
    obtain ⟨node, count, -⟩ := dlmGetNextCookie_spec few key
    have idle := (inv.off (c := c) (by rw [node, count])).2
    have calm : (new.lock c).highestBlocked = none ∧ new.pendingAsts = (s.res owner).pendingAsts := by
      simp only [dlmNewLock] at prepared
      split_ifs at prepared <;> cases prepared <;> simp [dlmInitLock, DlmLockResource.modifyLock]
    refine exists_dlmlockMaster new c (by simp [calm.1]) ?_ flags'
    rw [calm.2]
    exact idle
  · obtain ⟨-, -, -, none⟩ := usable
    exact exists_dlmconvertMaster _ c (basts.sound.high c) none flags type
  · obtain ⟨queue, here⟩ := Option.ne_none_iff_exists'.1 here
    exact exists_dlmunlockMaster (inv.agrees here).1 flags
  · have mine : dlmGetLockCookieNode c = n := by
      by_contra other
      exact here (place_eq_none.1 (inv.foreign n c remote other))
    obtain ⟨phase, conforms⟩ := inv.remote c (by rwa [mine])
    have agrees := conforms.agreesHere
    rw [Cluster.own, mine] at agrees
    simp only [dlmunlockRemote]
    split
    · obtain ⟨t, left⟩ := exists_leaveUnlock (agrees.resolve_right here) _
      rw [left]
      exact ⟨_, _, rfl⟩
    · exact ⟨_, _, rfl⟩

end Cluster

/-! ## Basts that are not delivered -/

/-- A reader is in the way of another one that converts to EX, and is noted; then it converts
as well, and the other one goes away. -/
theorem undelivered : ∃ events s, Run (@Step Nat modesCompatible _ 0) (.start 7) events s ∧
    (s.res 0).queues.find 2 = some .converting ∧ 2 ∈ (s.res 0).pendingBasts ∧
    @dlmShuffleLists _ modesCompatible (s.res 0) = none := by
  let compatible := modesCompatible
  have start : Run (@Step Nat modesCompatible _ 0) (.start 7) [] _ := .nil
  have first := start.snoc (.lockOwner ⟨rfl, rfl⟩ (by decide) rfl
    (show dlmNewLock _ _ _ .pr plainFlags 0 = (_, _) from rfl) rfl)
  have reads := first.snoc (.flushLocal (c := 1) rfl rfl rfl)
  have second := reads.snoc (.lockOwner ⟨rfl, rfl⟩ (by decide) rfl
    (show dlmNewLock _ _ _ .pr plainFlags 0 = (_, _) from rfl) rfl)
  have reads' := second.snoc (.flushLocal (c := 2) rfl rfl rfl)
  have converts := reads'.snoc (.convertOwner (c := 1) ⟨rfl, rfl⟩ ⟨rfl, rfl, rfl, by decide⟩
    (show dlmconvertMaster _ _ plainFlags .ex = some (_, _) from rfl))
  have noted := converts.snoc (.shuffle rfl rfl)
  have converts' := noted.snoc (.convertOwner (c := 2) ⟨rfl, rfl⟩ ⟨rfl, rfl, rfl, by decide⟩
    (show dlmconvertMaster _ _ plainFlags .ex = some (_, _) from rfl))
  have cancelled := converts'.snoc (.unlockOwner (c := 1) ⟨rfl, rfl⟩ rfl
    (show dlmunlockMaster _ _ (dlmunlockFlags _ { plainFlags with cancel := true }) =
      some (_, _) from rfl))
  have gone := cancelled.snoc (.unlockOwner (c := 1) ⟨rfl, rfl⟩ rfl
    (show dlmunlockMaster _ _ (dlmunlockFlags _ plainFlags) = some (_, _) from rfl))
  exact ⟨_, _, gone, by decide +kernel, by decide +kernel, by rfl⟩

/-- The thread has to deliver its bast first. -/
theorem no_assertion_fails_undelivered : ∃ s : Cluster Nat,
    @dlmShuffleLists _ modesCompatible (s.res 0) = none ∧
      ∃ hi past t, dlmFlushBast (s.res 0) 0 = some (hi, past, t) := by
  let compatible := modesCompatible
  obtain ⟨events, s, run, -, noted, fails⟩ := undelivered
  exact ⟨s, fails, (no_assertion_fails run).flushBast (List.ne_nil_of_mem noted)⟩

end Ocfs2Coverage.Dlm
