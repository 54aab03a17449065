import Ocfs2Coverage.Dlm.Exclusion

/-!
Contract: the asts and basts that wait at the owner of a lock resource.

Owns: that what is noted on a lock says whether a bast waits for it, and is noted for every
ast that waits, behind every run.

Does not own: who has to be told what.
-/

namespace Ocfs2Coverage.Dlm

open Ocfs2Coverage.Kernel
open Ocfs2Coverage.Runs

variable {Lvb : Type} {res t u : DlmLockResource Lvb} {c d : Cookie}

/-- What is noted on a lock says whether a bast waits for it, NL is never blocked, and every
ast that waits is noted. -/
structure NotesSound (res : DlmLockResource Lvb) : Prop where
  nodup : res.pendingBasts.Nodup
  pending : ∀ c, (res.lock c).bastPending = true ↔ c ∈ res.pendingBasts
  blocked : ∀ c, (res.lock c).highestBlocked ≠ none ↔ c ∈ res.pendingBasts
  high : ∀ c, (res.lock c).highestBlocked ≠ some .nl
  asts : ∀ c ∈ res.pendingAsts, (res.lock c).astPending = true

/-! ## Operations that queue none -/

/-- What basts look at on a lock. -/
def DlmLock.bastNotes (lock : DlmLock Lvb) : Bool × Option Mode × Node :=
  (lock.bastPending, lock.highestBlocked, lock.node)

/-- What asts and basts look at on a lock. -/
def DlmLock.notes (lock : DlmLock Lvb) : Bool × Bool × Option Mode × Node :=
  (lock.astPending, lock.bastNotes)

def SameNotes (lock lock' : DlmLock Lvb) : Prop := lock'.notes = lock.notes

theorem SameNotes.highestBlocked {lock lock' : DlmLock Lvb} (same : SameNotes lock lock') :
    lock'.highestBlocked = lock.highestBlocked :=
  congrArg (fun notes => notes.2.2.1) same

/-- No bast is queued, and notes go with the basts that are dropped. -/
structure KeepsNotes (res t : DlmLockResource Lvb) : Prop where
  sound : NotesSound res → NotesSound t
  fewer : t.pendingBasts ⊆ res.pendingBasts
  node : ∀ d ∈ t.pendingBasts, (t.lock d).node = (res.lock d).node

theorem KeepsNotes.refl (res : DlmLockResource Lvb) : KeepsNotes res res :=
  ⟨id, fun _ => id, fun _ _ => rfl⟩

theorem KeepsNotes.trans (first : KeepsNotes res t) (second : KeepsNotes t u) :
    KeepsNotes res u where
  sound := second.sound ∘ first.sound
  fewer _ member := first.fewer (second.fewer member)
  node d member := (second.node d member).trans (first.node d (second.fewer member))

/-- An operation that leaves the notes for basts alone, and notes the asts that wait. -/
theorem KeepsNotes.of_basts (basts : t.pendingBasts = res.pendingBasts)
    (locks : ∀ d, (t.lock d).bastNotes = (res.lock d).bastNotes)
    (asts : NotesSound res → ∀ d ∈ t.pendingAsts, (t.lock d).astPending = true) :
    KeepsNotes res t := by
  have pending : ∀ d, (t.lock d).bastPending = (res.lock d).bastPending := fun d =>
    congrArg (fun notes => notes.1) (locks d)
  have blocked : ∀ d, (t.lock d).highestBlocked = (res.lock d).highestBlocked := fun d =>
    congrArg (fun notes => notes.2.1) (locks d)
  refine ⟨fun sound => ⟨basts ▸ sound.nodup, fun d => ?_, fun d => ?_, fun d => ?_, asts sound⟩,
    basts ▸ fun _ member => member, fun d _ => congrArg (fun notes => notes.2.2) (locks d)⟩
  · rw [pending, basts]
    exact sound.pending d
  · rw [blocked, basts]
    exact sound.blocked d
  · rw [blocked]
    exact sound.high d

theorem KeepsNotes.of_same (basts : t.pendingBasts = res.pendingBasts)
    (asts : t.pendingAsts = res.pendingAsts) (locks : ∀ d, SameNotes (res.lock d) (t.lock d)) :
    KeepsNotes res t := by
  refine .of_basts basts (fun d => congrArg Prod.snd (locks d)) fun sound d member => ?_
  have noted : (t.lock d).astPending = (res.lock d).astPending := congrArg Prod.fst (locks d)
  rw [noted]
  exact sound.asts d (asts ▸ member)

theorem KeepsNotes.modifyLock (res : DlmLockResource Lvb) (c : Cookie)
    (f : DlmLock Lvb → DlmLock Lvb) (same : SameNotes (res.lock c) (f (res.lock c))) :
    KeepsNotes res (res.modifyLock c f) := by
  refine .of_same rfl rfl fun d => ?_
  rw [DlmLockResource.lock_modifyLock]
  split
  · next other =>
      rw [other]
      exact same
  · rfl

/-- A new lock may take the place of one that no ast and no bast waits for. -/
theorem keepsNotes_dlmInitLock (absent : c ∉ res.pendingBasts) (idle : c ∉ res.pendingAsts)
    (lock : DlmLock Lvb)
    (calm : lock.bastPending = false ∧ lock.highestBlocked = none) :
    KeepsNotes res (res.modifyLock c fun _ => lock) where
  sound sound := by
    refine ⟨sound.nodup, fun d => ?_, fun d => ?_, fun d => ?_, fun d member => ?_⟩
    · rw [DlmLockResource.lock_modifyLock]
      split
      · next same =>
          rw [same, calm.1]
          exact iff_of_false (by decide) absent
      · exact sound.pending d
    · rw [DlmLockResource.lock_modifyLock]
      split
      · next same =>
          rw [same, calm.2]
          exact iff_of_false (by simp) absent
      · exact sound.blocked d
    · rw [DlmLockResource.lock_modifyLock]
      split
      · rw [calm.2]
        simp
      · exact sound.high d
    · have other : d ≠ c := fun same => idle (same ▸ member)
      rw [DlmLockResource.lock_modifyLock, if_neg other]
      exact sound.asts d member
  fewer := fun _ member => member
  node d member := by
    have other : d ≠ c := fun same => absent (same ▸ member)
    rw [DlmLockResource.lock_modifyLock, if_neg other]

theorem node_cancelBast (res : DlmLockResource Lvb) (c d : Cookie) :
    ((cancelBast res c).lock d).node = (res.lock d).node := by
  have same := congrArg DlmLock.node (core_cancelBast res c d)
  exact same

theorem keepsNotes_cancelBast (res : DlmLockResource Lvb) (c : Cookie) :
    KeepsNotes res (cancelBast res c) where
  sound sound := by
    have lock : ∀ d, (cancelBast res c).lock d = if d = c then
        { res.lock c with bastPending := false, highestBlocked := none } else res.lock d := by
      simp [cancelBast]
    have member : ∀ d, d ∈ (cancelBast res c).pendingBasts ↔ d ∈ res.pendingBasts ∧ d ≠ c := by
      simp [cancelBast]
    refine ⟨sound.nodup.filter _, fun d => ?_, fun d => ?_, fun d => ?_, fun d waits => ?_⟩
    · rw [member, lock]
      split
      · next same => simp [same]
      · next other => simp [other, sound.pending]
    · rw [member, lock]
      split
      · next same => simp [same]
      · next other => simpa [other] using sound.blocked d
    · rw [lock]
      split
      · simp
      · exact sound.high d
    · rw [lock]
      split
      · next same => exact sound.asts c (same ▸ waits)
      · exact sound.asts d waits
  fewer := List.filter_subset_self _
  node d _ := node_cancelBast res c d

/-- An ast is noted when it is queued. -/
theorem keepsNotes_dlmQueueAst (result : dlmQueueAst res c = some t) : KeepsNotes res t := by
  simp only [dlmQueueAst, bugOn_eq_some] at result
  obtain ⟨obsolete, -, same⟩ := Option.bind_eq_some_iff.1 result.2
  cases same
  have queued : ∀ u : DlmLockResource Lvb, KeepsNotes u
      { u.modifyLock c fun lock => { lock with astPending := true } with
        pendingAsts := u.pendingAsts ++ [c] } := by
    intro u
    have lock := u.lock_modifyLock c (f := fun lock => { lock with astPending := true })
    refine .of_basts rfl (fun d => ?_) fun sound d member => ?_
    · rw [lock]
      split
      · next same =>
          rw [same]
          rfl
      · rfl
    · rw [lock]
      split
      · rfl
      · next other =>
          rcases List.mem_append.1 member with member | member
          · exact sound.asts d member
          · exact absurd (List.mem_singleton.1 member) other
  cases obsolete with
  | true => exact (keepsNotes_cancelBast res c).trans (queued _)
  | false => exact queued res

section

variable {flags : LkmFlags} {type : Mode} {status : DlmStatus} {node : Node} {lvb : Lvb}

theorem keepsNotes_dlmNewLock {flags' : LkmFlags} (absent : c ∉ res.pendingBasts)
    (idle : c ∉ res.pendingAsts)
    (prepared : dlmNewLock res node c type flags lvb = (flags', t)) : KeepsNotes res t := by
  have new : KeepsNotes res (res.modifyLock c fun _ => dlmInitLock type node lvb) :=
    keepsNotes_dlmInitLock absent idle _ ⟨rfl, rfl⟩
  simp only [dlmNewLock] at prepared
  split at prepared
  · split at prepared
    · cases prepared
      exact new
    · cases prepared
      exact new.trans (.modifyLock _ c _ rfl)
  · cases prepared
    exact new

theorem keepsNotes_dlmlockMaster [DlmLockCompatible]
    (result : dlmlockMaster res c flags = some (status, t)) : KeepsNotes res t := by
  have moved : ∀ queue, KeepsNotes res (res.moveTail c queue) := fun queue =>
    .of_same rfl rfl fun _ => rfl
  have kicked : ∀ u : DlmLockResource Lvb, KeepsNotes u u.kick := fun u =>
    .of_same rfl rfl fun _ => rfl
  simp only [dlmlockMaster] at result
  split at result
  · obtain ⟨u, queued, same⟩ := Option.bind_eq_some_iff.1 result
    cases same
    exact ((moved _).trans (keepsNotes_dlmQueueAst queued)).trans (kicked u)
  · split at result
    · cases result
      exact .refl res
    · cases result
      exact (moved _).trans (kicked _)

theorem noteValblk_notes (flags : LkmFlags) (type : Mode) (lock : DlmLock Lvb) :
    SameNotes lock (noteValblk flags type lock) := by
  rw [noteValblk_eq]
  rfl

theorem keepsNotes_grantConvert (res : DlmLockResource Lvb) (c : Cookie) (type : Mode) :
    KeepsNotes res (grantConvert res c type) := by
  have typed : KeepsNotes res (res.modifyLock c fun lock => { lock with type := type }) :=
    .modifyLock res c _ rfl
  refine typed.trans ?_
  simp only [grantConvert]
  split
  · exact .of_same rfl rfl fun _ => rfl
  · exact .of_same rfl rfl fun _ => rfl

theorem keepsNotes_dlmconvertMaster [DlmLockCompatible]
    (result : dlmconvertMaster res c flags type = some (status, t)) : KeepsNotes res t := by
  have note : KeepsNotes res (res.modifyLock c (noteValblk flags type)) :=
    .modifyLock res c _ (noteValblk_notes flags type _)
  simp only [dlmconvertMaster] at result
  split at result
  · cases result
    exact .refl res
  split at result
  · cases result
    exact .refl res
  split at result
  · obtain ⟨u, queued, same⟩ := Option.bind_eq_some_iff.1 result
    cases same
    exact ((note.trans (keepsNotes_grantConvert _ c type)).trans
      (keepsNotes_dlmQueueAst queued)).trans (.of_same rfl rfl fun _ => rfl)
  · split at result
    · cases result
      exact note
    · cases result
      refine note.trans (.trans (.modifyLock _ c (fun lock =>
        { lock with convertType := some type }) rfl) (.of_same rfl rfl fun _ => rfl))

theorem keepsNotes_leaveUnlock {status' : DlmStatus}
    (result : leaveUnlock res c status = some (status', t)) : KeepsNotes res t := by
  simp only [leaveUnlock, bugOn_eq_some, Option.some.injEq, Prod.mk.injEq] at result
  obtain ⟨-, -, rfl⟩ := result
  split
  · exact .modifyLock res c _ rfl
  · exact .refl res

theorem keepsNotes_takeActions (res : DlmLockResource Lvb) (c : Cookie)
    (actions : UnlockActions) : KeepsNotes res (takeActions res c actions) := by
  obtain ⟨remove, regrant, clear⟩ := actions
  have moved : KeepsNotes res (takeActions res c ⟨remove, regrant, false⟩) := by
    cases remove <;> cases regrant <;> exact .of_same rfl rfl fun _ => rfl
  cases clear with
  | false => exact moved
  | true =>
      have cleared : KeepsNotes (takeActions res c ⟨remove, regrant, false⟩)
          ((takeActions res c ⟨remove, regrant, false⟩).modifyLock c
            fun lock => { lock with convertType := none }) := .modifyLock _ c _ rfl
      exact moved.trans cleared

theorem keepsNotes_dlmunlockMaster
    (result : dlmunlockMaster res c flags = some (status, t)) : KeepsNotes res t := by
  have copied : KeepsNotes res
      (if flags.valblk then { res with lvb := (res.lock c).lvb } else res) := by
    split
    · exact .of_same rfl rfl fun _ => rfl
    · exact .refl res
  have finish : ∀ (error : Prop) [Decidable error] (answer : DlmStatus × UnlockActions),
      (if error then leaveUnlock res c answer.1
        else leaveUnlock (takeActions
          (if flags.valblk then { res with lvb := (res.lock c).lvb } else res) c answer.2) c answer.1)
          = some (status, t) → KeepsNotes res t := by
    intro error _ answer result
    split at result
    · exact keepsNotes_leaveUnlock result
    · exact (copied.trans (keepsNotes_takeActions _ c _)).trans (keepsNotes_leaveUnlock result)
  simp only [dlmunlockMaster] at result
  split at result
  · cases result
    exact .refl res
  split at result
  · exact finish _ (dlmGetCancelActions res c) result
  · exact finish _ (dlmGetUnlockActions res c) result

theorem keepsNotes_dlmConvertLockHandler [DlmLockCompatible]
    (result : dlmConvertLockHandler res node c type flags lvb = some (status, t)) :
    KeepsNotes res t := by
  simp only [dlmConvertLockHandler] at result
  split at result
  · cases result
    exact .refl res
  split at result
  · cases result
    exact .refl res
  rw [bugOn_eq_some] at result
  obtain ⟨⟨status', u⟩, converted, same⟩ := Option.map_eq_some_iff.1 result.2
  cases same
  have armed : KeepsNotes res (res.modifyLock c (armLvb flags lvb)) := by
    refine .modifyLock res c _ ?_
    simp only [armLvb]
    split_ifs <;> rfl
  have both := armed.trans (keepsNotes_dlmconvertMaster converted)
  split
  · exact both
  · exact both.trans (.modifyLock u c _ rfl)

theorem keepsNotes_dlmUnlockLockHandler
    (result : dlmUnlockLockHandler res node c flags lvb = some (status, t)) :
    KeepsNotes res t := by
  simp only [dlmUnlockLockHandler] at result
  split at result
  · cases result
    exact .refl res
  split at result
  · cases result
    exact .refl res
  split at result
  · cases result
    exact .refl res
  obtain ⟨⟨status', u⟩, unlocked, same⟩ := Option.map_eq_some_iff.1 result
  cases same
  have put : ∀ (u : DlmLockResource Lvb) (f : DlmLock Lvb → DlmLock Lvb) (set : Bool),
      (∀ lock, SameNotes lock (f lock)) →
      KeepsNotes u (u.modifyLock c fun lock => if set then f lock else lock) := by
    intro u f set same
    refine .modifyLock u c _ ?_
    cases set
    · rfl
    · exact same _
  have before := put res (fun lock => { lock with putLvb := true, lvb := lvb })
    (ownerFlags (res.lock c) flags).putLvb fun _ => rfl
  have after := put u (fun lock => { lock with putLvb := false })
    (ownerFlags (res.lock c) flags).putLvb fun _ => rfl
  exact ((before.trans (keepsNotes_dlmunlockMaster unlocked)).trans after).trans
    (.of_same rfl rfl fun _ => rfl)

theorem keepsNotes_takeAst {rest : List Cookie} (waits : res.pendingAsts = c :: rest) :
    KeepsNotes res (takeAst res c rest) := by
  have lock : ∀ d, (takeAst res c rest).lock d = if d = c then
      { res.lock c with
        lvb := if (res.lock c).getLvb then res.lvb else (res.lock c).lvb
        getLvb := false
        putLvb := false
        astPending := decide (c ∈ rest) } else res.lock d := by
    intro d
    simp only [takeAst, dlmUpdateLvb, DlmLockResource.lock_modifyLock, if_true, true_and]
    split
    · rfl
    · rfl
  refine .of_basts rfl (fun d => ?_) fun sound d member => ?_
  · rw [lock]
    split
    · next same =>
        rw [same]
        rfl
    · rfl
  · have member : d ∈ rest := member
    rw [lock]
    split
    · next same => exact decide_eq_true (same ▸ member)
    · exact sound.asts d (by rw [waits]; exact List.mem_cons_of_mem c member)

theorem keepsNotes_dlmFlushAst {past : Option (ProxyAst Lvb)}
    (result : dlmFlushAst res node = some (past, t)) : KeepsNotes res t := by
  simp only [dlmFlushAst] at result
  split at result
  · cases result
  next c rest waits =>
  rw [bugOn_eq_some] at result
  obtain ⟨-, result⟩ := result
  split at result
  · cases result
    exact keepsNotes_takeAst waits
  · cases result
    exact keepsNotes_takeAst waits

/-- A bast that is sent, or told, is not noted any more. -/
theorem keepsNotes_dlmFlushBast {hi : Mode} {past : Option ProxyBast}
    (result : dlmFlushBast res node = some (hi, past, t)) : KeepsNotes res t := by
  obtain ⟨c, rest, waits, -, -, rfl⟩ := dlmFlushBast_spec result
  refine ⟨fun sound => ?_, ?_, fun d _ => node_cancelBast res c d⟩
  · have nodup := sound.nodup
    rw [waits, List.nodup_cons] at nodup
    have others : rest = res.pendingBasts.filter (· ≠ c) := by
      rw [waits, List.filter_cons_of_neg (by simp)]
      refine (List.filter_eq_self.2 fun d member => ?_).symm
      rw [decide_eq_true_iff]
      exact fun same => nodup.1 (same ▸ member)
    rw [others]
    exact (keepsNotes_cancelBast res c).sound sound
  · rw [waits]
    exact fun d member => List.mem_cons_of_mem c member

end

/-! ## The thread -/

section

variable {target : Cookie} {mode : Mode} {l : Cookie}

/-- A lock in the way is noted, once. -/
theorem noteBlocker_basts (sound : NotesSound res) (some' : mode ≠ .nl) (l : Cookie) :
    ∃ t, noteBlocker res l mode = some t ∧ NotesSound t ∧
      ∀ d ∈ t.pendingBasts, d = l ∨ d ∈ res.pendingBasts := by
  by_cases calm : (res.lock l).highestBlocked = none
  · have absent : l ∉ res.pendingBasts := fun member => (sound.blocked l).2 member calm
    have noted : noteBlocker res l mode = some { res.modifyLock l
        fun lock => { lock with bastPending := true, highestBlocked := some mode }
          with pendingBasts := res.pendingBasts ++ [l] } := by
      simp [noteBlocker, dlmQueueBast, raiseBlocked, calm, bugOn, absent,
        DlmLockResource.modifyLock]
    refine ⟨_, noted, ⟨?_, fun d => ?_, fun d => ?_, fun d => ?_, fun d member => ?_⟩,
      fun d member => ?_⟩
    · exact List.nodup_append'.2 ⟨sound.nodup, List.nodup_singleton l,
        List.disjoint_singleton.2 absent⟩
    · by_cases same : d = l
      · simp [same]
      · simpa [same] using sound.pending d
    · by_cases same : d = l
      · simp [same]
      · simpa [same] using sound.blocked d
    · by_cases same : d = l
      · simpa [same] using some'
      · simpa [same] using sound.high d
    · by_cases same : d = l
      · simpa [same] using sound.asts l (same ▸ member)
      · simpa [same] using sound.asts d member
    · rcases List.mem_append.1 member with member | member
      · exact .inr member
      · exact .inl (List.mem_singleton.1 member)
  · have noted : noteBlocker res l mode = some (raiseBlocked l mode res) := by
      simp [noteBlocker, calm]
    refine ⟨_, noted, ?_, fun d member => .inr ?_⟩
    · simp only [raiseBlocked]
      split
      · refine ⟨sound.nodup, fun d => ?_, fun d => ?_, fun d => ?_, fun d member => ?_⟩
        · by_cases same : d = l
          · simpa [same] using sound.pending l
          · simpa [same] using sound.pending d
        · by_cases same : d = l
          · simpa [same] using (sound.blocked l).1 calm
          · simpa [same] using sound.blocked d
        · by_cases same : d = l
          · simpa [same] using some'
          · simpa [same] using sound.high d
        · by_cases same : d = l
          · simpa [same] using sound.asts l (same ▸ member)
          · simpa [same] using sound.asts d member
      · exact sound
    · simp only [raiseBlocked] at member
      split at member
      · exact member
      · exact member

variable [DlmLockCompatible]

open DlmLockCompatible

theorem noteBlockers_basts (target : Cookie) (mode : Mode) {locks : List Cookie} (canGrant : Bool)
    (sound : NotesSound res) :
    ∃ canGrant' t, noteBlockers target mode locks (canGrant, res) = some (canGrant', t) ∧
      NotesSound t ∧ (canGrant' = true → t = res) ∧
      ∀ d ∈ t.pendingBasts, d ∈ locks ∨ d ∈ res.pendingBasts := by
  induction locks generalizing canGrant res with
  | nil => exact ⟨canGrant, res, rfl, sound, fun _ => rfl, fun d member => .inr member⟩
  | cons l locks inductionHypothesis =>
      simp only [noteBlockers]
      split
      · obtain ⟨canGrant', t, result, sound', same, basts⟩ :=
          inductionHypothesis canGrant sound
        refine ⟨canGrant', t, result, sound', same, fun d member => ?_⟩
        exact (basts d member).imp_left (List.mem_cons_of_mem l)
      · next stands =>
          have some' : mode ≠ .nl := by
            rintro rfl
            exact stands (.inr ((compatible_iff _ _).2 (.inr (.inl rfl))))
          obtain ⟨u, noted, sound', basts⟩ := noteBlocker_basts sound some' l
          obtain ⟨canGrant', t, result, sound'', -, basts'⟩ :=
            inductionHypothesis false sound'
          refine ⟨canGrant', t, ?_, sound'', fun granted => ?_, fun d member => ?_⟩
          · rw [noted]
            exact result
          · rw [granted] at result
            cases ((noteBlockers_spec result).2.1.1 rfl).1
          · rcases basts' d member with member | member
            · exact .inl (List.mem_cons_of_mem l member)
            · rcases basts d member with rfl | member
              · exact .inl List.mem_cons_self
              · exact .inr member

/-- No lock enters the queues, and basts are queued only for locks in them. -/
structure Stays (res t : DlmLockResource Lvb) : Prop where
  sound : NotesSound t
  queues : ∀ d, t.queues.find d ≠ none → res.queues.find d ≠ none
  basts : ∀ d ∈ t.pendingBasts, res.queues.find d ≠ none ∨ d ∈ res.pendingBasts
  node : ∀ d, (t.lock d).node = (res.lock d).node

omit [DlmLockCompatible] in
theorem Stays.trans (first : Stays res t) (second : Stays t u) : Stays res u where
  sound := second.sound
  queues d here := first.queues d (second.queues d here)
  basts d member := by
    rcases second.basts d member with here | member
    · exact .inl (first.queues d here)
    · exact first.basts d member
  node d := (second.node d).trans (first.node d)

omit [DlmLockCompatible] in
theorem Noted.node (noted : Noted res t) (d : Cookie) : (t.lock d).node = (res.lock d).node := by
  have same := congrArg DlmLock.node (noted.core d)
  exact same

theorem noteQueues_basts (target : Cookie) (mode : Mode) (canGrant : Bool)
    (sound : NotesSound res) :
    ∃ canGrant' t, noteBlockers target mode (res.queues.granted ++ res.queues.converting)
      (canGrant, res) = some (canGrant', t) ∧ (canGrant' = true → t = res) ∧ Stays res t := by
  obtain ⟨canGrant', t, result, sound', same, basts⟩ :=
    noteBlockers_basts target mode canGrant sound
  refine ⟨canGrant', t, result, same, sound', fun d => ?_, fun d member => ?_,
    (noteBlockers_spec result).1.node⟩
  · rw [(noteBlockers_spec result).1.queues]
    exact id
  · refine (basts d member).imp_left fun member => ?_
    rcases List.mem_append.1 member with here | here
    · simp [Queues.mem_granted.1 here]
    · simp [Queues.mem_converting.1 here]

omit [DlmLockCompatible] in
theorem stays_grantTarget (sound : NotesSound res) (here : res.queues.find target ≠ none)
    (result : grantTarget res target = some t) : Stays res t := by
  obtain ⟨-, -, queues, copy, others⟩ := grantTarget_spec result
  have node : ∀ d, (t.lock d).node = (res.lock d).node := by
    intro d
    by_cases same : d = target
    · rw [same]
      exact congrArg (fun copy => copy.lock.node) copy
    · exact congrArg (fun copy => copy.lock.node) (others d same)
  simp only [grantTarget, bugOn_eq_some] at result
  have moved : KeepsNotes res (res.moveTail target .granted) := .of_same rfl rfl fun _ => rfl
  have kept := moved.trans (keepsNotes_dlmQueueAst result.2)
  refine ⟨kept.sound sound, fun d => ?_, fun d member => .inr (kept.fewer member), node⟩
  rw [queues, Queues.find_moveTail]
  split
  · next same =>
      rw [same]
      exact fun _ => here
  · exact id

theorem stays_shuffleBlocked {canGrant again : Bool} (sound : NotesSound res)
    (result : shuffleBlocked canGrant res = some (again, t)) : Stays res t := by
  simp only [shuffleBlocked] at result
  split at result
  · cases result
    exact ⟨sound, fun _ => id, fun _ => .inr, fun _ => rfl⟩
  next target rest waits =>
  obtain ⟨granted, u, loops, -, stays⟩ :=
    noteQueues_basts target (res.lock target).type canGrant sound
  have here : u.queues.find target ≠ none := by
    rw [(noteBlockers_spec loops).1.queues,
      Queues.mem_blocked.1 (by rw [waits]; exact List.mem_cons_self)]
    simp
  rw [loops] at result
  cases granted with
  | true =>
      obtain ⟨v, taken, same⟩ := Option.map_eq_some_iff.1 result
      cases same
      exact stays.trans (stays_grantTarget stays.sound here taken)
  | false =>
      cases result
      exact stays

theorem stays_shuffleConverting {again : Bool} (sound : NotesSound res)
    (result : shuffleConverting res = some (again, t)) : Stays res t := by
  simp only [shuffleConverting] at result
  split at result
  · exact stays_shuffleBlocked sound result
  next target rest waits =>
  split at result
  · cases result
  next mode wants =>
  obtain ⟨granted, u, loops, -, stays⟩ :=
    noteQueues_basts target mode true sound
  have here : u.queues.find target ≠ none := by
    rw [(noteBlockers_spec loops).1.queues,
      Queues.mem_converting.1 (by rw [waits]; exact List.mem_cons_self)]
    simp
  rw [loops] at result
  cases granted with
  | true =>
      obtain ⟨v, taken, same⟩ := Option.map_eq_some_iff.1 result
      cases same
      have typed : KeepsNotes u (u.modifyLock target
          fun lock => { lock with type := mode, convertType := none }) :=
        .modifyLock u target _ rfl
      have node : ∀ d, ((u.modifyLock target fun lock =>
          { lock with type := mode, convertType := none }).lock d).node = (u.lock d).node := by
        intro d
        rw [DlmLockResource.lock_modifyLock]
        split
        · next same => rw [same]
        · rfl
      have stays' : Stays u _ := ⟨typed.sound stays.sound, fun _ => id, fun _ => .inr, node⟩
      exact (stays.trans stays').trans (stays_grantTarget stays'.sound here taken)
  | false => exact stays.trans (stays_shuffleBlocked stays.sound result)

theorem stays_shuffleRounds {rounds : Nat} (sound : NotesSound res)
    (result : shuffleRounds rounds res = some t) : Stays res t := by
  induction rounds generalizing res with
  | zero =>
      cases result
      exact ⟨sound, fun _ => id, fun _ => .inr, fun _ => rfl⟩
  | succ rounds inductionHypothesis =>
      obtain ⟨⟨again, u⟩, round, rest⟩ := Option.bind_eq_some_iff.1 result
      have stays := stays_shuffleConverting sound round
      cases again with
      | true => exact stays.trans (inductionHypothesis stays.sound rest)
      | false =>
          cases rest
          exact stays

end

/-! ## Every run -/

section

variable [DlmLockCompatible] [Inhabited Lvb] {owner : Node} {s s' : Cluster Lvb}

/-- The basts of the owner are sound, none is about a lock that never reached it, and they
go to the nodes of their locks. -/
structure NotesInvariant (owner : Node) (s : Cluster Lvb) : Prop where
  sound : NotesSound (s.res owner)
  fresh : ∀ c, s.next (dlmGetLockCookieNode c) ≤ c.val % 2 ^ 56 → c ∉ (s.res owner).pendingBasts
  requested : ∀ node c type flags, (Call.create node c type flags, none) ∈ s.calls →
    c ∉ (s.res owner).pendingBasts
  node : ∀ c ∈ (s.res owner).pendingBasts, ((s.res owner).lock c).node = dlmGetLockCookieNode c
  sent : ∀ past ∈ s.basts, past.node ≠ owner ∧ dlmGetLockCookieNode past.cookie = past.node

/-- Basts are queued for locks in the queues only. -/
structure NotesFrom (res t : DlmLockResource Lvb) : Prop where
  sound : NotesSound t
  basts : ∀ d ∈ t.pendingBasts, res.queues.find d ≠ none ∨ d ∈ res.pendingBasts
  node : ∀ d ∈ t.pendingBasts, (t.lock d).node = (res.lock d).node

omit [DlmLockCompatible] [Inhabited Lvb] in
theorem KeepsNotes.notesFrom (kept : KeepsNotes res t) (sound : NotesSound res) :
    NotesFrom res t :=
  ⟨kept.sound sound, fun _ member => .inr (kept.fewer member), kept.node⟩

omit [DlmLockCompatible] [Inhabited Lvb] in
/-- A lock that was not asked for yet is nowhere at the owner. -/
theorem Invariant.off (inv : Invariant owner s)
    (new : s.next (dlmGetLockCookieNode c) ≤ c.val % 2 ^ 56) :
    (s.res owner).queues.find c = none ∧ c ∉ (s.res owner).pendingAsts := by
  by_cases home : dlmGetLockCookieNode c = owner
  · have none := inv.fresh c new
    rw [Cluster.own, home] at none
    obtain ⟨queue, asts⟩ := (inv.home c home).of_absent none
    exact ⟨queue, List.count_eq_zero.1 asts⟩
  · have absent := inv.absent new home
    exact ⟨absent.queue, List.count_eq_zero.1 (absent.noAst rfl).1⟩

omit [DlmLockCompatible] [Inhabited Lvb] in
/-- Nor is one whose message has not been handled. -/
theorem Invariant.off_of_create (inv : Invariant owner s) {node : Node} {type : Mode}
    {flags : LkmFlags} (sent : (Call.create node c type flags, none) ∈ s.calls) :
    (s.res owner).queues.find c = none ∧ c ∉ (s.res owner).pendingAsts := by
  obtain ⟨rest, calls⟩ := Multiset.exists_cons_of_mem sent
  obtain ⟨-, -, -, phase, conforms, waits⟩ := inv.awaited (c := c) calls rfl
  obtain ⟨-, rfl⟩ := phase_of_errand waits
  exact ⟨conforms.queue, List.count_eq_zero.1 (conforms.noAst rfl).1⟩

omit [DlmLockCompatible] [Inhabited Lvb] in
theorem NotesInvariant.step (basts : NotesInvariant owner s) (inv : Invariant owner s)
    (origin : NotesFrom (s.res owner) (s'.res owner)) (next : ∀ n, s.next n ≤ s'.next n)
    (calls : ∀ node c type flags, (Call.create node c type flags, none) ∈ s'.calls →
      (Call.create node c type flags, none) ∈ s.calls ∨
        s.next (dlmGetLockCookieNode c) ≤ c.val % 2 ^ 56)
    (sent : ∀ past ∈ s'.basts, past ∈ s.basts ∨ past.node ≠ owner ∧
      past.cookie ∈ (s.res owner).pendingBasts ∧
        past.node = ((s.res owner).lock past.cookie).node) : NotesInvariant owner s' where
  sound := origin.sound
  fresh c new member := by
    have new' := (next _).trans new
    rcases origin.basts c member with here | member
    · exact here (inv.off new').1
    · exact basts.fresh c new' member
  requested node c type flags sent member := by
    rcases calls node c type flags sent with sent | new
    · rcases origin.basts c member with here | member
      · exact here (inv.off_of_create sent).1
      · exact basts.requested node c type flags sent member
    · rcases origin.basts c member with here | member
      · exact here (inv.off new).1
      · exact basts.fresh c new member
  node c member := by
    rw [origin.node c member]
    rcases origin.basts c member with here | member
    · obtain ⟨queue, here⟩ := Option.ne_none_iff_exists'.1 here
      exact inv.node_of_queue here
    · exact basts.node c member
  sent past member := by
    rcases sent past member with member | ⟨away, waits, node⟩
    · exact basts.sent past member
    · exact ⟨away, ((basts.node past.cookie waits).symm.trans node.symm)⟩

theorem NotesInvariant.preserved (basts : NotesInvariant owner s) (inv : Invariant owner s)
    {event : Event Lvb} (step : Step owner s event s') : NotesInvariant owner s' := by
  have atOwner : ∀ res, KeepsNotes (s.res owner) res →
      NotesFrom (s.res owner) (Function.update s.res owner res owner) := by
    intro res kept
    rw [Function.update_self]
    exact kept.notesFrom basts.sound
  have elsewhere : ∀ n res, n ≠ owner →
      NotesFrom (s.res owner) (Function.update s.res n res owner) := by
    intro n res other
    rw [Function.update_of_ne other.symm]
    exact (KeepsNotes.refl _).notesFrom basts.sound
  have same : ∀ past ∈ s.basts, past ∈ s.basts ∨ past.node ≠ owner ∧
      past.cookie ∈ (s.res owner).pendingBasts ∧
        past.node = ((s.res owner).lock past.cookie).node := fun _ => .inl
  have counts : ∀ n next', s.next n ≤ next' → ∀ m, s.next m ≤ Function.update s.next n next' m := by
    intro n next' le m
    rw [Function.update_apply]
    split
    · next same =>
        rw [same]
        exact le
    · exact le_rfl
  have kept : ∀ node c type flags, (Call.create node c type flags, none) ∈ s.calls →
      (Call.create node c type flags, none) ∈ s.calls ∨
        s.next (dlmGetLockCookieNode c) ≤ c.val % 2 ^ 56 := fun _ _ _ _ => .inl
  have sent : ∀ (k : Call Lvb × Option DlmStatus) (rest : Multiset (Call Lvb × Option DlmStatus)),
      (∀ node c type flags, (Call.create node c type flags, none) ≠ k) → rest ≤ s.calls →
      ∀ node c type flags, (Call.create node c type flags, none) ∈ k ::ₘ rest →
        (Call.create node c type flags, none) ∈ s.calls ∨
          s.next (dlmGetLockCookieNode c) ≤ c.val % 2 ^ 56 := by
    intro k rest other le node c type flags member
    rcases Multiset.mem_cons.1 member with same | member
    · exact absurd same (other node c type flags)
    · exact .inl (Multiset.mem_of_le le member)
  cases step with
  | @lockOwner mode flags flags' lvb c next new res status client few key prepared result =>
      obtain ⟨node, count, rfl⟩ := dlmGetNextCookie_spec few key
      have new : s.next (dlmGetLockCookieNode c) ≤ c.val % 2 ^ 56 := by rw [node, count]
      have absent := basts.fresh c new
      have idle := (inv.off new).2
      exact basts.step inv (atOwner _ ((keepsNotes_dlmNewLock absent idle prepared).trans
        (keepsNotes_dlmlockMaster result))) (counts owner _ (Nat.le_succ _)) kept same
  | @lock n mode flags flags' lvb c next new res call remote client few key prepared result =>
      obtain ⟨node, count, rfl⟩ := dlmGetNextCookie_spec few key
      obtain ⟨rfl, rfl⟩ := Prod.mk.inj result
      refine basts.step inv (elsewhere _ _ remote) (counts n _ (Nat.le_succ _)) ?_ same
      intro node' c' type flags'' member
      rcases Multiset.mem_cons.1 member with same | member
      · cases same
        exact .inr (by rw [node, count])
      · exact .inl member
  | convertOwner client usable result =>
      exact basts.step inv (atOwner _ (keepsNotes_dlmconvertMaster result)) (fun _ => le_rfl)
        kept same
  | convertIdle remote => exact basts.step inv (elsewhere _ _ remote) (fun _ => le_rfl) kept same
  | convert remote client usable result =>
      obtain ⟨-, -, -, rfl, -⟩ := dlmconvertRemote_inr result
      exact basts.step inv (elsewhere _ _ remote) (fun _ => le_rfl)
        (sent _ _ (fun _ _ _ _ => by simp) le_rfl) same
  | unlockOwner client mine result =>
      refine basts.step inv (atOwner _ ?_) (fun _ => le_rfl) kept same
      have unlocked := keepsNotes_dlmunlockMaster result
      split
      · exact unlocked.trans (.of_same rfl rfl fun _ => rfl)
      · exact unlocked
  | unlockIdle remote => exact basts.step inv (elsewhere _ _ remote) (fun _ => le_rfl) kept same
  | unlock remote client mine staying alone converts result =>
      obtain ⟨actions, rfl, -, -⟩ := dlmunlockRemote_inr result
      exact basts.step inv (elsewhere _ _ remote) (fun _ => le_rfl)
        (sent _ _ (fun _ _ _ _ => by simp) le_rfl) same
  | @write n c lvb usable top =>
      refine basts.step inv ?_ (fun _ => le_rfl) kept same
      by_cases home : n = owner
      · subst home
        exact atOwner _ (.modifyLock _ c _ rfl)
      · exact elsewhere _ _ home
  | @handle call rest res status open' result =>
      have le : rest ≤ s.calls := by
        rw [open']
        exact Multiset.le_cons_self rest _
      refine basts.step inv (atOwner _ ?_) (fun _ => le_rfl)
        (sent _ rest (fun _ _ _ _ => by simp) le) same
      cases call with
      | create node c type flags =>
          have sent' : (Call.create node c type flags, none) ∈ s.calls := by
            rw [open']
            exact Multiset.mem_cons_self _ _
          have new : KeepsNotes (s.res owner) ((s.res owner).modifyLock c fun _ =>
              { dlmInitLock type node default with getLvb := flags.getLvb }) :=
            keepsNotes_dlmInitLock (basts.requested node c type flags sent')
              (inv.off_of_create sent').2 _ ⟨rfl, rfl⟩
          exact new.trans (keepsNotes_dlmlockMaster result)
      | convert node c type flags lvb => exact keepsNotes_dlmConvertLockHandler result
      | unlock node c flags lvb actions => exact keepsNotes_dlmUnlockLockHandler result
  | @«return» call rest res status answered result =>
      obtain ⟨sound, -⟩ := inv.awaited answered rfl
      refine basts.step inv (elsewhere _ _ sound.1) (fun _ => le_rfl)
        (fun _ _ _ _ member => .inl ?_) same
      rw [answered]
      exact Multiset.mem_cons_of_mem member
  | @shuffle res asts result =>
      have stays := stays_shuffleRounds basts.sound result
      refine basts.step inv ?_ (fun _ => le_rfl) kept same
      have here : (s.setRes owner { res with dirty := false }).res owner =
          { res with dirty := false } := Function.update_self ..
      rw [here]
      exact ⟨⟨stays.sound.nodup, stays.sound.pending, stays.sound.blocked, stays.sound.high,
        stays.sound.asts⟩,
        stays.basts, fun d _ => stays.node d⟩
  | flushLocal asts first result =>
      exact basts.step inv (atOwner _ (keepsNotes_dlmFlushAst result)) (fun _ => le_rfl) kept same
  | flush asts result =>
      exact basts.step inv (atOwner _ (keepsNotes_dlmFlushAst result)) (fun _ => le_rfl) kept same
  | turnBasts | turnQueues =>
      exact basts.step inv ((KeepsNotes.refl _).notesFrom basts.sound) (fun _ => le_rfl) kept same
  | flushLocalBast telling first result =>
      exact basts.step inv (atOwner _ (keepsNotes_dlmFlushBast result)) (fun _ => le_rfl) kept same
  | @flushBast past hi res telling result =>
      obtain ⟨c, rest, waits, -, told, -⟩ := dlmFlushBast_spec result
      refine basts.step inv (atOwner _ (keepsNotes_dlmFlushBast result)) (fun _ => le_rfl) kept ?_
      intro past' member
      rcases Multiset.mem_cons.1 member with rfl | member
      · split at told
        · cases told
        · next away =>
            cases told
            exact .inr ⟨away, by simp [waits], rfl⟩
      · exact .inl member
  | bast open' result =>
      refine basts.step inv ((KeepsNotes.refl _).notesFrom basts.sound) (fun _ => le_rfl) kept ?_
      intro past member
      rw [open']
      exact .inl (Multiset.mem_cons_of_mem member)
  | ast open' result =>
      obtain ⟨remote, -⟩ := inv.asts _ (by rw [open']; exact Multiset.mem_cons_self _ _)
      exact basts.step inv (elsewhere _ _ remote) (fun _ => le_rfl) kept same

omit [DlmLockCompatible] [Inhabited Lvb] in
theorem NotesInvariant.start (owner : Node) (lvb : Lvb) : NotesInvariant owner (.start lvb) where
  sound := by
    constructor <;> simp [Cluster.start, dlmInitLock]
  fresh := by simp [Cluster.start]
  requested := by simp [Cluster.start]
  node := by simp [Cluster.start]
  sent := by simp [Cluster.start]

theorem notesInvariant_of_run {lvb : Lvb} {events : List (Event Lvb)}
    (run : Run (Step owner) (.start lvb) events s) :
    Invariant owner s ∧ NotesInvariant owner s :=
  run.invariant (fun s => Invariant owner s ∧ NotesInvariant owner s)
    ⟨.start owner lvb, .start owner lvb⟩
    fun _ _ _ both step => ⟨both.1.preserved step, both.2.preserved both.1 step⟩

end

end Ocfs2Coverage.Dlm
