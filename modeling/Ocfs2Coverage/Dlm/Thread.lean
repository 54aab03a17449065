import Ocfs2Coverage.Dlm.Master

/-!
Contract: the thread of the lock manager at the owner of a resource (`dlmthread.c`).

Owns: granting what waits in the queues, in their order, and noting a bast for what
stands in the way.

Does not own: where an ast goes, the list of dirty resources.
-/

namespace Ocfs2Coverage.Dlm

open Ocfs2Coverage.Kernel

variable {Lvb : Type}

/-! ## The code -/

/-- `__dlm_queue_bast`. -/
def dlmQueueBast (res : DlmLockResource Lvb) (l : Cookie) :
    Option (DlmLockResource Lvb) :=
  bugOn (l ∈ res.pendingBasts) <|
    some { res.modifyLock l fun lock => { lock with bastPending := true }
      with pendingBasts := res.pendingBasts ++ [l] }

/-- `highest_blocked` is updated if needed. -/
def raiseBlocked (l : Cookie) (mode : Mode) (res : DlmLockResource Lvb) :
    DlmLockResource Lvb :=
  if (res.lock l).highestBlocked.all (· < mode) then
    res.modifyLock l fun lock => { lock with highestBlocked := some mode }
  else res

/-- What the loops of `dlm_shuffle_lists` do to a lock in the way of a mode. -/
def noteBlocker (res : DlmLockResource Lvb) (l : Cookie) (mode : Mode) :
    Option (DlmLockResource Lvb) :=
  (if (res.lock l).highestBlocked = none then dlmQueueBast res l else some res).map
    (raiseBlocked l mode)

/-- What both grants of `dlm_shuffle_lists` have in common. -/
def grantTarget (res : DlmLockResource Lvb) (target : Cookie) :
    Option (DlmLockResource Lvb) :=
  bugOn ((res.lock target).highestBlocked ≠ none) <|
    dlmQueueAst (res.moveTail target .granted) target

section

variable [DlmLockCompatible]

open DlmLockCompatible

/-- The loops over the queues: whether `can_grant` is still set behind them. -/
def noteBlockers (target : Cookie) (mode : Mode) : List Cookie → Bool × DlmLockResource Lvb →
    Option (Bool × DlmLockResource Lvb)
  | [], state => some state
  | l :: locks, (canGrant, res) =>
      if l = target ∨ dlmLockCompatible (some (res.lock l).type) mode then
        noteBlockers target mode locks (canGrant, res)
      else do
        let res ← noteBlocker res l mode
        noteBlockers target mode locks (false, res)

/-- What follows the label `blocked`; the result says whether to go back. -/
def shuffleBlocked (canGrant : Bool) (res : DlmLockResource Lvb) :
    Option (Bool × DlmLockResource Lvb) :=
  match res.queues.blocked with
  | [] => some (false, res)
  | target :: _ => do
      let type := (res.lock target).type
      let (canGrant, res) ← noteBlockers target type
        (res.queues.granted ++ res.queues.converting) (canGrant, res)
      if canGrant then (grantTarget res target).map (true, ·) else some (false, res)

/-- What follows the label `converting`. -/
def shuffleConverting (res : DlmLockResource Lvb) :
    Option (Bool × DlmLockResource Lvb) :=
  match res.queues.converting with
  | [] => shuffleBlocked true res
  | target :: _ =>
      match (res.lock target).convertType with
      | none => none
      | some mode => do
          let (canGrant, res) ← noteBlockers target mode
            (res.queues.granted ++ res.queues.converting) (true, res)
          if canGrant then
            let res := res.modifyLock target
              fun lock => { lock with type := mode, convertType := none }
            (grantTarget res target).map (true, ·)
          else shuffleBlocked false res

/-- Going back to `converting` as long as something is granted; `rounds` bounds how often. -/
def shuffleRounds : Nat → DlmLockResource Lvb → Option (DlmLockResource Lvb)
  | 0, res => some res
  | rounds + 1, res => do
      let (again, res) ← shuffleConverting res
      if again then shuffleRounds rounds res else some res

/-- `dlm_shuffle_lists`: every round but the last takes a lock from a queue. -/
def dlmShuffleLists (res : DlmLockResource Lvb) : Option (DlmLockResource Lvb) :=
  shuffleRounds (res.queues.converting.length + res.queues.blocked.length + 1) res

end

/-! ## What is noted for basts -/

/-- Nothing but what is noted for basts differs, and that only grows. -/
structure Noted (res t : DlmLockResource Lvb) : Prop where
  queues : t.queues = res.queues
  asts : t.pendingAsts = res.pendingAsts
  lvb : t.lvb = res.lvb
  core : ∀ d, (t.lock d).core = (res.lock d).core
  grows : ∀ d, ∀ h ∈ (res.lock d).highestBlocked, ∃ h' ∈ (t.lock d).highestBlocked, h ≤ h'

variable {res t u : DlmLockResource Lvb} {target : Cookie} {mode : Mode}

theorem Noted.refl (res : DlmLockResource Lvb) : Noted res res :=
  ⟨rfl, rfl, rfl, fun _ => rfl, fun _ h here => ⟨h, here, le_rfl⟩⟩

theorem Noted.trans (first : Noted res t) (second : Noted t u) : Noted res u where
  queues := second.queues.trans first.queues
  asts := second.asts.trans first.asts
  lvb := second.lvb.trans first.lvb
  core d := (second.core d).trans (first.core d)
  grows d h here := by
    obtain ⟨h', here', le⟩ := first.grows d h here
    obtain ⟨h'', here'', le'⟩ := second.grows d h' here'
    exact ⟨h'', here'', le.trans le'⟩

theorem Noted.copy (noted : Noted res t) (d : Cookie) : t.copy d = res.copy d := by
  simp only [DlmLockResource.copy, noted.queues, noted.core, noted.asts]

theorem Noted.type (noted : Noted res t) (d : Cookie) :
    (t.lock d).type = (res.lock d).type := by
  have same := congrArg DlmLock.type (noted.core d)
  exact same

theorem Noted.convertType (noted : Noted res t) (d : Cookie) :
    (t.lock d).convertType = (res.lock d).convertType := by
  have same := congrArg DlmLock.convertType (noted.core d)
  exact same

theorem noted_dlmQueueBast {l : Cookie} (result : dlmQueueBast res l = some t) : Noted res t := by
  simp only [dlmQueueBast, bugOn_eq_some] at result
  obtain ⟨-, same⟩ := result
  cases same
  refine ⟨rfl, rfl, rfl, fun d => ?_, fun d h here => ⟨h, ?_, le_rfl⟩⟩
  · simp only [DlmLockResource.lock_modifyLock]
    split
    · next same => rw [same]; rfl
    · rfl
  · simp only [DlmLockResource.lock_modifyLock]
    split
    · next same => rwa [← same]
    · exact here

theorem noted_raiseBlocked (res : DlmLockResource Lvb) (l : Cookie) (mode : Mode) :
    Noted res (raiseBlocked l mode res) ∧
      ∃ h ∈ ((raiseBlocked l mode res).lock l).highestBlocked, mode ≤ h := by
  simp only [raiseBlocked]
  split
  · next less =>
      refine ⟨⟨rfl, rfl, rfl, fun d => ?_, fun d h here => ?_⟩, mode, by simp, le_rfl⟩
      · simp only [DlmLockResource.lock_modifyLock]
        split
        · next same => rw [same]; rfl
        · rfl
      · simp only [DlmLockResource.lock_modifyLock]
        split
        · next same =>
            rw [same] at here
            rw [Option.mem_def.1 here] at less
            exact ⟨mode, rfl, (by simpa using less : h < mode).le⟩
        · exact ⟨h, here, le_rfl⟩
  · next enough =>
      cases blocked : (res.lock l).highestBlocked with
      | none => simp [blocked] at enough
      | some h => exact ⟨.refl res, h, rfl, by simpa [blocked] using enough⟩

theorem noteBlocker_spec {l : Cookie} (result : noteBlocker res l mode = some t) :
    Noted res t ∧ ∃ h ∈ (t.lock l).highestBlocked, mode ≤ h := by
  obtain ⟨u, queued, same⟩ := Option.map_eq_some_iff.1 result
  cases same
  have noted : Noted res u := by
    split at queued
    · exact noted_dlmQueueBast queued
    · cases queued
      exact .refl res
  obtain ⟨noted', raised⟩ := noted_raiseBlocked u l mode
  exact ⟨noted.trans noted', raised⟩

section

variable [DlmLockCompatible]

open DlmLockCompatible

theorem noteBlockers_spec {locks : List Cookie} {canGrant canGrant' : Bool}
    (result : noteBlockers target mode locks (canGrant, res) = some (canGrant', t)) :
    Noted res t ∧
      (canGrant' = true ↔ canGrant = true ∧ ∀ l ∈ locks, l = target ∨
        dlmLockCompatible (some (res.lock l).type) mode = true) ∧
      ∀ l ∈ locks, l ≠ target → dlmLockCompatible (some (res.lock l).type) mode = false →
        ∃ h ∈ (t.lock l).highestBlocked, mode ≤ h := by
  induction locks generalizing canGrant res with
  | nil =>
      cases result
      exact ⟨.refl _, by simp, by simp⟩
  | cons l locks inductionHypothesis =>
      simp only [noteBlockers] at result
      split at result
      · next fits =>
          obtain ⟨noted, granted, basts⟩ := inductionHypothesis result
          refine ⟨noted, ?_, ?_⟩
          · rw [granted, List.forall_mem_cons]
            simp [fits]
          · rw [List.forall_mem_cons]
            refine ⟨fun other stands => ?_, basts⟩
            rcases fits with same | fits
            · exact absurd same other
            · rw [fits] at stands
              cases stands
      · next stands =>
          obtain ⟨u, noted, rest⟩ := Option.bind_eq_some_iff.1 result
          obtain ⟨noted, h, here, le⟩ := noteBlocker_spec noted
          obtain ⟨noted', granted, basts⟩ := inductionHypothesis rest
          refine ⟨noted.trans noted', ?_, ?_⟩
          · rw [granted, List.forall_mem_cons]
            simp [stands]
          · rw [List.forall_mem_cons]
            refine ⟨fun _ _ => ?_, fun d member other blocks => ?_⟩
            · obtain ⟨h', here', le'⟩ := noted'.grows l h here
              exact ⟨h', here', le.trans le'⟩
            · exact basts d member other (by rwa [noted.type])

/-! ## What a round does -/

/-- A lock in the way of a mode that another one waits for. -/
def Blocks (res : DlmLockResource Lvb) (target : Cookie) (mode : Mode) (l : Cookie) : Prop :=
  l ≠ target ∧ (res.queues.find l = some .granted ∨ res.queues.find l = some .converting) ∧
    dlmLockCompatible (some (res.lock l).type) mode = false

/-- The loops over both queues together. -/
theorem noteQueues_spec {canGrant canGrant' : Bool}
    (result : noteBlockers target mode (res.queues.granted ++ res.queues.converting)
      (canGrant, res) = some (canGrant', t)) :
    Noted res t ∧ (canGrant' = true ↔ canGrant = true ∧ ∀ l, ¬ Blocks res target mode l) ∧
      ∀ l, Blocks t target mode l → ∃ h ∈ (t.lock l).highestBlocked, mode ≤ h := by
  obtain ⟨noted, granted, basts⟩ := noteBlockers_spec result
  have member : ∀ l, l ∈ res.queues.granted ++ res.queues.converting ↔
      res.queues.find l = some .granted ∨ res.queues.find l = some .converting := by simp
  refine ⟨noted, ?_, fun l blocks => ?_⟩
  · rw [granted]
    refine and_congr_right fun _ => ⟨fun fits l blocks => ?_, fun free l here => ?_⟩
    · rcases fits l ((member l).2 blocks.2.1) with same | fits
      · exact blocks.1 same
      · rw [blocks.2.2] at fits
        cases fits
    · by_contra stands
      rw [not_or, Bool.not_eq_true] at stands
      exact free l ⟨stands.1, (member l).1 here, stands.2⟩
  · rw [Blocks, noted.queues, noted.type] at blocks
    exact basts l ((member l).2 blocks.2.1) blocks.1 blocks.2.2

/-- Nothing stands against what the first lock of a queue waits for. -/
theorem compatible_of_free (free : ∀ l, ¬ Blocks res target mode l) {d : Cookie}
    (other : d ≠ target) {u : Mode} (held : u ∈ (res.copy d).held) : u.Compatible mode := by
  obtain ⟨queue, rfl⟩ := DlmLockResource.Copy.mem_held.1 held
  rw [← compatible_iff]
  by_contra stands
  exact free d ⟨other, queue, by simpa using stands⟩

/-- One lock leaves the head of its queue with what it waited for. -/
inductive Served (res t : DlmLockResource Lvb) (target : Cookie) : Prop where
  | converted (mode : Mode) (head : res.queues.converting.head? = some target)
      (wants : (res.lock target).convertType = some mode)
      (free : ∀ l, ¬ Blocks res target mode l)
      (copy : t.copy target = ⟨some .granted,
        { (res.copy target).lock with type := mode, convertType := none },
          (res.copy target).asts + 1⟩) : Served res t target
  | unblocked (idle : res.queues.converting = [])
      (head : res.queues.blocked.head? = some target)
      (free : ∀ l, ¬ Blocks res target (res.lock target).type l)
      (copy : t.copy target = ⟨some .granted, (res.copy target).lock,
        (res.copy target).asts + 1⟩) : Served res t target

/-- A round that goes back: nothing else than the lock that is served changes. -/
structure Grant (res t : DlmLockResource Lvb) (target : Cookie) : Prop where
  served : Served res t target
  fresh : target ∉ res.pendingAsts
  lvb : t.lvb = res.lvb
  queues : t.queues = res.queues.moveTail target .granted
  others : ∀ d, d ≠ target → t.copy d = res.copy d

/-- Where the last round stops: what the first lock of a queue waits for is really in the
way of something, and a bast is noted for everything in its way. -/
structure Settled (res : DlmLockResource Lvb) : Prop where
  converting : ∀ target, res.queues.converting.head? = some target →
    ∃ mode, (res.lock target).convertType = some mode ∧ (∃ l, Blocks res target mode l) ∧
      ∀ l, Blocks res target mode l → ∃ h ∈ (res.lock l).highestBlocked, mode ≤ h
  blocked : ∀ target, res.queues.blocked.head? = some target →
    (res.queues.converting = [] → ∃ l, Blocks res target (res.lock target).type l) ∧
      ∀ l, Blocks res target (res.lock target).type l →
        ∃ h ∈ (res.lock l).highestBlocked, (res.lock target).type ≤ h

omit [DlmLockCompatible] in
theorem grantTarget_spec (result : grantTarget res target = some t) :
    target ∉ res.pendingAsts ∧ t.lvb = res.lvb ∧
      t.queues = res.queues.moveTail target .granted ∧
      t.copy target = ⟨some .granted, (res.copy target).lock, (res.copy target).asts + 1⟩ ∧
      ∀ d, d ≠ target → t.copy d = res.copy d := by
  simp only [grantTarget, bugOn_eq_some] at result
  obtain ⟨-, queued⟩ := result
  obtain ⟨fresh, queues, lvb, -⟩ := dlmQueueAst_spec queued
  have copies := copy_dlmQueueAst queued
  refine ⟨fresh, lvb, queues, ?_, fun d other => ?_⟩
  · rw [copies, if_pos rfl, DlmLockResource.copy_moveTail, if_pos rfl]
  · rw [copies, if_neg other, DlmLockResource.copy_moveTail, if_neg other]

theorem Noted.blocks (noted : Noted res t) {l : Cookie} :
    Blocks t target mode l ↔ Blocks res target mode l := by
  simp only [Blocks, noted.queues, noted.type]

theorem shuffleBlocked_spec {canGrant again : Bool}
    (result : shuffleBlocked canGrant res = some (again, t))
    (idle : canGrant = true → res.queues.converting = []) :
    again = true ∧ canGrant = true ∧ (∃ target, Grant res t target) ∨
      again = false ∧ Noted res t ∧ ∀ target, t.queues.blocked.head? = some target →
        (canGrant = true → ∃ l, Blocks t target (t.lock target).type l) ∧
          ∀ l, Blocks t target (t.lock target).type l →
            ∃ h ∈ (t.lock l).highestBlocked, (t.lock target).type ≤ h := by
  simp only [shuffleBlocked] at result
  split at result
  · next none =>
      cases result
      exact .inr ⟨rfl, .refl _, fun target head => by simp [none] at head⟩
  · next target rest waits =>
      obtain ⟨⟨granted, u⟩, loops, result⟩ := Option.bind_eq_some_iff.1 result
      obtain ⟨noted, grants, basts⟩ := noteQueues_spec loops
      have head : res.queues.blocked.head? = some target := by rw [waits]; rfl
      cases granted with
      | true =>
          obtain ⟨can, free⟩ := grants.1 rfl
          obtain ⟨v, taken, same⟩ := Option.map_eq_some_iff.1 result
          cases same
          obtain ⟨fresh, lvb, queues, copy, others⟩ := grantTarget_spec taken
          refine .inl ⟨rfl, can, target, .unblocked (idle can) head free ?_, ?_, ?_, ?_, ?_⟩
          · rw [copy, noted.copy]
          · rwa [noted.asts] at fresh
          · rw [lvb, noted.lvb]
          · rw [queues, noted.queues]
          · intro d other
            rw [others d other, noted.copy]
      | false =>
          cases result
          refine .inr ⟨rfl, noted, fun first here => ?_⟩
          rw [noted.queues, head] at here
          cases here
          rw [noted.type]
          refine ⟨fun can => ?_, basts⟩
          by_contra free
          rw [not_exists] at free
          have granted := grants.2 ⟨can, fun l blocks => free l (noted.blocks.2 blocks)⟩
          cases granted

/-- A round serves one lock, or is the last one. -/
theorem shuffleConverting_spec {again : Bool} (result : shuffleConverting res = some (again, t)) :
    again = true ∧ (∃ target, Grant res t target) ∨
      again = false ∧ Noted res t ∧ Settled t := by
  simp only [shuffleConverting] at result
  split at result
  · next idle =>
      rcases shuffleBlocked_spec result fun _ => idle with
        ⟨again, -, granted⟩ | ⟨last, noted, blocked⟩
      · exact .inl ⟨again, granted⟩
      · refine .inr ⟨last, noted, fun target head => ?_, fun target head => ?_⟩
        · rw [noted.queues, idle] at head
          cases head
        · obtain ⟨stands, basts⟩ := blocked target head
          exact ⟨fun _ => stands rfl, basts⟩
  · next target rest waits =>
      have head : res.queues.converting.head? = some target := by rw [waits]; rfl
      split at result
      · cases result
      · next mode wants =>
          obtain ⟨⟨granted, u⟩, loops, result⟩ := Option.bind_eq_some_iff.1 result
          obtain ⟨noted, grants, basts⟩ := noteQueues_spec loops
          cases granted with
          | true =>
              obtain ⟨v, taken, same⟩ := Option.map_eq_some_iff.1 result
              cases same
              obtain ⟨fresh, lvb, queues, copy, others⟩ := grantTarget_spec taken
              refine .inl ⟨rfl, target, .converted mode head wants (grants.1 rfl).2 ?_, ?_, ?_, ?_, ?_⟩
              · rw [copy, DlmLockResource.copy_modifyLock, if_pos rfl, ← noted.copy]
                rfl
              · exact noted.asts ▸ fresh
              · rw [lvb, ← noted.lvb]
                rfl
              · rw [queues, ← noted.queues]
                rfl
              · intro d other
                rw [others d other, DlmLockResource.copy_modifyLock, if_neg other, noted.copy]
          | false =>
              rcases shuffleBlocked_spec result (fun can => by cases can) with
                ⟨-, can, -⟩ | ⟨last, noted', blocked⟩
              · cases can
              · refine .inr ⟨last, noted.trans noted', fun first here => ?_, fun first here => ?_⟩
                · rw [(noted.trans noted').queues, head] at here
                  cases here
                  refine ⟨mode, by rw [(noted.trans noted').convertType, wants], ?_, fun l blocks => ?_⟩
                  · by_contra free
                    rw [not_exists] at free
                    have granted := grants.2
                      ⟨rfl, fun l blocks => free l ((noted.trans noted').blocks.2 blocks)⟩
                    cases granted
                  · obtain ⟨h, noticed, le⟩ := basts l (noted'.blocks.1 blocks)
                    obtain ⟨h', noticed', le'⟩ := noted'.grows l h noticed
                    exact ⟨h', noticed', le.trans le'⟩
                · obtain ⟨-, basts'⟩ := blocked first here
                  refine ⟨fun idle => ?_, basts'⟩
                  rw [(noted.trans noted').queues, waits] at idle
                  cases idle

/-- How many locks wait. -/
def waiting (res : DlmLockResource Lvb) : Nat :=
  res.queues.converting.length + res.queues.blocked.length

omit [DlmLockCompatible] in
theorem length_filter_ne_lt {l : List Cookie} (member : target ∈ l) :
    (l.filter (· ≠ target)).length < l.length :=
  List.length_filter_lt_length_iff_exists.2 ⟨target, member, by simp⟩

theorem Grant.waiting_lt (grant : Grant res t target) : waiting t < waiting res := by
  simp only [waiting, grant.queues, Queues.moveTail, Queues.del, reduceCtorEq, if_false,
    List.append_nil]
  have most := List.length_filter_le (· ≠ target) res.queues.converting
  have most' := List.length_filter_le (· ≠ target) res.queues.blocked
  rcases grant.served with ⟨mode, head, -, -, -⟩ | ⟨-, head, -, -⟩
  · have less := length_filter_ne_lt (List.mem_of_mem_head? head)
    omega
  · have less := length_filter_ne_lt (List.mem_of_mem_head? head)
    omega

/-- Grants one after another, then nothing that can be granted. -/
inductive Shuffled : DlmLockResource Lvb → DlmLockResource Lvb → Prop where
  | settled {res t : DlmLockResource Lvb} (noted : Noted res t) (settled : Settled t) :
      Shuffled res t
  | grant {res t u : DlmLockResource Lvb} {target : Cookie} (grant : Grant res t target)
      (rest : Shuffled t u) : Shuffled res u

theorem shuffled_of_rounds {rounds : Nat} (enough : waiting res < rounds)
    (result : shuffleRounds rounds res = some t) : Shuffled res t := by
  induction rounds generalizing res with
  | zero => exact absurd enough (Nat.not_lt_zero _)
  | succ rounds inductionHypothesis =>
      obtain ⟨⟨again, u⟩, round, rest⟩ := Option.bind_eq_some_iff.1 result
      rcases shuffleConverting_spec round with ⟨rfl, target, grant⟩ | ⟨rfl, noted, settled⟩
      · have less := grant.waiting_lt
        exact .grant grant (inductionHypothesis (by omega) rest)
      · cases rest
        exact .settled noted settled

/-- The bound on the rounds is never the reason to stop. -/
theorem dlmShuffleLists_spec (result : dlmShuffleLists res = some t) : Shuffled res t :=
  shuffled_of_rounds (Nat.lt_succ_self _) result

end

end Ocfs2Coverage.Dlm
