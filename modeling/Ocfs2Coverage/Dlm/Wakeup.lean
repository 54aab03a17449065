import Ocfs2Coverage.Dlm.Notes

/-!
Contract: the owner's thread is woken whenever something may be granted, and holders in
the way are told.

Owns: what operations without a kick leave alone, that locks wait only behind holders
that are told so, unless the thread is to run, and that no bast for another node is lost.

Does not own: that holders ever let go.
-/

namespace Ocfs2Coverage.Dlm

open Ocfs2Coverage.Kernel
open Ocfs2Coverage.Runs

variable {Lvb : Type} {res t u : DlmLockResource Lvb} {c : Cookie}

/-! ## Operations without a kick -/

/-- Either the thread is woken, or nothing that it would look at differs. -/
def Kept (res t : DlmLockResource Lvb) : Prop :=
  t.dirty = true ∨ t.queues = res.queues ∧ t.dirty = res.dirty ∧
    ∀ d, res.queues.find d ≠ none →
      (t.lock d).type = (res.lock d).type ∧ (t.lock d).convertType = (res.lock d).convertType ∧
        (t.lock d).highestBlocked = (res.lock d).highestBlocked

theorem Kept.refl (res : DlmLockResource Lvb) : Kept res res :=
  .inr ⟨rfl, rfl, fun _ _ => ⟨rfl, rfl, rfl⟩⟩

theorem Kept.trans (first : Kept res t) (second : Kept t u) : Kept res u := by
  rcases second with woken | ⟨queues, dirty, locks⟩
  · exact .inl woken
  · rcases first with woken | ⟨queues', dirty', locks'⟩
    · exact .inl (dirty.trans woken)
    · refine .inr ⟨queues.trans queues', dirty.trans dirty', fun d here => ?_⟩
      obtain ⟨type, convertType, noted⟩ := locks d (by rwa [queues'])
      obtain ⟨type', convertType', noted'⟩ := locks' d here
      exact ⟨type.trans type', convertType.trans convertType', noted.trans noted'⟩

theorem Kept.kick (res t : DlmLockResource Lvb) : Kept res t.kick := .inl rfl

/-- A lock may change in what the thread does not look at, and a lock that is on no queue
in everything. -/
theorem Kept.modifyLock (res : DlmLockResource Lvb) (c : Cookie) (f : DlmLock Lvb → DlmLock Lvb)
    (same : res.queues.find c ≠ none → (f (res.lock c)).type = (res.lock c).type ∧
      (f (res.lock c)).convertType = (res.lock c).convertType ∧
        (f (res.lock c)).highestBlocked = (res.lock c).highestBlocked) :
    Kept res (res.modifyLock c f) := by
  refine .inr ⟨rfl, rfl, fun d here => ?_⟩
  rw [DlmLockResource.lock_modifyLock]
  split
  · next other =>
      subst other
      exact same here
  · exact ⟨rfl, rfl, rfl⟩

theorem kept_dlmNewLock {node : Node} {mode : Mode} {flags flags' : LkmFlags} {lvb : Lvb}
    (absent : res.queues.find c = none)
    (prepared : dlmNewLock res node c mode flags lvb = (flags', t)) : Kept res t := by
  have new : Kept res (res.modifyLock c fun _ => dlmInitLock mode node lvb) :=
    .modifyLock res c _ fun here => absurd absent here
  simp only [dlmNewLock] at prepared
  split at prepared
  · split at prepared
    · cases prepared
      exact new
    · cases prepared
      exact new.trans (.modifyLock _ c _ fun _ => ⟨rfl, rfl, rfl⟩)
  · cases prepared
    exact new

theorem kept_dlmFlushAst {node : Node} {past : Option (ProxyAst Lvb)}
    (result : dlmFlushAst res node = some (past, t)) : Kept res t := by
  simp only [dlmFlushAst] at result
  split at result
  · cases result
  next c rest waits =>
  have popped : Kept res { res with pendingAsts := rest } :=
    .inr ⟨rfl, rfl, fun _ _ => ⟨rfl, rfl, rfl⟩⟩
  have updated : Kept res (dlmUpdateLvb { res with pendingAsts := rest } true c) :=
    popped.trans (.modifyLock _ c _ fun _ => ⟨rfl, rfl, rfl⟩)
  have taken : Kept res (takeAst res c rest) :=
    updated.trans (.modifyLock _ c _ fun _ => ⟨rfl, rfl, rfl⟩)
  rw [bugOn_eq_some] at result
  obtain ⟨-, result⟩ := result
  split at result
  · cases result
    exact taken
  · cases result
    exact taken

/-- A bast that is sent, or told, leaves nothing else to the thread. -/
theorem told_dlmFlushBast {node : Node} {hi : Mode} {past : Option ProxyBast}
    (result : dlmFlushBast res node = some (hi, past, t)) :
    ∃ c, res.pendingBasts.head? = some c ∧ (∀ told ∈ past, told.cookie = c) ∧
      (res.lock c).highestBlocked = some hi ∧ t.queues = res.queues ∧ t.dirty = res.dirty ∧
      ∀ d, (t.lock d).type = (res.lock d).type ∧
        (t.lock d).convertType = (res.lock d).convertType ∧
        (d ≠ c → (t.lock d).highestBlocked = (res.lock d).highestBlocked) := by
  obtain ⟨c, rest, waits, noted, told, rfl⟩ := dlmFlushBast_spec result
  refine ⟨c, by rw [waits]; rfl, fun past' sent => ?_, noted, rfl, rfl, fun d => ?_⟩
  · rw [told] at sent
    split at sent
    · cases sent
    · cases sent
      rfl
  · by_cases same : d = c
    · simp [same]
    · simp [same]

section

variable {flags : LkmFlags} {type : Mode} {status : DlmStatus}

theorem noteValblk_type (flags : LkmFlags) (type : Mode) (lock : DlmLock Lvb) :
    (noteValblk flags type lock).type = lock.type ∧
      (noteValblk flags type lock).convertType = lock.convertType ∧
      (noteValblk flags type lock).highestBlocked = lock.highestBlocked := by
  rw [noteValblk_eq]
  exact ⟨rfl, rfl, rfl⟩

theorem kept_dlmlockMaster [DlmLockCompatible]
    (result : dlmlockMaster res c flags = some (status, t)) : Kept res t := by
  simp only [dlmlockMaster] at result
  split at result
  · obtain ⟨u, -, same⟩ := Option.bind_eq_some_iff.1 result
    cases same
    exact .kick res u
  · split at result
    · cases result
      exact .refl res
    · cases result
      exact .kick res _

theorem kept_dlmconvertMaster [DlmLockCompatible]
    (result : dlmconvertMaster res c flags type = some (status, t)) : Kept res t := by
  simp only [dlmconvertMaster] at result
  split at result
  · cases result
    exact .refl res
  split at result
  · cases result
    exact .refl res
  split at result
  · obtain ⟨u, -, same⟩ := Option.bind_eq_some_iff.1 result
    cases same
    exact .kick res u
  · split at result
    · cases result
      exact .modifyLock res c _ fun _ => noteValblk_type flags type _
    · cases result
      exact .kick res _

/-- `dlmunlock` wakes the thread whenever its request changed the queues. -/
theorem kept_dlmunlockMaster (keeps : flags.cancel = true → flags.valblk = false)
    (result : dlmunlockMaster res c flags = some (status, t)) :
    Kept res (if status = .normal ∨ status = .cancelGrant then t.kick else t) := by
  obtain ⟨-, outcome⟩ := dlmunlockMaster_spec keeps result
  cases outcome with
  | unlocked | tooLate | withdrawn | reverted => exact .kick res t
  | busy _ _ same | denied _ _ same | unknown _ _ same =>
      subst same
      exact .refl _

theorem kept_dlmCreateLockHandler [DlmLockCompatible] [Inhabited Lvb] {node : Node}
    (absent : res.queues.find c = none)
    (result : dlmCreateLockHandler res node c type flags = some (status, t)) : Kept res t := by
  have new : Kept res (res.modifyLock c fun _ =>
      { dlmInitLock type node default with getLvb := flags.getLvb }) :=
    .modifyLock res c _ fun here => absurd absent here
  exact new.trans (kept_dlmlockMaster result)

theorem kept_dlmConvertLockHandler [DlmLockCompatible] {node : Node} {lvb : Lvb}
    (result : dlmConvertLockHandler res node c type flags lvb = some (status, t)) : Kept res t := by
  simp only [dlmConvertLockHandler] at result
  split at result
  · cases result
    exact .refl res
  split at result
  · cases result
    exact .refl res
  rw [bugOn_eq_some] at result
  obtain ⟨⟨status', u⟩, converted, same⟩ := Option.map_eq_some_iff.1 result.2
  cases same
  have armed : Kept res (res.modifyLock c (armLvb flags lvb)) := by
    refine .modifyLock res c _ fun _ => ?_
    simp only [armLvb]
    split_ifs <;> exact ⟨rfl, rfl, rfl⟩
  have both := armed.trans (kept_dlmconvertMaster converted)
  split
  · exact both
  · exact both.trans (.modifyLock u c _ fun _ => ⟨rfl, rfl, rfl⟩)

theorem kept_dlmUnlockLockHandler {node : Node} {lvb : Lvb}
    (result : dlmUnlockLockHandler res node c flags lvb = some (status, t)) : Kept res t := by
  simp only [dlmUnlockLockHandler] at result
  split at result
  · cases result
    exact .refl res
  split at result
  · cases result
    exact .refl res
  split at result
  · cases result
    exact .refl res
  obtain ⟨u, -, same⟩ := Option.map_eq_some_iff.1 result
  cases same
  exact .kick res _

end

/-! ## Waiting -/

section

variable [DlmLockCompatible]

/-- A holder was told of a mode after the thread last went through the queues: the thread
took its bast and told the client at the owner, or sent it. -/
def Told (events : List (Event Lvb)) (l : Cookie) (mode : Mode) : Prop :=
  ∃ before after, events = before ++ after ∧ Event.shuffle ∉ after ∧
    ∃ hi, mode ≤ hi ∧ Event.bast l hi ∈ after

/-- It is told, or it will be. -/
def Noticed (events : List (Event Lvb)) (res : DlmLockResource Lvb) (l : Cookie) (mode : Mode) :
    Prop :=
  (∃ h ∈ (res.lock l).highestBlocked, mode ≤ h) ∨ Told events l mode

/-- What waits is in the way of something: the first lock that converts, and the first new
one unless conversions go before it; and what is in the way of either is told. -/
structure Stuck (events : List (Event Lvb)) (res : DlmLockResource Lvb) : Prop where
  converting : ∀ target, res.queues.converting.head? = some target →
    ∃ mode, (res.lock target).convertType = some mode ∧ (∃ l, Blocks res target mode l) ∧
      ∀ l, Blocks res target mode l → Noticed events res l mode
  blocked : ∀ target, res.queues.blocked.head? = some target →
    (res.queues.converting = [] → ∃ l, Blocks res target (res.lock target).type l) ∧
      ∀ l, Blocks res target (res.lock target).type l →
        Noticed events res l (res.lock target).type

theorem Settled.stuck (settled : Settled res) (events : List (Event Lvb)) : Stuck events res where
  converting target head := by
    obtain ⟨mode, wants, blocks, noted⟩ := settled.converting target head
    exact ⟨mode, wants, blocks, fun l stands => .inl (noted l stands)⟩
  blocked target head := by
    obtain ⟨blocks, noted⟩ := settled.blocked target head
    exact ⟨blocks, fun l stands => .inl (noted l stands)⟩

theorem settled_of_shuffled (shuffled : Shuffled res t) : Settled t := by
  induction shuffled with
  | settled _ settled => exact settled
  | grant _ _ inductionHypothesis => exact inductionHypothesis

omit [DlmLockCompatible] in
theorem Told.snoc {events : List (Event Lvb)} {l : Cookie} {mode : Mode}
    (told : Told events l mode) {event : Event Lvb} (other : event ≠ .shuffle) :
    Told (events ++ [event]) l mode := by
  obtain ⟨before, after, rfl, calm, hi, le, member⟩ := told
  refine ⟨before, after ++ [event], List.append_assoc .., ?_, hi, le, List.mem_append_left _ member⟩
  rw [List.mem_append, List.mem_singleton]
  rintro (member | same)
  · exact calm member
  · exact other same.symm

/-- What keeps the queues and tells no less keeps the locks stuck. -/
theorem Stuck.keep {events events' : List (Event Lvb)} (stuck : Stuck events res)
    (queues : t.queues = res.queues)
    (locks : ∀ d, res.queues.find d ≠ none → (t.lock d).type = (res.lock d).type ∧
      (t.lock d).convertType = (res.lock d).convertType ∧
      ∀ mode, Noticed events res d mode → Noticed events' t d mode) : Stuck events' t := by
  have blocks : ∀ target mode l, Blocks t target mode l ↔ Blocks res target mode l := by
    intro target mode l
    simp only [Blocks, queues]
    refine and_congr_right fun _ => and_congr_right fun here => ?_
    rw [(locks l (by rcases here with here | here <;> simp [here])).1]
  have noticed : ∀ target mode l, Blocks res target mode l → Noticed events res l mode →
      Noticed events' t l mode := by
    rintro target mode l ⟨-, here, -⟩
    exact (locks l (by rcases here with here | here <;> simp [here])).2.2 mode
  refine ⟨fun target head => ?_, fun target head => ?_⟩
  · rw [queues] at head
    have here := Queues.mem_converting.1 (List.mem_of_mem_head? head)
    obtain ⟨mode, wants, ⟨l, stands⟩, told⟩ := stuck.converting target head
    refine ⟨mode, by rw [(locks target (by simp [here])).2.1, wants], ⟨l, (blocks _ _ l).2 stands⟩,
      fun l stands => ?_⟩
    rw [blocks] at stands
    exact noticed _ _ l stands (told l stands)
  · rw [queues] at head
    have here := Queues.mem_blocked.1 (List.mem_of_mem_head? head)
    obtain ⟨stands, told⟩ := stuck.blocked target head
    rw [(locks target (by simp [here])).1, queues]
    refine ⟨fun idle => ?_, fun l stands => ?_⟩
    · obtain ⟨l, stands⟩ := stands idle
      exact ⟨l, (blocks _ _ l).2 stands⟩
    · rw [blocks] at stands
      exact noticed _ _ l stands (told l stands)

/-- A resource that is not dirty has nothing to grant. -/
def Awake (events : List (Event Lvb)) (res : DlmLockResource Lvb) : Prop :=
  res.dirty = false → Stuck events res

theorem Kept.awake {events : List (Event Lvb)} (kept : Kept res t) (awake : Awake events res)
    {event : Event Lvb} (other : event ≠ .shuffle) : Awake (events ++ [event]) t := by
  intro clean
  rcases kept with woken | ⟨queues, dirty, locks⟩
  · rw [clean] at woken
    cases woken
  refine (awake (dirty.symm.trans clean)).keep queues fun d here => ?_
  obtain ⟨type, convertType, noted⟩ := locks d here
  refine ⟨type, convertType, fun mode => ?_⟩
  rintro (noticed | told)
  · rw [← noted] at noticed
    exact .inl noticed
  · exact .inr (told.snoc other)

theorem awake_dlmFlushBast {events : List (Event Lvb)} (awake : Awake events res) {node : Node}
    {hi : Mode} {past : Option ProxyBast} (first : res.pendingBasts.head? = some c)
    (result : dlmFlushBast res node = some (hi, past, t)) : Awake (events ++ [.bast c hi]) t := by
  intro clean
  obtain ⟨c', first', -, noted, queues, dirty, locks⟩ := told_dlmFlushBast result
  cases first.symm.trans first'
  refine (awake (dirty.symm.trans clean)).keep queues fun d _ => ?_
  obtain ⟨type, convertType, others⟩ := locks d
  refine ⟨type, convertType, fun mode => ?_⟩
  rintro (noticed | told)
  · by_cases same : d = c
    · subst same
      obtain ⟨h, here, le⟩ := noticed
      cases noted.symm.trans here
      exact .inr ⟨events, [.bast d hi], rfl, by simp, hi, le, by simp⟩
    · rw [← others same] at noticed
      exact .inl noticed
  · exact .inr (told.snoc (by simp))

variable [Inhabited Lvb] {owner : Node} {s s' : Cluster Lvb}

/-- A step that is no shuffle and tells no bast takes along what the thread looks at. -/
theorem Invariant.kept (inv : Invariant owner s) {event : Event Lvb}
    (step : Step owner s event s') : Kept (s.res owner) (s'.res owner) ∧ event ≠ .shuffle ∨
      (event = .shuffle ∧ Settled (s'.res owner)) ∨
      ∃ c hi past, event = .bast c hi ∧ (s.res owner).pendingBasts.head? = some c ∧
        dlmFlushBast (s.res owner) owner = some (hi, past, s'.res owner) := by
  have atOwner : ∀ res, Kept (s.res owner) res →
      Kept (s.res owner) (Function.update s.res owner res owner) := by
    intro res kept
    rwa [Function.update_self]
  have elsewhere : ∀ n res, n ≠ owner →
      Kept (s.res owner) (Function.update s.res n res owner) := by
    intro n res other
    rw [Function.update_of_ne other.symm]
    exact .refl _
  cases step with
  | @lockOwner mode flags flags' lvb c next new res status client few key prepared result =>
      obtain ⟨node, count, -⟩ := dlmGetNextCookie_spec few key
      have absent := (inv.off (c := c) (by rw [node, count])).1
      exact .inl ⟨atOwner _ ((kept_dlmNewLock absent prepared).trans (kept_dlmlockMaster result)),
        by simp⟩
  | lock remote => exact .inl ⟨elsewhere _ _ remote, by simp⟩
  | convertOwner client usable result =>
      exact .inl ⟨atOwner _ (kept_dlmconvertMaster result), by simp⟩
  | convertIdle remote => exact .inl ⟨elsewhere _ _ remote, by simp⟩
  | convert remote => exact .inl ⟨elsewhere _ _ remote, by simp⟩
  | unlockOwner client mine result =>
      exact .inl ⟨atOwner _ (kept_dlmunlockMaster
        (fun cancel => by simp_all [dlmunlockFlags]) result), by simp⟩
  | unlockIdle remote => exact .inl ⟨elsewhere _ _ remote, by simp⟩
  | unlock remote => exact .inl ⟨elsewhere _ _ remote, by simp⟩
  | @write n c lvb usable top =>
      refine .inl ⟨?_, by simp⟩
      by_cases home : n = owner
      · subst home
        exact atOwner _ (.modifyLock _ c _ fun _ => ⟨rfl, rfl, rfl⟩)
      · exact elsewhere _ _ home
  | @handle call rest res status sent result =>
      refine .inl ⟨atOwner _ ?_, by simp⟩
      cases call with
      | create node c type flags =>
          have member : (Call.create node c type flags, none) ∈ s.calls := by
            rw [sent]
            exact Multiset.mem_cons_self _ _
          exact kept_dlmCreateLockHandler (inv.off_of_create member).1 result
      | convert node c type flags lvb => exact kept_dlmConvertLockHandler result
      | unlock node c flags lvb actions => exact kept_dlmUnlockLockHandler result
  | «return» answered result =>
      obtain ⟨sound, -⟩ := inv.awaited answered rfl
      exact .inl ⟨elsewhere _ _ sound.1, by simp⟩
  | @shuffle res asts result =>
      have settled := settled_of_shuffled (dlmShuffleLists_spec result)
      have here : (s.setRes owner { res with dirty := false }).res owner =
          { res with dirty := false } := Function.update_self ..
      rw [here]
      exact .inr (.inl ⟨rfl, settled.converting, settled.blocked⟩)
  | flushLocal asts first result => exact .inl ⟨atOwner _ (kept_dlmFlushAst result), by simp⟩
  | flush asts result => exact .inl ⟨atOwner _ (kept_dlmFlushAst result), by simp⟩
  | turnBasts | turnQueues | bast => exact .inl ⟨.refl _, by simp⟩
  | @flushLocalBast c hi res basts first result =>
      have here : (s.setRes owner res).res owner = res := Function.update_self ..
      refine .inr (.inr ⟨c, hi, none, rfl, first, ?_⟩)
      rw [here]
      exact result
  | @flushBast past hi res basts result =>
      have here : (s.setRes owner res).res owner = res := Function.update_self ..
      obtain ⟨c, first, about, -⟩ := told_dlmFlushBast result
      refine .inr (.inr ⟨past.cookie, hi, some past, rfl, ?_, ?_⟩)
      · rw [about past rfl]
        exact first
      · show dlmFlushBast _ _ = some (hi, some past, (s.setRes owner res).res owner)
        rw [here]
        exact result
  | ast sent result =>
      obtain ⟨remote, -⟩ := inv.asts _ (by rw [sent]; exact Multiset.mem_cons_self _ _)
      exact .inl ⟨elsewhere _ _ remote, by simp⟩

theorem awake_of_run {lvb : Lvb} {events : List (Event Lvb)}
    (run : Run (Step owner) (.start lvb) events s) : Awake events (s.res owner) := by
  have both : Invariant owner s ∧ Awake events (s.res owner) := by
    refine run.history (fun events s => Invariant owner s ∧ Awake events (s.res owner))
      ⟨.start owner lvb, ?_⟩ ?_
    · exact fun _ => ⟨fun _ head => absurd head (by simp [Cluster.start, Queues.empty]),
        fun _ head => absurd head (by simp [Cluster.start, Queues.empty])⟩
    · rintro events s event t ⟨inv, awake⟩ step
      refine ⟨inv.preserved step, ?_⟩
      rcases inv.kept step with ⟨kept, other⟩ | ⟨rfl, settled⟩ | ⟨c, hi, past, rfl, first, told⟩
      · exact kept.awake awake other
      · exact fun _ => settled.stuck _
      · exact awake_dlmFlushBast awake first told
  exact both.2

/-! ## Basts on their way -/

def Event.bastOf (l : Cookie) : Event Lvb → Bool
  | .bast c _ => c = l
  | _ => false

def Event.toldOf (l : Cookie) : Event Lvb → Bool
  | .told _ c _ => c = l
  | _ => false

omit [DlmLockCompatible] [Inhabited Lvb] in
/-- What was sent to other nodes is on its way, or their handlers have taken it. -/
structure Delivery (owner : Node) (events : List (Event Lvb)) (s : Cluster Lvb) : Prop where
  sent : ∀ past ∈ s.basts, Event.bast past.cookie past.blockedType ∈ events
  arrives : ∀ l, dlmGetLockCookieNode l ≠ owner → events.countP (Event.bastOf l) =
    (s.basts.countP fun past => past.cookie = l) + events.countP (Event.toldOf l)

/-- What a step does to the basts on their way. -/
theorem NotesInvariant.moves (basts : NotesInvariant owner s) {event : Event Lvb}
    (step : Step owner s event s') :
    s'.basts = s.basts ∧
        (∀ l, dlmGetLockCookieNode l ≠ owner → event.bastOf l = false ∧ event.toldOf l = false) ∨
      (∃ past : ProxyBast, event = .bast past.cookie past.blockedType ∧
        s'.basts = past ::ₘ s.basts) ∨
      ∃ (past : ProxyBast) (told : Option Mode), event = .told past.node past.cookie told ∧
        s.basts = past ::ₘ s'.basts := by
  cases step with
  | lockOwner | lock | convertOwner | convertIdle | convert | unlockOwner | unlockIdle | unlock
  | write | handle | «return» | shuffle | flushLocal | flush | turnBasts | turnQueues | ast =>
      exact .inl ⟨rfl, fun _ _ => ⟨rfl, rfl⟩⟩
  | @flushLocalBast c hi res telling first result =>
      obtain ⟨c', rest, waits, -, told, -⟩ := dlmFlushBast_spec result
      rw [waits, List.head?_cons, Option.some.injEq] at first
      subst first
      have home : ((s.res owner).lock c').node = owner := by
        by_contra away
        rw [if_neg away] at told
        cases told
      refine .inl ⟨rfl, fun l away => ⟨decide_eq_false fun same => away ?_, rfl⟩⟩
      rw [← same, ← basts.node c' (by simp [waits]), home]
  | @flushBast past hi res telling result =>
      obtain ⟨c, rest, waits, -, told, -⟩ := dlmFlushBast_spec result
      split at told
      · cases told
      · cases told
        exact .inr (.inl ⟨_, rfl, rfl⟩)
  | bast sent result => exact .inr (.inr ⟨_, _, rfl, sent⟩)

theorem delivery_of_run {lvb : Lvb} {events : List (Event Lvb)}
    (run : Run (Step owner) (.start lvb) events s) : Delivery owner events s := by
  have both : (Invariant owner s ∧ NotesInvariant owner s) ∧ Delivery owner events s := by
    refine run.history (fun events s =>
      (Invariant owner s ∧ NotesInvariant owner s) ∧ Delivery owner events s)
      ⟨⟨.start owner lvb, .start owner lvb⟩, by simp [Cluster.start], by simp [Cluster.start]⟩ ?_
    rintro events s event t ⟨⟨inv, basts⟩, sent, arrives⟩ step
    refine ⟨⟨inv.preserved step, basts.preserved inv step⟩, fun past member => ?_,
      fun l away => ?_⟩
    · rcases basts.moves step with ⟨same, -⟩ | ⟨past', rfl, same⟩ | ⟨past', told, rfl, same⟩
      · exact List.mem_append_left _ (sent past (same ▸ member))
      · rw [same] at member
        rcases Multiset.mem_cons.1 member with rfl | member
        · simp
        · exact List.mem_append_left _ (sent past member)
      · refine List.mem_append_left _ (sent past ?_)
        rw [same]
        exact Multiset.mem_cons_of_mem member
    · have before := arrives l away
      rw [List.countP_append, List.countP_append, List.countP_singleton, List.countP_singleton]
      rcases basts.moves step with ⟨same, silent⟩ | ⟨past, rfl, same⟩ | ⟨past, told, rfl, same⟩
      · rw [same, (silent l away).1, (silent l away).2]
        simpa using before
      · rw [same, Multiset.countP_cons]
        simp only [Event.bastOf, Event.toldOf, decide_eq_true_eq, Bool.false_eq_true, if_false]
        omega
      · rw [same, Multiset.countP_cons] at before
        simp only [Event.bastOf, Event.toldOf, decide_eq_true_eq, Bool.false_eq_true, if_false]
        omega
  exact both.2

/-- The handler tells a client of a mode that was sent to it, unless it does not find its
lock or the lock is on its way out. -/
theorem told_of_run {lvb : Lvb} {events : List (Event Lvb)} {n : Node} {told : Option Mode}
    (run : Run (Step owner) (.start lvb) (events ++ [.told n c told]) s) :
    ∃ mode, Event.bast c mode ∈ events ∧ told =
      if (s.res n).queues.find c = some .converting ∨
          (s.res n).queues.find c = some .granted ∧ ((s.res n).lock c).unlockPending = false then
        some mode
      else none := by
  obtain ⟨before, run, step⟩ := run.last
  have delivery := delivery_of_run run
  generalize arrived : Event.told n c told = event at step
  cases step with
  | lockOwner | lock | convertOwner | convertIdle | convert | unlockOwner | unlockIdle | unlock
  | write | handle | «return» | shuffle | flushLocal | flush | turnBasts | flushLocalBast
  | flushBast | turnQueues | ast => cases arrived
  | @bast past rest told' sent result =>
      obtain ⟨rfl, rfl, rfl⟩ := Event.told.inj arrived
      have member : past ∈ before.basts := by
        rw [sent]
        exact Multiset.mem_cons_self past rest
      exact ⟨past.blockedType, delivery.sent past member, dlmProxyBastHandler_spec result⟩

/-- No lost wakeup: behind every run, unless the thread is to run, the first lock that
converts waits for a holder in its way, so does the first new one when none converts, and
whatever is in the way of either was told since the queues were last gone through, or a
bast waits for it; and of the basts for another node none is lost and none taken twice:
as many were sent as are on their way or were taken there. -/
theorem waits_behind_told_holders {lvb : Lvb} {events : List (Event Lvb)}
    (run : Run (Step owner) (.start lvb) events s) (clean : (s.res owner).dirty = false) :
    Stuck events (s.res owner) ∧
      (∀ l, ((s.res owner).lock l).highestBlocked ≠ none → l ∈ (s.res owner).pendingBasts) ∧
      ∀ l, dlmGetLockCookieNode l ≠ owner → events.countP (Event.bastOf l) =
        (s.basts.countP fun past => past.cookie = l) + events.countP (Event.toldOf l) :=
  ⟨awake_of_run run clean, fun l => ((notesInvariant_of_run run).2.sound.blocked l).1,
    (delivery_of_run run).arrives⟩

end

/-- A reader behind a writer of the owner, who was told. -/
theorem waitingReader : ∃ events s, Run (@Step Nat modesCompatible _ 0) (.start 7) events s ∧
    (s.res 0).dirty = false ∧ (s.res 0).queues.blocked.head? = some (2 ^ 56 + 1) ∧
    @Blocks _ modesCompatible (s.res 0) (2 ^ 56 + 1) ((s.res 0).lock (2 ^ 56 + 1)).type 1 := by
  let compatible := modesCompatible
  have start : Run (@Step Nat modesCompatible _ 0) (.start 7) [] _ := .nil
  have locked := start.snoc (.lockOwner ⟨rfl, rfl⟩ (by decide) rfl
    (show dlmNewLock _ _ _ .ex plainFlags 0 = (_, _) from rfl) rfl)
  have holds := locked.snoc (.flushLocal (c := 1) rfl rfl rfl)
  have asked := holds.snoc (.lock (by decide) ⟨rfl, rfl⟩ (by decide) rfl
    (show dlmNewLock _ 1 _ .pr plainFlags 0 = (_, _) from rfl) rfl)
  have handled := asked.snoc
    (.handle (show _ = (Call.create 1 (2 ^ 56 + 1) .pr plainFlags, none) ::ₘ 0 from rfl) rfl)
  have shuffled := handled.snoc (.shuffle rfl rfl)
  have turned := shuffled.snoc (.turnBasts rfl rfl)
  have told := turned.snoc (.flushLocalBast rfl rfl rfl)
  exact ⟨_, _, told, by decide +kernel, by decide +kernel, by decide, .inl (by decide +kernel),
    by decide +kernel⟩

theorem waits_behind_told_holders_reader : ∃ events, ∃ s : Cluster Nat,
    (s.res 0).queues.blocked.head? = some (2 ^ 56 + 1) ∧
      Noticed events (s.res 0) 1 ((s.res 0).lock (2 ^ 56 + 1)).type := by
  let compatible := modesCompatible
  obtain ⟨events, s, run, clean, head, stands⟩ := waitingReader
  have stuck := waits_behind_told_holders run clean
  exact ⟨events, s, head, (stuck.1.blocked _ head).2 1 stands⟩

end Ocfs2Coverage.Dlm
