import Ocfs2Coverage.Dlm.Protocol

/-!
Contract: the steps of a conversation between a node and the owner.

Owns: one lemma for each message that leaves, arrives or returns and for each ast, and
the invariant of every run.

Does not own: steps that the owner takes alone, what clients may rely on.
-/

namespace Ocfs2Coverage.Dlm

open Ocfs2Coverage.Runs

variable {Lvb : Type} {owner n : Node} {s s' : Cluster Lvb} {c d : Cookie}
  {res : DlmLockResource Lvb} {flags : LkmFlags} {type : Mode} {call : Call Lvb}
  {status : DlmStatus} {phase phase' : Phase}

/-! ## One conversation -/

/-- A step on the copy of one lock, at the owner or at its own node. -/
theorem Invariant.converse (inv : Invariant owner s) (away : dlmGetLockCookieNode c ≠ owner)
    (either : n = owner ∨ n = dlmGetLockCookieNode c)
    (reses : s'.res = Function.update s.res n res) (nexts : s'.next = s.next)
    (others : ∀ d, d ≠ c → res.copy d = (s.res n).copy d)
    (elsewhere : Elsewhere c s.calls s'.calls)
    (past : ∀ d, d ≠ c → (s'.asts.countP fun past => past.cookie = d) =
      s.asts.countP fun past => past.cookie = d)
    (after : Conforms owner s' c phase')
    (present : (s.own c).place = none → phase'.here (dlmGetLockCookieNode c) = none)
    (fits : ∀ t ∈ ((s'.res owner).copy c).held, (∃ u ∈ ((s.res owner).copy c).held, t ≤ u) ∨
      ∀ d, d ≠ c → ∀ u ∈ ((s.res owner).copy d).held, u.Compatible t)
    (calls : ∀ k ∈ s'.calls, k.1.Sound owner)
    (asts : ∀ past ∈ s'.asts, past.node ≠ owner ∧ dlmGetLockCookieNode past.cookie = past.node) :
    Invariant owner s' := by
  refine inv.step_of_next c (agree_of n reses (fun d other => .of_eq (others d other)) elsewhere past)
    (fun _ => ⟨phase', after⟩) (fun mine => absurd mine away) fits calls asts nexts
    (fun none => after.here.trans (present none)) fun m other foreign => ?_
  refine place_elsewhere reses ?_
  rcases either with rfl | rfl
  · exact other
  · exact foreign.symm

/-- A phase in which the lock is at its own node follows only one in which it is. -/
theorem Conforms.present (conforms : Conforms owner s c phase)
    (here : phase.here (dlmGetLockCookieNode c) ≠ none) {place : Option Place} :
    (s.own c).place = none → place = none := fun none =>
  absurd (conforms.here.symm.trans none) here

/-- What is sent says the truth if what was sent did. -/
theorem sound_cons {calls : Multiset (Call Lvb × Option DlmStatus)} (answer : Option DlmStatus)
    (sound : call.Sound owner) (rest : ∀ k ∈ calls, k.1.Sound owner) :
    ∀ k ∈ (call, answer) ::ₘ calls, k.1.Sound owner := by
  intro k member
  rcases Multiset.mem_cons.1 member with rfl | member
  · exact sound
  · exact rest k member

/-! ## Calls that leave -/

/-- A lock that its client may use is idle. -/
theorem Invariant.idle (inv : Invariant owner s) (remote : n ≠ owner)
    (here : (s.res n).queues.find c = some .granted)
    (staying : ((s.res n).lock c).unlockPending = false) :
    dlmGetLockCookieNode c = n ∧ ∃ t, Conforms owner s c (.idle t) := by
  have node : dlmGetLockCookieNode c = n := by
    by_contra other
    have nowhere := inv.foreign n c remote other
    rw [place_eq_none, DlmLockResource.queue_copy, here] at nowhere
    cases nowhere
  refine ⟨node, ?_⟩
  obtain ⟨phase, conforms⟩ := inv.remote c (by rwa [node])
  have place := conforms.here
  rw [Cluster.own, node] at place
  have shown : ((s.res n).copy c).place = some ⟨((s.res n).lock c).node, .granted,
      ((s.res n).lock c).type, ((s.res n).lock c).convertType, false⟩ :=
    place_eq_some.2 ⟨here, rfl, rfl, rfl, staying⟩
  rw [shown] at place
  cases phase with
  | idle t => exact ⟨t, conforms⟩
  | absent | requested | queued | given | refused | asked | waiting | converted | turnedDown
  | cancelled | leaving | left => simp [Phase.here] at place

theorem Invariant.convert (inv : Invariant owner s) (remote : n ≠ owner)
    (client : flags.ByClient) (usable : Usable (s.res n) n c)
    (result : dlmconvertRemote (s.res n) c flags type = (.inr call, res))
    (reses : s'.res = Function.update s.res n res) (nexts : s'.next = s.next)
    (calls : s'.calls = (call, none) ::ₘ s.calls) (asts : s'.asts = s.asts) :
    Invariant owner s' := by
  obtain ⟨here, sender, staying, -⟩ := usable
  obtain ⟨node, t, idle⟩ := inv.idle remote here staying
  have away : dlmGetLockCookieNode c ≠ owner := by rwa [node]
  obtain ⟨-, -, -, rfl, copies⟩ := dlmconvertRemote_inr result
  have there : (s'.res owner).copy c = (s.res owner).copy c := by
    rw [reses, Function.update_of_ne remote.symm]
  have old := idle.here
  rw [Cluster.own, node] at old
  obtain ⟨-, -, mode, -, -⟩ := place_eq_some.1 old
  obtain ⟨get, put, note⟩ := noted_eq (s.res n) c flags type
  have after : Conforms owner s' c (.asked t type) := by
    refine ⟨?_, ?_, ?_, ?_, fun _ => trivial⟩
    · rw [Cluster.own, node, reses, Function.update_self, copies, if_pos rfl, note]
      exact place_eq_some.2 ⟨rfl, sender, mode, rfl, staying⟩
    · rw [there]
      exact idle.there
    · rw [Cluster.astCount, there, asts]
      exact idle.asts
    · rw [calls, errandsOf_cons, idle.errands]
      simp [Call.cookie, errand, Phase.errands]
  refine inv.converse away (.inr node.symm) reses nexts
    (fun d other => by rw [copies, if_neg other])
    (by rw [calls]; exact Elsewhere.sent (.convert _ c _ _ _, none) s.calls)
    (fun _ _ => by rw [asts]) after (idle.present (by simp [Phase.here]))
    (fun u held => .inl ⟨u, by rwa [← there], le_rfl⟩) ?_ (by rw [asts]; exact inv.asts)
  rw [calls]
  refine sound_cons none ⟨by rwa [Call.node, sender], by rwa [Call.node, sender], ?_⟩ inv.calls
  simp only [valblkFlags]
  split_ifs <;> simp [client.1, client.2]

theorem Invariant.unlock (inv : Invariant owner s) (remote : n ≠ owner)
    (client : flags.ByClient) (mine : ((s.res n).lock c).node = n)
    (staying : ((s.res n).lock c).unlockPending = false) (alone : ¬ CancelOpen s.calls c)
    (converts : flags.cancel = true → (s.res n).queues.find c = some .converting)
    (result : dlmunlockRemote (s.res n) c flags = some (.inr call, res))
    (reses : s'.res = Function.update s.res n res) (nexts : s'.next = s.next)
    (calls : s'.calls = (call, none) ::ₘ s.calls) (asts : s'.asts = s.asts) :
    Invariant owner s' := by
  obtain ⟨actions, rfl, -, answer⟩ := dlmunlockRemote_inr result
  have there : (s'.res owner).copy c = (s.res owner).copy c := by
    rw [reses, Function.update_of_ne remote.symm]
  rcases answer with ⟨cancel, rfl, action⟩ | ⟨unlock, here, rfl, copies⟩
  · have here := converts cancel
    have node : dlmGetLockCookieNode c = n := by
      by_contra other
      have nowhere := inv.foreign n c remote other
      rw [place_eq_none, DlmLockResource.queue_copy, here] at nowhere
      cases nowhere
    have away : dlmGetLockCookieNode c ≠ owner := by rwa [node]
    rw [dlmGetCancelActions_eq, here] at action
    obtain ⟨phase, conforms⟩ := inv.remote c away
    have place := conforms.here
    rw [Cluster.own, node] at place
    have after : Conforms owner s' c phase := by
      refine ⟨?_, ?_, ?_, ?_, fun _ => ?_⟩
      · rw [Cluster.own, node, reses, Function.update_self]
        exact place
      · rw [there]
        exact conforms.there
      · rw [Cluster.astCount, there, asts]
        exact conforms.asts
      · rw [calls, errandsOf_cons, conforms.errands]
        simp [Call.cookie, errand, dlmunlockFlags, cancel]
      · have queue : ((s.res n).copy c).place.map Place.queue = some .converting := by
          simp [DlmLockResource.Copy.place, here]
        rw [place] at queue
        cases phase <;> simp [Phase.here] at queue <;> trivial
    have present : (s.own c).place = none → phase.here (dlmGetLockCookieNode c) = none := by
      rw [conforms.here]
      exact id
    refine inv.converse away (.inr node.symm) reses nexts (fun _ _ => rfl)
      (by rw [calls]; exact Elsewhere.sent (.unlock _ c _ _ _, none) s.calls)
      (fun _ _ => by rw [asts]) after present
      (fun u held => .inl ⟨u, by rwa [← there], le_rfl⟩) ?_ (by rw [asts]; exact inv.asts)
    rw [calls]
    refine sound_cons none ⟨by rwa [Call.node, mine], by rwa [Call.node, mine], ?_⟩ inv.calls
    cases action
    simp [dlmunlockFlags, client.1, client.2, cancel]
  · obtain ⟨node, t, idle⟩ := inv.idle remote here staying
    have away : dlmGetLockCookieNode c ≠ owner := by rwa [node]
    have old := idle.here
    rw [Cluster.own, node] at old
    obtain ⟨queue, sender, mode, convert, -⟩ := place_eq_some.1 old
    have after : Conforms owner s' c (.leaving t) := by
      refine ⟨?_, ?_, ?_, ?_, fun sent => ?_⟩
      · rw [Cluster.own, node, reses, Function.update_self, copies, if_pos rfl]
        exact place_eq_some.2 ⟨queue, sender, mode, convert, rfl⟩
      · rw [there]
        exact idle.there
      · rw [Cluster.astCount, there, asts]
        exact idle.asts
      · rw [calls, errandsOf_cons, idle.errands]
        simp [Call.cookie, errand, dlmunlockFlags, unlock, Phase.errands]
      · rw [calls, cancelOpen_cons] at sent
        rcases sent with ⟨_, _, _, _, _, same, cancel⟩ | sent
        · cases same
          simp [dlmunlockFlags, unlock] at cancel
        · exact absurd sent alone
    refine inv.converse away (.inr node.symm) reses nexts
      (fun d other => by rw [copies, if_neg other])
      (by rw [calls]; exact Elsewhere.sent (.unlock _ c _ _ _, none) s.calls)
      (fun _ _ => by rw [asts]) after (idle.present (by simp [Phase.here]))
      (fun u held => .inl ⟨u, by rwa [← there], le_rfl⟩) ?_ (by rw [asts]; exact inv.asts)
    rw [calls]
    refine sound_cons none ⟨by rwa [Call.node, mine], by rwa [Call.node, mine], ?_⟩ inv.calls
    simp [dlmunlockFlags, client.1, client.2, unlock]

/-! ## Messages that arrive -/

section Handled

variable {node : Node} {lvb : Lvb} {actions : UnlockActions}
  {rest : Multiset (Call Lvb × Option DlmStatus)} {k : Call Lvb × Option DlmStatus}

theorem own_of_owner (reses : s'.res = Function.update s.res owner res)
    (away : dlmGetLockCookieNode c ≠ owner) : s'.own c = s.own c := by
  rw [Cluster.own, reses, Function.update_of_ne away]
  rfl

/-- The conversation that a message is part of. -/
theorem Invariant.awaited (inv : Invariant owner s) (open' : s.calls = k ::ₘ rest)
    (about : k.1.cookie = c) : k.1.Sound owner ∧ (∀ k ∈ rest, k.1.Sound owner) ∧
      dlmGetLockCookieNode c = k.1.node ∧ ∃ phase, Conforms owner s c phase ∧
        errand k + errandsOf rest c = phase.errands := by
  subst about
  have sound : ∀ k ∈ s.calls, k.1.Sound owner := inv.calls
  rw [open'] at sound
  have mine := sound k (Multiset.mem_cons_self k rest)
  obtain ⟨phase, conforms⟩ := inv.remote k.1.cookie (by rw [mine.2.1]; exact mine.1)
  refine ⟨mine, fun k member => sound k (Multiset.mem_cons_of_mem member), mine.2.1, phase,
    conforms, ?_⟩
  rw [← conforms.errands, open', errandsOf_cons, if_pos rfl]

/-- The owner handles a message. -/
theorem Invariant.handled (inv : Invariant owner s) (c : Cookie) (phase' : Phase)
    (sent : s.calls = (call, none) ::ₘ rest)
    (about : call.cookie = c) (conforms : Conforms owner s c phase)
    (reses : s'.res = Function.update s.res owner res) (nexts : s'.next = s.next)
    (calls : s'.calls = (call, some status) ::ₘ rest) (asts : s'.asts = s.asts)
    (others : ∀ d, d ≠ c → res.copy d = (s.res owner).copy d)
    (here : phase'.here (dlmGetLockCookieNode c) = phase.here (dlmGetLockCookieNode c))
    (there : (res.copy c).place = phase'.there (dlmGetLockCookieNode c))
    (asts' : (res.copy c).asts + phase.asts = ((s.res owner).copy c).asts + phase'.asts)
    (errands : errand (call, some status) + errandsOf rest c = phase'.errands)
    (cancels : CancelOpen ((call, none) ::ₘ rest) c → phase'.Cancellable)
    (fits : ∀ t ∈ (res.copy c).held, (∃ u ∈ ((s.res owner).copy c).held, t ≤ u) ∨
      ∀ d, d ≠ c → ∀ u ∈ ((s.res owner).copy d).held, u.Compatible t) :
    Invariant owner s' := by
  obtain ⟨sound, others', node, -⟩ := inv.awaited sent about
  have away : dlmGetLockCookieNode c ≠ owner := by
    rw [node]
    exact sound.1
  have copy : (s'.res owner).copy c = res.copy c := by rw [reses, Function.update_self]
  have after : Conforms owner s' c phase' := by
    refine ⟨?_, ?_, ?_, ?_, fun late => ?_⟩
    · rw [own_of_owner reses away, conforms.here, here]
    · rw [copy, there]
    · have before := conforms.asts
      rw [Cluster.astCount] at before ⊢
      rw [copy, asts]
      omega
    · rw [calls, errandsOf_cons, if_pos about, errands]
    · rw [calls, cancelOpen_cons] at late
      rw [cancelOpen_cons] at cancels
      refine cancels (late.imp_left ?_)
      rintro ⟨n, flags, lvb, actions, status, same, cancel⟩
      cases same
      exact ⟨n, flags, lvb, actions, none, rfl, cancel⟩
  refine inv.converse away (.inl rfl) reses nexts others
    (by rw [sent, calls, ← about]; exact .answered call status rest) (fun _ _ => by rw [asts])
    after (fun none => by rw [here, ← conforms.here, none]) ?_ ?_ (by rw [asts]; exact inv.asts)
  · rw [copy]
    exact fits
  · rw [calls]
    exact sound_cons _ sound others'

theorem CancelOpen.of_cons (sent : s.calls = k ::ₘ rest) (late : CancelOpen rest c) :
    CancelOpen s.calls c := by
  rw [sent, cancelOpen_cons]
  exact .inr late

theorem armLvb_eq (flags : LkmFlags) (lvb : Lvb) (lock : DlmLock Lvb) : ∃ get put lvb',
    armLvb flags lvb lock = { lock with getLvb := get, putLvb := put, lvb := lvb' } := by
  simp only [armLvb]
  split_ifs
  · exact ⟨_, _, _, rfl⟩
  · exact ⟨_, _, _, rfl⟩
  · exact ⟨_, _, _, rfl⟩

theorem Invariant.handleCreate [DlmLockCompatible] [Inhabited Lvb] (inv : Invariant owner s)
    (sent : s.calls = (.create node c type flags, none) ::ₘ rest)
    (result : dlmCreateLockHandler (s.res owner) node c type flags = some (status, res))
    (reses : s'.res = Function.update s.res owner res) (nexts : s'.next = s.next)
    (calls : s'.calls = (.create node c type flags, some status) ::ₘ rest)
    (asts : s'.asts = s.asts) : Invariant owner s' := by
  obtain ⟨-, -, sender, phase, conforms, waits⟩ := inv.awaited (c := c) sent rfl
  obtain ⟨none, rfl⟩ := phase_of_errand waits
  have late : ¬ CancelOpen ((.create node c type flags, Option.none) ::ₘ rest) c :=
    fun late => conforms.cancels (sent ▸ late)
  have sender : dlmGetLockCookieNode c = node := sender
  have free : ((s.res owner).copy c).queue = Option.none := place_eq_none.1 conforms.there
  obtain ⟨new, same, copy, -, others, -, outcome⟩ := dlmCreateLockHandler_spec result
  have queue : (new.copy c).queue = Option.none := by
    rw [copy]
    exact free
  have lock : (new.copy c).lock = { dlmInitLock type node default with getLvb := flags.getLvb } := by
    rw [copy]
  have count : (new.copy c).asts = ((s.res owner).copy c).asts := by
    rw [copy]
  have mode : (new.lock c).type = type := congrArg DlmLock.type lock
  cases outcome with
  | granted fits fresh granted =>
      have held : (res.copy c).held = some type := by
        simp [DlmLockResource.Copy.held, granted, mode]
      refine inv.handled c (.given type) sent rfl conforms reses nexts calls asts others rfl
        ?_ ?_ (by rw [none]; rfl) (fun sent => late sent) fun t member => .inr ?_
      · rw [granted, sender]
        exact place_eq_some.2 ⟨rfl, by rw [lock]; rfl, by rw [lock]; rfl, by rw [lock]; rfl,
          by rw [lock]; rfl⟩
      · show (res.copy c).asts + 0 = ((s.res owner).copy c).asts + 1
        rw [granted, count]
      · rw [held] at member
        cases member
        intro d other u held'
        rw [← same d other] at held'
        rw [← mode]
        exact compatible_of_canGrant fits held'
  | queued stands queued =>
      have held : (res.copy c).held = Option.none := by
        simp [DlmLockResource.Copy.held, queued]
      refine inv.handled c (.queued type) sent rfl conforms reses nexts calls asts others rfl
        ?_ ?_ (by rw [none]; rfl) (fun sent => late sent) fun t member => ?_
      · rw [queued, sender]
        exact place_eq_some.2 ⟨rfl, by rw [lock]; rfl, by rw [lock]; rfl, by rw [lock]; rfl,
          by rw [lock]; rfl⟩
      · show (res.copy c).asts + 0 = ((s.res owner).copy c).asts + 0
        rw [queued, ← count]
      · rw [held] at member
        cases member
  | refused noqueue unchanged =>
      subst unchanged
      refine inv.handled c (.refused type) sent rfl conforms reses nexts calls asts others rfl
        (place_eq_none.2 queue) ?_ (by rw [none]; rfl) (fun sent => late sent) fun t member => ?_
      · show (res.copy c).asts + 0 = ((s.res owner).copy c).asts + 0
        rw [count]
      · rw [DlmLockResource.Copy.mem_held, queue] at member
        simp at member

theorem Invariant.handleConvert [DlmLockCompatible] (inv : Invariant owner s)
    (sent : s.calls = (.convert node c type flags lvb, none) ::ₘ rest)
    (result : dlmConvertLockHandler (s.res owner) node c type flags lvb = some (status, res))
    (reses : s'.res = Function.update s.res owner res) (nexts : s'.next = s.next)
    (calls : s'.calls = (.convert node c type flags lvb, some status) ::ₘ rest)
    (asts : s'.asts = s.asts) : Invariant owner s' := by
  obtain ⟨⟨-, -, single⟩, -, sender, phase, conforms, waits⟩ := inv.awaited (c := c) sent rfl
  obtain ⟨none, t, rfl⟩ := phase_of_errand waits
  have sender : dlmGetLockCookieNode c = node := sender
  obtain ⟨here, node', mode, convert, staying⟩ := place_eq_some.1 conforms.there
  have node' : ((s.res owner).copy c).lock.node = node := node'.trans sender
  obtain ⟨new, u, same, copy, -, -, -, outcome, -, others, copy'⟩ :=
    dlmConvertLockHandler_spec single here node' result
  obtain ⟨get, put, lvb', arm⟩ := armLvb_eq flags lvb ((s.res owner).copy c).lock
  obtain ⟨get', put', note⟩ := noted_eq new c flags type
  rw [arm] at copy
  rw [copy] at note
  have mode' : (new.lock c).type = t :=
    (congrArg (fun copy => copy.lock.type) copy).trans mode
  have old : t ∈ ((s.res owner).copy c).held :=
    DlmLockResource.Copy.mem_held.2 ⟨.inl here, mode⟩
  cases outcome with
  | denied busy unchanged =>
      rcases busy with busy | elsewhere
      · exact absurd ((congrArg (fun copy => copy.lock.convertType) copy).trans convert) busy
      · exact absurd ((congrArg DlmLockResource.Copy.queue copy).trans here) elsewhere
  | granted idle here' fresh fits lvb'' granted =>
      rw [if_pos rfl, granted, copy, note] at copy'
      refine inv.handled c (.converted t type) sent rfl conforms reses nexts calls asts others
        rfl ?_ ?_ (by rw [none]; rfl) (fun _ => trivial) fun v member => ?_
      · rw [copy', sender]
        exact place_eq_some.2 ⟨rfl, node', rfl, convert, staying⟩
      · show (res.copy c).asts + 0 = ((s.res owner).copy c).asts + 1
        rw [copy']
      · rw [copy'] at member
        obtain rfl : type = v := Option.some.inj member
        rw [mode'] at fits
        refine fits.imp (fun le => ⟨t, old, le⟩) fun free d other w held => ?_
        refine free d other w ?_
        rwa [same d other]
  | refused idle here' upwards noqueue lvb'' refused =>
      rw [if_neg (by decide), refused, copy, note] at copy'
      refine inv.handled c (.turnedDown t type) sent rfl conforms reses nexts calls asts others
        rfl ?_ ?_ (by rw [none]; rfl) (fun _ => trivial) fun v member => .inl ⟨t, old, ?_⟩
      · rw [copy', sender]
        exact place_eq_some.2 ⟨here, node', mode, convert, staying⟩
      · show (res.copy c).asts + 0 = ((s.res owner).copy c).asts + 0
        rw [copy']
      · rw [copy'] at member
        obtain ⟨-, same'⟩ := DlmLockResource.Copy.mem_held.1 member
        exact (same'.symm.trans mode).le
  | queued idle here' upwards lvb'' queued =>
      rw [if_pos rfl, queued, copy, note] at copy'
      refine inv.handled c (.waiting t type) sent rfl conforms reses nexts calls asts others
        rfl ?_ ?_ (by rw [none]; rfl) (fun _ => trivial) fun v member => .inl ⟨t, old, ?_⟩
      · rw [copy', sender]
        exact place_eq_some.2 ⟨rfl, node', mode, rfl, staying⟩
      · show (res.copy c).asts + 0 = ((s.res owner).copy c).asts + 0
        rw [copy']
      · rw [copy'] at member
        obtain ⟨-, same'⟩ := DlmLockResource.Copy.mem_held.1 member
        exact (same'.symm.trans mode).le

theorem ownerFlags_cancel (lock : DlmLock Lvb) (flags : LkmFlags) :
    (ownerFlags lock flags).cancel = flags.cancel := by
  simp only [ownerFlags]
  split <;> rfl

/-- A cancel reaches a lock that stands at the owner. -/
theorem Conforms.cancellable (conforms : Conforms owner s c phase) (may : phase.Cancellable) :
    (s.res owner).queues.find c = some .granted ∨
      ∃ t u, phase = .waiting t u ∧ (s.res owner).queues.find c = some .converting := by
  have queue := conforms.queue
  cases phase with
  | idle | asked | converted | turnedDown | cancelled => exact .inl queue
  | waiting t u => exact .inr ⟨t, u, rfl, queue⟩
  | absent | requested | queued | given | refused | leaving | left => exact absurd may id

theorem Invariant.handleUnlock (inv : Invariant owner s)
    (sent : s.calls = (.unlock node c flags lvb actions, none) ::ₘ rest)
    (result : dlmUnlockLockHandler (s.res owner) node c flags lvb = some (status, res))
    (reses : s'.res = Function.update s.res owner res) (nexts : s'.next = s.next)
    (calls : s'.calls = (.unlock node c flags lvb actions, some status) ::ₘ rest)
    (asts : s'.asts = s.asts) : Invariant owner s' := by
  obtain ⟨⟨-, -, noGet, keeps, -⟩, -, sender, phase, conforms, waits⟩ :=
    inv.awaited (c := c) sent rfl
  have sender : dlmGetLockCookieNode c = node := sender
  have stands : ∀ queue, (s.res owner).queues.find c = some queue →
      ((s.res owner).lock c).node = node :=
    fun _ here => (inv.node_of_queue here).trans sender
  cases cancel : flags.cancel with
  | false =>
      simp only [errand, cancel, Bool.false_eq_true, if_false] at waits
      obtain ⟨none, t, rfl⟩ := phase_of_errand waits
      have late : ¬ CancelOpen ((.unlock node c flags lvb actions, Option.none) ::ₘ rest) c :=
        fun late => conforms.cancels (sent ▸ late)
      have here : (s.res owner).queues.find c = some .granted := conforms.queue
      obtain ⟨new, u, -, copy, -, pending, outcome, -, others, copy'⟩ :=
        dlmUnlockLockHandler_spec noGet keeps (by simp [here]) (stands _ here) result
      have idle : ((s.res owner).copy c).asts = 0 := by
        have count := conforms.asts
        simp only [Cluster.astCount, Phase.asts] at count
        omega
      cases outcome with
      | busy unlock waiting same =>
          rw [pending] at waiting
          exact absurd waiting (List.count_eq_zero.1 idle)
      | denied unlock elsewhere same =>
          exact absurd ((congrArg DlmLockResource.Copy.queue copy).trans here) elsewhere
      | unlocked unlock idle' here' lvb' gone =>
          have nowhere : (res.copy c).queue = Option.none := by
            rw [copy', gone]
          refine inv.handled c (.left t) sent rfl conforms reses nexts calls asts
            others rfl (place_eq_none.2 nowhere) ?_ ?_ (fun sent => late sent) fun v held => ?_
          · rw [copy', gone, copy]
            rfl
          · rw [none]
            simp [errand, cancel, Phase.errands]
          · rw [DlmLockResource.Copy.mem_held, nowhere] at held
            simp at held
      | tooLate cancel' | unknown cancel' | withdrawn cancel' | reverted cancel' =>
          rw [ownerFlags_cancel, cancel] at cancel'
          cases cancel'
  | true =>
      simp only [errand, cancel, if_true, zero_add] at waits
      have may : phase.Cancellable := conforms.cancels
        ⟨node, flags, lvb, actions, Option.none, by
          rw [sent]
          exact Multiset.mem_cons_self _ _, cancel⟩
      have queue := conforms.cancellable may
      have known : (s.res owner).queues.find c ≠ none ∧ ((s.res owner).lock c).node = node := by
        rcases queue with here | ⟨_, _, _, here⟩
        · exact ⟨by simp [here], stands _ here⟩
        · exact ⟨by simp [here], stands _ here⟩
      obtain ⟨new, u, -, copy, -, -, outcome, -, others, copy'⟩ :=
        dlmUnlockLockHandler_spec noGet keeps known.1 known.2 result
      have queue' : new.queues.find c = (s.res owner).queues.find c :=
        congrArg DlmLockResource.Copy.queue copy
      cases outcome with
      | busy unlock | denied unlock | unlocked unlock =>
          rw [ownerFlags_cancel, cancel] at unlock
          cases unlock
      | unknown cancel' nowhere same => exact absurd (queue'.symm.trans nowhere) known.1
      | withdrawn cancel' here lvb' gone =>
          rw [queue'] at here
          rcases queue with here' | ⟨_, _, _, here'⟩
          · rw [here] at here'
            cases here'
          · rw [here] at here'
            cases here'
      | tooLate cancel' here same =>
          have unchanged : (res.copy c).place = ((s.res owner).copy c).place := by
            rw [copy', same, copy]
            split <;> rfl
          refine inv.handled c phase sent rfl conforms reses nexts calls asts
            others rfl (unchanged.trans conforms.there) ?_ ?_ (fun _ => may) fun v held => ?_
          · rw [copy', same, copy]
          · rw [← waits]
            simp [errand, cancel]
          · rw [held_eq, unchanged, ← held_eq] at held
            exact .inl ⟨v, held, le_rfl⟩
      | reverted cancel' here lvb' back =>
          rw [queue'] at here
          rcases queue with here' | ⟨t, w, rfl, -⟩
          · rw [here] at here'
            cases here'
          obtain ⟨-, node', mode, convert, staying⟩ := place_eq_some.1 conforms.there
          have place : (res.copy c).place = some
              ⟨dlmGetLockCookieNode c, .granted, t, none, false⟩ := by
            rw [copy', back, copy]
            refine place_eq_some.2 ⟨rfl, ?_, ?_, ?_, ?_⟩
            · split <;> exact node'
            · split <;> exact mode
            · split <;> rfl
            · split <;> exact staying
          refine inv.handled c (.cancelled t w) sent rfl conforms reses nexts calls
            asts others rfl place ?_ ?_ (fun _ => trivial) fun v held => ?_
          · rw [copy', back, copy]
            rfl
          · rw [waits]
            simp [errand, cancel, Phase.errands]
          · rw [held_eq, place] at held
            obtain rfl : t = v := Option.some.inj held
            exact .inl ⟨t, DlmLockResource.Copy.mem_held.2 ⟨.inr here, mode⟩, le_rfl⟩

theorem Invariant.handle [DlmLockCompatible] [Inhabited Lvb] (inv : Invariant owner s)
    (sent : s.calls = (call, none) ::ₘ rest)
    (result : handleCall (s.res owner) call = some (status, res))
    (reses : s'.res = Function.update s.res owner res) (nexts : s'.next = s.next)
    (calls : s'.calls = (call, some status) ::ₘ rest) (asts : s'.asts = s.asts) :
    Invariant owner s' := by
  cases call with
  | create node c type flags => exact inv.handleCreate sent result reses nexts calls asts
  | convert node c type flags lvb => exact inv.handleConvert sent result reses nexts calls asts
  | unlock node c flags lvb actions => exact inv.handleUnlock sent result reses nexts calls asts

/-! ## Answers -/

/-- A status reaches the node that asked. -/
theorem Invariant.returned (inv : Invariant owner s) (c : Cookie) (phase' : Phase)
    (answered : s.calls = (call, some status) ::ₘ rest) (about : call.cookie = c)
    (conforms : Conforms owner s c phase)
    (reses : s'.res = Function.update s.res call.node res) (nexts : s'.next = s.next)
    (calls : s'.calls = rest) (asts : s'.asts = s.asts)
    (others : ∀ d, d ≠ c → res.copy d = (s.res call.node).copy d)
    (here : (res.copy c).place = phase'.here (dlmGetLockCookieNode c))
    (there : phase'.there (dlmGetLockCookieNode c) = phase.there (dlmGetLockCookieNode c))
    (asts' : phase'.asts = phase.asts) (errands : errandsOf rest c = phase'.errands)
    (cancels : CancelOpen rest c → phase'.Cancellable)
    (present : phase.here (dlmGetLockCookieNode c) = none →
      phase'.here (dlmGetLockCookieNode c) = none) : Invariant owner s' := by
  obtain ⟨sound, others', node, -⟩ := inv.awaited answered about
  have node : dlmGetLockCookieNode c = call.node := node
  have away : dlmGetLockCookieNode c ≠ owner := by
    rw [node]
    exact sound.1
  have copy : (s'.res owner).copy c = (s.res owner).copy c := by
    rw [reses, Function.update_of_ne (by rw [← node]; exact away.symm)]
  have after : Conforms owner s' c phase' := by
    refine ⟨?_, ?_, ?_, ?_, fun late => cancels (calls ▸ late)⟩
    · rw [← here, Cluster.own, reses, node, Function.update_self]
    · rw [copy, there, conforms.there]
    · rw [Cluster.astCount, copy, asts, asts']
      exact conforms.asts
    · rw [calls, errands]
  refine inv.converse away (.inr node.symm) reses nexts others
    (by rw [answered, calls, ← about]; exact .removed (call, some status) rest)
    (fun _ _ => by rw [asts]) after (fun none => present (conforms.here.symm.trans none))
    (fun u held => .inl ⟨u, by rwa [← copy], le_rfl⟩) ?_ (by rw [asts]; exact inv.asts)
  rw [calls]
  exact others'

/-- A status that changes nothing. -/
theorem Invariant.acknowledged (inv : Invariant owner s)
    (answered : s.calls = (call, some status) ::ₘ rest) (about : call.cookie = c)
    (reses : s'.res = Function.update s.res call.node res) (nexts : s'.next = s.next)
    (calls : s'.calls = rest) (asts : s'.asts = s.asts)
    (others : ∀ d, d ≠ c → res.copy d = (s.res call.node).copy d)
    (here : (res.copy c).place = ((s.res call.node).copy c).place)
    (silent : errand (call, some status) = 0) : Invariant owner s' := by
  obtain ⟨-, -, node, phase, conforms, waits⟩ := inv.awaited answered about
  have node : dlmGetLockCookieNode c = call.node := node
  rw [silent, zero_add] at waits
  refine inv.returned c phase answered about conforms reses nexts calls asts others ?_ rfl rfl waits
    (fun late => conforms.cancels (late.of_cons answered)) id
  rw [here, ← conforms.here, Cluster.own, node]

theorem Invariant.return (inv : Invariant owner s)
    (answered : s.calls = (call, some status) ::ₘ rest)
    (result : returnCall (s.res call.node) status call = some res)
    (reses : s'.res = Function.update s.res call.node res) (nexts : s'.next = s.next)
    (calls : s'.calls = rest) (asts : s'.asts = s.asts) : Invariant owner s' := by
  cases call with
  | create node c type flags =>
      simp only [returnCall, Option.some.injEq] at result
      by_cases fine : status = .normal
      · rw [dlmlockRemoteStatus, fine, if_neg (by simp)] at result
        subst result fine
        exact inv.acknowledged (c := c) answered rfl reses nexts calls asts (fun _ _ => rfl) rfl rfl
      · have copies := copy_dlmlockRemoteStatus (s.res node) c fine
        simp only [Call.node] at result
        rw [result] at copies
        obtain ⟨-, -, -, phase, conforms, waits⟩ := inv.awaited (c := c) answered rfl
        have waits : {Errand.noCreate} + errandsOf rest c = phase.errands := by
          rw [← waits]
          cases status <;> first | rfl | exact absurd rfl fine
        obtain ⟨none, t, rfl⟩ := phase_of_errand waits
        refine inv.returned c .absent answered rfl conforms reses nexts calls
          asts (fun d other => (copies d).trans (if_neg other)) ?_ rfl rfl none
          (fun late => conforms.cancels (late.of_cons answered)) (fun _ => rfl)
        rw [copies, if_pos rfl]
        rfl
  | convert node c type flags lvb =>
      simp only [returnCall, Option.some.injEq] at result
      have copies := fun d =>
        copy_dlmconvertRemoteStatus (s.res node) c status d
      simp only [Call.node] at result
      rw [result] at copies
      by_cases fine : status = .normal
      · subst fine
        refine inv.acknowledged (c := c) answered rfl reses nexts calls asts
          (fun d other => (copies d).trans (if_neg other)) ?_ rfl
        rw [copies, if_pos rfl, if_pos rfl]
        rfl
      · obtain ⟨-, -, sender, phase, conforms, waits⟩ := inv.awaited (c := c) answered rfl
        have sender : dlmGetLockCookieNode c = node := sender
        have waits : {Errand.noConvert} + errandsOf rest c = phase.errands := by
          rw [← waits]
          cases status <;> first | rfl | exact absurd rfl fine
        obtain ⟨none, t, u, rfl⟩ := phase_of_errand waits
        have here := conforms.here
        rw [Cluster.own, sender] at here
        obtain ⟨-, node', mode, -, staying⟩ := place_eq_some.1 here
        refine inv.returned c (.idle t) answered rfl conforms reses nexts calls
          asts (fun d other => (copies d).trans (if_neg other)) ?_ rfl rfl none
          (fun _ => trivial) (by simp [Phase.here])
        rw [copies, if_pos rfl, if_neg fine, sender]
        exact place_eq_some.2 ⟨rfl, node', mode, rfl, staying⟩
  | unlock node c flags lvb actions =>
      simp only [returnCall, Option.map_eq_some_iff] at result
      obtain ⟨⟨status', res'⟩, result, same⟩ := result
      cases same
      obtain ⟨⟨-, -, -, -, act⟩, -, sender, phase, conforms, waits⟩ :=
        inv.awaited (c := c) answered rfl
      have sender : dlmGetLockCookieNode c = node := sender
      obtain ⟨others, late, copy⟩ := dlmunlockRemoteStatus_spec result
      have here := conforms.here
      rw [Cluster.own, sender] at here
      have broken : {Errand.broken} + errandsOf rest c = phase.errands → Invariant owner s' :=
        fun waits => absurd (phase_of_errand waits).2 id
      cases status with
      | normal =>
          have copy := copy rfl
          cases cancel : flags.cancel with
          | true =>
              rw [act, cancel] at copy
              simp only [errand, cancel, if_true] at waits
              obtain ⟨none, t, u, rfl⟩ := phase_of_errand waits
              obtain ⟨-, node', mode, -, staying⟩ := place_eq_some.1 here
              refine inv.returned c (.idle t) answered rfl conforms reses nexts
                calls asts others ?_ rfl rfl none (fun _ => trivial) (by simp [Phase.here])
              rw [copy, sender]
              exact place_eq_some.2 ⟨rfl, node', mode, rfl, staying⟩
          | false =>
              rw [act, cancel] at copy
              simp only [errand, cancel, Bool.false_eq_true, if_false] at waits
              obtain ⟨none, t, rfl⟩ := phase_of_errand waits
              refine inv.returned c .absent answered rfl conforms reses nexts
                calls asts others ?_ rfl rfl none
                (fun late => conforms.cancels (late.of_cons answered)) fun _ => rfl
              rw [copy]
              rfl
      | cancelGrant =>
          cases cancel : flags.cancel with
          | true =>
              rw [late rfl cancel] at reses others
              exact inv.acknowledged (c := c) answered rfl reses nexts calls asts others rfl
                (by simp [errand, cancel])
          | false =>
              simp only [errand, cancel, Bool.false_eq_true, if_false] at waits
              exact broken waits
      | denied | notQueued | ivLockId | badParam | badArgs | recovering => exact broken waits

end Handled

/-! ## Asts on their way -/

section Asts

variable {past : ProxyAst Lvb} {rest : Multiset (ProxyAst Lvb)}

theorem pastCount_cons (past : ProxyAst Lvb) (rest : Multiset (ProxyAst Lvb)) (d : Cookie) :
    ((past ::ₘ rest).countP fun past => past.cookie = d) =
      (rest.countP fun past => past.cookie = d) + if past.cookie = d then 1 else 0 :=
  Multiset.countP_cons _ past rest

/-- The phases with an ast open. -/
theorem Phase.of_asts (phase : Phase) (open' : 0 < phase.asts) :
    (∃ t, phase = .given t) ∨ ∃ t u, phase = .converted t u := by
  cases phase <;> simp [Phase.asts] at open' ⊢

/-- An ast waits at the owner only for a lock that is granted. -/
theorem Invariant.node_of_ast (inv : Invariant owner s)
    (open' : 0 < ((s.res owner).copy c).asts) :
    ((s.res owner).lock c).node = dlmGetLockCookieNode c ∧
      (s.res owner).queues.find c = some .granted := by
  have granted : ∃ p : Place, ((s.res owner).copy c).place = some p ∧ p.queue = .granted := by
    by_cases home : dlmGetLockCookieNode c = owner
    · rcases inv.home c home with ⟨_, none⟩ | ⟨t, place, _⟩ | ⟨t, u, _, none⟩ | ⟨t, _, none⟩
      · omega
      · exact ⟨_, place, rfl⟩
      · omega
      · omega
    · obtain ⟨phase, conforms⟩ := inv.remote c home
      have count := conforms.asts
      rw [Cluster.astCount] at count
      rcases phase.of_asts (by omega) with ⟨t, rfl⟩ | ⟨t, u, rfl⟩
      · exact ⟨_, conforms.there, rfl⟩
      · exact ⟨_, conforms.there, rfl⟩
  obtain ⟨p, place, queue⟩ := granted
  obtain ⟨here, node, -⟩ := place_eq_some.1 place
  exact ⟨node.trans (inv.node place), here.trans (congrArg some queue)⟩

theorem Invariant.flushLocal (inv : Invariant owner s)
    (result : dlmFlushAst (s.res owner) owner = some (none, res))
    (reses : s'.res = Function.update s.res owner res) (nexts : s'.next = s.next)
    (calls : s'.calls = s.calls) (asts : s'.asts = s.asts) : Invariant owner s' := by
  obtain ⟨c, -, -, told, others, copy, open'⟩ := dlmFlushAst_spec result
  obtain ⟨node, -⟩ := inv.node_of_ast open'
  have home : dlmGetLockCookieNode c = owner := by
    by_contra away
    rw [if_neg (by rwa [node])] at told
    cases told
  have same : (res.copy c).place = ((s.res owner).copy c).place := by
    rw [copy]
    rfl
  have fewer : (res.copy c).asts ≤ ((s.res owner).copy c).asts := by
    rw [copy]
    exact Nat.sub_le ..
  refine inv.atOwner reses nexts calls asts (fun d other => .of_eq (others d other)) (fun _ => ?_)
    (fun away => absurd home away) (fun t held => .inl ⟨t, ?_, le_rfl⟩) fun none => same.trans none
  · rcases inv.home c home with ⟨_, none⟩ | ⟨t, place, one⟩ | ⟨t, u, _, none⟩ | ⟨t, _, none⟩
    · omega
    · exact .granted t (same.trans place) (fewer.trans one)
    · omega
    · omega
  · rwa [held_eq, ← same, ← held_eq]

theorem Invariant.flush (inv : Invariant owner s)
    (result : dlmFlushAst (s.res owner) owner = some (some past, res))
    (reses : s'.res = Function.update s.res owner res) (nexts : s'.next = s.next)
    (calls : s'.calls = s.calls) (asts : s'.asts = past ::ₘ s.asts) : Invariant owner s' := by
  obtain ⟨c, -, -, told, others, copy, open'⟩ := dlmFlushAst_spec result
  obtain ⟨node, -⟩ := inv.node_of_ast open'
  have away : dlmGetLockCookieNode c ≠ owner := by
    intro home
    rw [if_pos (by rwa [node])] at told
    cases told
  rw [if_neg (by rwa [node])] at told
  cases told
  have here : (s'.res owner).copy c = res.copy c := by rw [reses, Function.update_self]
  have same : (res.copy c).place = ((s.res owner).copy c).place := by
    rw [copy]
    rfl
  obtain ⟨phase, conforms⟩ := inv.remote c away
  have after : Conforms owner s' c phase := by
    refine ⟨?_, ?_, ?_, ?_, fun sent => conforms.cancels (calls ▸ sent)⟩
    · rw [own_of_owner reses away, conforms.here]
    · rw [here, same, conforms.there]
    · have count := conforms.asts
      rw [Cluster.astCount] at count ⊢
      rw [here, copy, asts, pastCount_cons, if_pos rfl, ← count]
      show ((s.res owner).copy c).asts - 1 + _ = _
      omega
    · rw [calls, conforms.errands]
  refine inv.converse away (.inl rfl) reses nexts others (by rw [calls]; exact .refl c s.calls)
    (fun d other => ?_) after (fun none => conforms.here.symm.trans none)
    (fun t held => .inl ⟨t, ?_, le_rfl⟩) (by rw [calls]; exact inv.calls) ?_
  · rw [asts, pastCount_cons, if_neg other.symm, add_zero]
  · rwa [held_eq, ← same, ← here, ← held_eq]
  · rw [asts]
    intro past member
    rcases Multiset.mem_cons.1 member with rfl | member
    · exact ⟨by rwa [node], node.symm⟩
    · exact inv.asts past member

/-- The phase of a lock whose ast arrives. -/
theorem Invariant.ast_phase (inv : Invariant owner s) (sent : s.asts = past ::ₘ rest) :
    ∃ phase, Conforms owner s past.cookie phase ∧
      ((∃ t, phase = .given t) ∨ ∃ t u, phase = .converted t u) := by
  obtain ⟨remote, node⟩ := inv.asts past (by rw [sent]; exact Multiset.mem_cons_self past rest)
  obtain ⟨phase, conforms⟩ := inv.remote past.cookie (by rwa [node])
  refine ⟨phase, conforms, phase.of_asts ?_⟩
  rw [← conforms.asts, Cluster.astCount, sent, pastCount_cons, if_pos rfl]
  omega

theorem Invariant.ast (inv : Invariant owner s) (sent : s.asts = past ::ₘ rest)
    (result : dlmProxyAstHandler (s.res past.node) owner past.node past.cookie past.lvb = some res)
    (reses : s'.res = Function.update s.res past.node res) (nexts : s'.next = s.next)
    (calls : s'.calls = s.calls) (asts : s'.asts = rest) : Invariant owner s' := by
  obtain ⟨remote, node⟩ := inv.asts past (by rw [sent]; exact Multiset.mem_cons_self past rest)
  have away : dlmGetLockCookieNode past.cookie ≠ owner := by rwa [node]
  obtain ⟨phase, conforms, granted⟩ := inv.ast_phase sent
  obtain ⟨others, copy⟩ := dlmProxyAstHandler_spec result
  have there : (s'.res owner).copy past.cookie = (s.res owner).copy past.cookie := by
    rw [reses, Function.update_of_ne remote.symm]
  have own : s'.own past.cookie = res.copy past.cookie := by
    rw [Cluster.own, node, reses, Function.update_self]
  have old := conforms.here
  rw [Cluster.own, node] at old
  have silent : phase.errands = 0 := by
    rcases granted with ⟨t, rfl⟩ | ⟨t, u, rfl⟩ <;> rfl
  have count : s'.astCount owner past.cookie + 1 = phase.asts := by
    rw [← conforms.asts, Cluster.astCount, Cluster.astCount, there, asts, sent,
      pastCount_cons, if_pos rfl]
    omega
  have after : ∃ t, Conforms owner s' past.cookie (.idle t) := by
    rcases granted with ⟨t, rfl⟩ | ⟨t, u, rfl⟩
    · obtain ⟨queue, sender, mode, convert, staying⟩ := place_eq_some.1 old
      obtain ⟨-, copy⟩ := copy (.inr ⟨queue, staying⟩)
      refine ⟨t, ?_, ?_, Nat.succ.inj count, ?_, fun _ => trivial⟩
      · rw [own, copy]
        refine place_eq_some.2 ⟨rfl, ?_, ?_, rfl, staying⟩
        · rw [node]
          exact sender
        · have convert : ((s.res past.node).lock past.cookie).convertType = none := convert
          simpa [convert] using mode
      · rw [there, conforms.there]
        rfl
      · rw [calls, conforms.errands]
        rfl
    · obtain ⟨queue, sender, mode, convert, staying⟩ := place_eq_some.1 old
      obtain ⟨-, copy⟩ := copy (.inl queue)
      refine ⟨u, ?_, ?_, Nat.succ.inj count, ?_, fun _ => trivial⟩
      · rw [own, copy]
        refine place_eq_some.2 ⟨rfl, ?_, ?_, rfl, staying⟩
        · rw [node]
          exact sender
        · have convert : ((s.res past.node).lock past.cookie).convertType = some u := convert
          simp [convert]
      · rw [there, conforms.there]
        rfl
      · rw [calls, conforms.errands]
        rfl
  have present : phase.here (dlmGetLockCookieNode past.cookie) ≠ none := by
    rcases granted with ⟨t, rfl⟩ | ⟨t, u, rfl⟩ <;> simp [Phase.here]
  obtain ⟨t, after⟩ := after
  refine inv.converse away (.inr node.symm) reses nexts others
    (by rw [calls]; exact .refl _ s.calls) (fun d other => ?_) after (conforms.present present)
    (fun u held => .inl ⟨u, by rwa [← there], le_rfl⟩) (by rw [calls]; exact inv.calls) ?_
  · rw [asts, sent, pastCount_cons, if_neg other.symm, add_zero]
  · rw [asts]
    intro past' member
    exact inv.asts past' (by rw [sent]; exact Multiset.mem_cons_of_mem member)

end Asts

/-- A lock without an ast open. -/
theorem Conforms.noAst {phase : Phase} (conforms : Conforms owner s c phase)
    (none : phase.asts = 0) :
    ((s.res owner).copy c).asts = 0 ∧ ∀ past ∈ s.asts, past.cookie ≠ c := by
  have count := conforms.asts
  rw [none, Cluster.astCount, Nat.add_eq_zero_iff] at count
  refine ⟨count.1, fun past sent about => ?_⟩
  exact (Multiset.countP_eq_zero.1 count.2) past sent about

/-! ## Every run -/

/-- A bast that is sent, or told, leaves every lock where it is. -/
theorem Invariant.flushBast (inv : Invariant owner s) {hi : Mode} {past : Option ProxyBast}
    {res : DlmLockResource Lvb} (result : dlmFlushBast (s.res owner) owner = some (hi, past, res))
    (reses : s'.res = Function.update s.res owner res) (nexts : s'.next = s.next)
    (calls : s'.calls = s.calls) (asts : s'.asts = s.asts) : Invariant owner s' := by
  refine inv.same owner reses nexts calls asts fun d => ?_
  obtain ⟨-, -, copies⟩ := copy_dlmFlushBast result
  exact .of_eq (copies d)

/-- A step that touches no copy of the resource. -/
theorem Invariant.unmoved (inv : Invariant owner s) (reses : s'.res = s.res)
    (nexts : s'.next = s.next) (calls : s'.calls = s.calls) (asts : s'.asts = s.asts) :
    Invariant owner s' :=
  inv.same owner (reses.trans (Function.update_eq_self ..).symm) nexts calls asts
    fun _ => ⟨rfl, rfl⟩

/-- A step on what a lock says besides its place. -/
theorem Invariant.write (inv : Invariant owner s) (lvb : Lvb)
    (reses : s'.res = Function.update s.res n
      ((s.res n).modifyLock c fun lock => { lock with lvb := lvb }))
    (nexts : s'.next = s.next) (calls : s'.calls = s.calls) (asts : s'.asts = s.asts) :
    Invariant owner s' := by
  refine inv.same n reses nexts calls asts fun d => ?_
  rw [DlmLockResource.copy_modifyLock]
  split
  · next same =>
      subst same
      exact ⟨rfl, rfl⟩
  · exact ⟨rfl, rfl⟩

/-- Nothing is asked at the start. -/
theorem Invariant.start (owner : Node) (lvb : Lvb) : Invariant owner (.start lvb) where
  remote c _ := by
    refine ⟨.absent, rfl, rfl, ?_, rfl, ?_⟩
    · simp [Cluster.astCount, Cluster.start, Phase.asts]
    · rintro ⟨n, flags, lvb, actions, status, sent, -⟩
      simp [Cluster.start] at sent
  home c _ := .absent rfl rfl
  shared := by
    intro c d _ t held
    cases held
  calls := by simp [Cluster.start]
  asts := by simp [Cluster.start]
  fresh c _ := rfl
  foreign n c _ _ := rfl

section Runs

variable [DlmLockCompatible] [Inhabited Lvb]

/-- Every step keeps the invariant. -/
theorem Invariant.preserved (inv : Invariant owner s) {event : Event Lvb}
    (step : Step owner s event s') : Invariant owner s' := by
  cases step with
  | lockOwner client few key prepared result =>
      exact inv.lockOwner few key prepared result rfl rfl rfl rfl
  | lock remote client few key prepared result =>
      exact inv.lock remote few key prepared result rfl rfl rfl rfl
  | convertOwner client usable result => exact inv.convertOwner usable result rfl rfl rfl rfl
  | @convertIdle n _ _ _ _ _ remote result =>
      refine inv.same n rfl rfl rfl rfl fun d => ?_
      rw [dlmconvertRemote_inl result]
      exact ⟨rfl, rfl⟩
  | convert remote client usable result =>
      exact inv.convert remote client usable result rfl rfl rfl rfl
  | unlockOwner client mine result => exact inv.unlockOwner mine result rfl rfl rfl rfl
  | @unlockIdle n _ _ _ _ remote result =>
      refine inv.same n rfl rfl rfl rfl fun d => ?_
      rw [dlmunlockRemote_inl result]
      exact ⟨rfl, rfl⟩
  | unlock remote client mine staying alone converts result =>
      exact inv.unlock remote client mine staying alone converts result rfl rfl rfl rfl
  | write usable top => exact inv.write _ rfl rfl rfl rfl
  | handle sent result => exact inv.handle sent result rfl rfl rfl rfl
  | «return» answered result => exact inv.return answered result rfl rfl rfl rfl
  | @shuffle res asts result =>
      have shuffled : Invariant owner (s.setRes owner res) :=
        inv.shuffled (dlmShuffleLists_spec result) rfl rfl rfl rfl rfl
      have reses : (s.setRes owner { res with dirty := false }).res =
          Function.update (s.setRes owner res).res owner { res with dirty := false } :=
        (Function.update_idem ..).symm
      refine shuffled.same owner reses rfl rfl rfl fun d => ?_
      have here : (s.setRes owner res).res owner = res := Function.update_self ..
      rw [here]
      exact ⟨rfl, rfl⟩
  | flushLocal asts first result => exact inv.flushLocal result rfl rfl rfl rfl
  | flush asts result => exact inv.flush result rfl rfl rfl rfl
  | turnBasts | turnQueues | bast => exact inv.unmoved rfl rfl rfl rfl
  | flushLocalBast basts first result => exact inv.flushBast result rfl rfl rfl rfl
  | flushBast basts result => exact inv.flushBast result rfl rfl rfl rfl
  | ast sent result => exact inv.ast sent result rfl rfl rfl rfl

/-- Every lock is in a phase of its conversation behind every run. -/
theorem invariant_of_run {lvb : Lvb} {events : List (Event Lvb)}
    (run : Run (Step owner) (.start lvb) events s) : Invariant owner s :=
  run.invariant (Invariant owner) (.start owner lvb) fun _ _ _ inv => inv.preserved

end Runs

end Ocfs2Coverage.Dlm
