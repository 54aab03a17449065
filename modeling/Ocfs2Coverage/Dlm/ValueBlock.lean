import Ocfs2Coverage.Dlm.Exclusion

/-!
Contract: the lock value block of a resource, on its way between nodes.

Owns: what messages, asts and flags say about it, and that calls, messages and answers keep
it so.

Does not own: asts, the owner's own locks, whole runs; value blocks that are lost with a node.
-/

namespace Ocfs2Coverage.Dlm

open Ocfs2Coverage.Runs

variable {Lvb : Type} {owner n : Node} {s s' : Cluster Lvb} {c d : Cookie} {last last' : Lvb}
  {res t : DlmLockResource Lvb} {call : Call Lvb} {phase : Phase}

/-! ## What is on its way -/

/-- The value block that an event gives away. -/
def Event.gives : Event Lvb → Option Lvb
  | .call _ _ given => given
  | _ => none

/-- A message that takes a value block to the owner. -/
def Call.Puts : Call Lvb → Prop
  | .create .. => False
  | .convert _ _ _ flags _ => flags.putLvb = true
  | .unlock _ _ flags _ _ => flags.putLvb = true

/-- What a message says about value blocks, given both copies of its lock. -/
def Call.Carries (last : Lvb) (own there : DlmLock Lvb) : Call Lvb → Prop
  | .create _ _ type flags => flags.getLvb = true → type ≠ .nl ∧ own.getLvb = true
  | .convert _ _ type flags lvb =>
      (flags.getLvb = true ↔ flags.valblk = true ∧ there.type ≠ .ex ∧ .nl < type) ∧
        (flags.getLvb = true → own.getLvb = true) ∧
        (flags.putLvb = true ↔ flags.valblk = true ∧ there.type = .ex) ∧
        (flags.putLvb = true → lvb = last)
  | .unlock _ _ flags lvb _ =>
      flags.putLvb = flags.valblk ∧ (flags.putLvb = true → there.type = .ex ∧ lvb = last)

/-- The put flag stands only while an ast is open. -/
def PutSound (copy : DlmLockResource.Copy Lvb) : Prop :=
  copy.queue ≠ none → copy.lock.putLvb = true → copy.queue = some .granted ∧ 0 < copy.asts

/-- The get flag of the owner's copy stands only while the lock waits or its ast is open,
for a mode beyond NL, and at the node of the lock as well. -/
def GetSound (own copy : DlmLockResource.Copy Lvb) : Prop :=
  copy.queue ≠ none → copy.lock.getLvb = true →
    (copy.queue = some .granted → 0 < copy.asts) ∧
      copy.lock.convertType.getD copy.lock.type ≠ .nl ∧ own.lock.getLvb = true

/-- What is on its way about one lock. -/
structure LvbSound (owner : Node) (s : Cluster Lvb) (last : Lvb) (c : Cookie) : Prop where
  put : PutSound ((s.res owner).copy c)
  get : dlmGetLockCookieNode c ≠ owner → GetSound (s.own c) ((s.res owner).copy c)
  calls : ∀ call, (call, none) ∈ s.calls → call.cookie = c →
    call.Carries last (s.own c).lock ((s.res owner).copy c).lock
  asts : ∀ past ∈ s.asts, past.cookie = c → ∀ lvb ∈ past.lvb,
    lvb = last ∧ ((s.res owner).copy c).lock.type ≠ .nl ∧ (s.own c).lock.getLvb = true

/-- The owner has the value block that was given away last, unless it is on its way. -/
structure Coherent (owner : Node) (s : Cluster Lvb) (last : Lvb) : Prop where
  sound : ∀ c, LvbSound owner s last c
  value : (∀ call, (call, none) ∈ s.calls → ¬ call.Puts) → (s.res owner).lvb = last

/-! ## Other locks -/

/-- Nothing about a lock is new. -/
structure Untouched (s s' : Cluster Lvb) (d : Cookie) : Prop where
  copies : ∀ n, (s'.res n).copy d = (s.res n).copy d
  calls : ∀ call, (call, none) ∈ s'.calls → call.cookie = d → (call, none) ∈ s.calls
  asts : ∀ past ∈ s'.asts, past.cookie = d → past ∈ s.asts

/-- Nothing is on its way that a new value block would make stale. -/
def Silent (s : Cluster Lvb) (d : Cookie) : Prop :=
  (∀ call, (call, none) ∈ s.calls → call.cookie = d → ¬ call.Puts) ∧
    ∀ past ∈ s.asts, past.cookie = d → past.lvb = none

theorem Call.Carries.of_silent {own there : DlmLock Lvb} (carries : call.Carries last own there)
    (silent : ¬ call.Puts) : call.Carries last' own there := by
  cases call with
  | create => exact carries
  | convert => exact ⟨carries.1, carries.2.1, carries.2.2.1, fun puts => absurd puts silent⟩
  | unlock => exact ⟨carries.1, fun puts => absurd puts silent⟩

theorem LvbSound.untouched (sound : LvbSound owner s last d) (untouched : Untouched s s' d)
    (silent : last' = last ∨ Silent s d) : LvbSound owner s' last' d where
  put := by
    rw [untouched.copies]
    exact sound.put
  get away := by
    rw [Cluster.own, untouched.copies, untouched.copies]
    exact sound.get away
  calls call sent about := by
    have sent' := untouched.calls call sent about
    rw [Cluster.own, untouched.copies, untouched.copies]
    rcases silent with rfl | silent
    · exact sound.calls call sent' about
    · exact (sound.calls call sent' about).of_silent (silent.1 call sent' about)
  asts past sent about lvb taken := by
    have sent' := untouched.asts past sent about
    rw [Cluster.own, untouched.copies, untouched.copies]
    rcases silent with rfl | silent
    · exact sound.asts past sent' about lvb taken
    · rw [silent.2 past sent' about] at taken
      cases taken

/-- The errand of a message tells the phase of its lock. -/
theorem Conforms.awaits (conforms : Conforms owner s c phase) {answer : Option DlmStatus}
    (sent : (call, answer) ∈ s.calls) (about : call.cookie = c) {e : Errand}
    (means : errand (call, answer) = {e}) : phase.Awaits e := by
  obtain ⟨rest, calls⟩ := Multiset.exists_cons_of_mem sent
  have errands := conforms.errands
  rw [calls, errandsOf_cons, if_pos about, means] at errands
  exact (phase_of_errand errands).2

/-- A value block on its way keeps its lock granted, in EX to the owner and beyond NL from
it. -/
theorem Coherent.taken (coherent : Coherent owner s last) (inv : Invariant owner s) :
    (∀ call, (call, none) ∈ s.calls → call.Puts →
        Mode.ex ∈ ((s.res owner).copy call.cookie).held) ∧
      ∀ past ∈ s.asts, ∀ lvb ∈ past.lvb,
        ∃ t ∈ ((s.res owner).copy past.cookie).held, t ≠ .nl := by
  refine ⟨fun call sent puts => ?_, fun past sent lvb taken => ?_⟩
  · obtain ⟨rest, calls⟩ := Multiset.exists_cons_of_mem sent
    obtain ⟨sound, -, -, phase, conforms, -⟩ := inv.awaited (c := call.cookie) calls rfl
    have carries := (coherent.sound call.cookie).calls call sent rfl
    have top : ((s.res owner).copy call.cookie).lock.type = .ex := by
      cases call with
      | create => exact absurd puts id
      | convert => exact (carries.2.2.1.1 puts).2
      | unlock => exact (carries.2 puts).1
    have here : (s.res owner).queues.find call.cookie = some .granted := by
      cases call with
      | create => exact absurd puts id
      | convert node c type flags lvb =>
          obtain ⟨t, rfl⟩ := conforms.awaits sent rfl rfl
          exact conforms.queue
      | unlock node c flags lvb actions =>
          have unlock : flags.cancel = false := by
            by_contra cancel
            have none := (sound.2.2.2.1 (by simpa using cancel)).2
            have puts : flags.putLvb = true := puts
            rw [none] at puts
            cases puts
          obtain ⟨t, rfl⟩ := conforms.awaits (e := .unlock) sent rfl (by simp [errand, unlock])
          exact conforms.queue
    exact DlmLockResource.Copy.mem_held.2 ⟨.inl here, top⟩
  · obtain ⟨rest, asts⟩ := Multiset.exists_cons_of_mem sent
    obtain ⟨phase, conforms, granted⟩ := inv.ast_phase asts
    have here : (s.res owner).queues.find past.cookie = some .granted := by
      rcases granted with ⟨t, rfl⟩ | ⟨t, u, rfl⟩
      · exact conforms.queue
      · exact conforms.queue
    obtain ⟨-, some, -⟩ := (coherent.sound past.cookie).asts past sent rfl lvb taken
    exact ⟨_, DlmLockResource.Copy.mem_held.2 ⟨.inl here, rfl⟩, some⟩

/-- While the owner lets one lock hold EX, nothing about any other is stale or becomes so. -/
theorem Coherent.silent (coherent : Coherent owner s last) (inv : Invariant owner s)
    (top : Mode.ex ∈ ((s.res owner).copy c).held) (other : d ≠ c) : Silent s d := by
  have apart : ∀ t ∈ ((s.res owner).copy d).held, t = .nl := by
    intro t held
    rcases inv.shared c d other.symm _ top t held with ex | nl | ⟨ex, -⟩
    · cases ex
    · exact nl
    · cases ex
  obtain ⟨puts, gets⟩ := coherent.taken inv
  refine ⟨fun call sent about stale => ?_, fun past sent about => ?_⟩
  · subst about
    cases apart _ (puts call sent stale)
  · subst about
    cases taken : past.lvb with
    | none => rfl
    | some lvb =>
        obtain ⟨t, held, some⟩ := gets past sent lvb taken
        exact absurd (apart t held) some

/-- A step on one lock; a client that gives a value block away holds EX. -/
theorem Coherent.step (coherent : Coherent owner s last) (inv : Invariant owner s) (c : Cookie)
    (untouched : ∀ d, d ≠ c → Untouched s s' d)
    (given : last' = last ∨ Mode.ex ∈ ((s.res owner).copy c).held)
    (sound : LvbSound owner s' last' c)
    (value : (∀ call, (call, none) ∈ s'.calls → ¬ call.Puts) → (s'.res owner).lvb = last') :
    Coherent owner s' last' where
  sound d := by
    by_cases same : d = c
    · subst same
      exact sound
    · exact (coherent.sound d).untouched (untouched d same)
        (given.imp_right fun top => coherent.silent inv top same)
  value := value

theorem untouched_of (n : Node) (reses : s'.res = Function.update s.res n res)
    (others : ∀ d, d ≠ c → res.copy d = (s.res n).copy d)
    (calls : ∀ call, (call, none) ∈ s'.calls → (call, none) ∈ s.calls ∨ call.cookie = c)
    (asts : ∀ past ∈ s'.asts, past ∈ s.asts ∨ past.cookie = c) :
    ∀ d, d ≠ c → Untouched s s' d := by
  intro d other
  refine ⟨fun m => ?_, fun call sent about => ?_, fun past sent about => ?_⟩
  · rw [reses, Function.update_apply]
    split
    · next same =>
        rw [same]
        exact others d other
    · rfl
  · exact (calls call sent).resolve_right fun about' => other (about.symm.trans about')
  · exact (asts past sent).resolve_right fun about' => other (about.symm.trans about')

/-! ## Calls that leave -/

/-- About a lock that nothing was asked for only cancels are on their way. -/
theorem Conforms.onlyCancels (conforms : Conforms owner s c phase)
    {calls : Multiset (Call Lvb × Option DlmStatus)} (le : calls ≤ s.calls)
    (none : errandsOf calls c = 0) (sent : (call, Option.none) ∈ calls) (about : call.cookie = c) :
    phase.Cancellable ∧ ∃ node flags lvb actions, call = .unlock node c flags lvb actions ∧
      flags.cancel = true := by
  have silent : errand (call, Option.none) = 0 := by
    obtain ⟨rest, rfl⟩ := Multiset.exists_cons_of_mem sent
    rw [errandsOf_cons, if_pos about] at none
    exact Multiset.le_zero.1 (none ▸ Multiset.le_add_right _ _)
  cases call with
  | create => simp [errand] at silent
  | convert => simp [errand] at silent
  | unlock node c' flags lvb actions =>
      obtain rfl : c' = c := about
      have cancel : flags.cancel = true := by
        by_contra unlock
        simp [errand, unlock] at silent
      exact ⟨conforms.cancels ⟨node, flags, lvb, actions, _, Multiset.mem_of_le le sent, cancel⟩,
        node, flags, lvb, actions, rfl, cancel⟩

/-- A cancel takes no value block along. -/
theorem Invariant.cancel (inv : Invariant owner s) {node : Node} {flags : LkmFlags} {lvb : Lvb}
    {actions : UnlockActions}
    (sent : (Call.unlock node c flags lvb actions, none) ∈ s.calls) (cancel : flags.cancel = true)
    (own there : DlmLock Lvb) : (Call.unlock node c flags lvb actions).Carries last' own there := by
  obtain ⟨valblk, put⟩ := (inv.calls _ sent).2.2.2.1 cancel
  simp [Call.Carries, valblk, put]

/-- The flags of a granted lock without an ast open are clear at the owner. -/
theorem LvbSound.clear (sound : LvbSound owner s last c) (away : dlmGetLockCookieNode c ≠ owner)
    (here : (s.res owner).queues.find c = some .granted)
    (none : ((s.res owner).copy c).asts = 0) :
    ((s.res owner).copy c).lock.getLvb = false ∧ ((s.res owner).copy c).lock.putLvb = false := by
  have here : ((s.res owner).copy c).queue = some .granted := here
  have stands : ((s.res owner).copy c).queue ≠ Option.none := by
    rw [here]
    simp
  refine ⟨?_, ?_⟩
  · by_contra get
    obtain ⟨open', -⟩ := sound.get away stands (by simpa using get)
    have some := open' here
    omega
  · by_contra put
    obtain ⟨-, some⟩ := sound.put stands (by simpa using put)
    omega

section Calls

variable {flags flags' : LkmFlags} {mode type : Mode} {lvb : Lvb} {next : Nat}
  {new : DlmLockResource Lvb}

theorem Coherent.lock (coherent : Coherent owner s last) (inv : Invariant owner s)
    (remote : n ≠ owner) (client : flags.ByClient) (few : s.next n + 1 < 2 ^ 56)
    (key : dlmGetNextCookie n (s.next n) = (c, next))
    (prepared : dlmNewLock (s.res n) n c mode flags lvb = (flags', new))
    (result : dlmlockRemote new c flags' = (call, res))
    (reses : s'.res = Function.update s.res n res)
    (calls : s'.calls = (call, none) ::ₘ s.calls) (asts : s'.asts = s.asts) :
    Coherent owner s' last := by
  obtain ⟨node, count, -⟩ := dlmGetNextCookie_spec few key
  have away : dlmGetLockCookieNode c ≠ owner := by rwa [node]
  have absent := inv.absent (c := c) (by rw [node, count]) away
  obtain ⟨others, -, get, copy, high, -, got⟩ := dlmNewLock_spec prepared
  obtain ⟨rfl, rfl⟩ := Prod.mk.inj result
  have there : (s'.res owner).copy c = (s.res owner).copy c := by
    rw [reses, Function.update_of_ne remote.symm]
  have own : (s'.own c).lock.getLvb = get := by
    rw [Cluster.own, node, reses, Function.update_self, DlmLockResource.copy_moveTail, if_pos rfl,
      copy]
  have type : (new.lock c).type = mode := by
    have lock := congrArg (fun copy => copy.lock.type) copy
    exact lock
  have free : ((s'.res owner).copy c).queue = none := by
    rw [there]
    exact absent.queue
  refine coherent.step inv c (untouched_of n reses (fun d other => ?_) (fun call sent => ?_)
    fun past sent => .inl (asts ▸ sent)) (.inl rfl) ⟨?_, fun _ => ?_, fun call sent about => ?_,
    fun past sent about => ?_⟩ fun silent => ?_
  · rw [DlmLockResource.copy_moveTail, if_neg other, others d other]
  · rw [calls] at sent
    rcases Multiset.mem_cons.1 sent with same | sent
    · cases same
      exact .inr rfl
    · exact .inl sent
  · exact fun some => absurd free some
  · exact fun some => absurd free some
  · rw [calls] at sent
    rcases Multiset.mem_cons.1 sent with same | sent
    · cases same
      intro asks
      rw [got, client.1, Bool.false_or] at asks
      refine ⟨?_, own.trans asks⟩
      rw [type]
      rintro rfl
      exact absurd (high asks) (by decide)
    · exact absurd (absent.onlyCancels le_rfl absent.errands sent about).1 id
  · rw [asts] at sent
    exact absurd about ((absent.noAst rfl).2 past sent)
  · rw [reses, Function.update_of_ne remote.symm]
    refine coherent.value fun call sent => silent call ?_
    rw [calls]
    exact Multiset.mem_cons_of_mem sent

theorem le_ex (t : Mode) : t ≤ .ex := by
  cases t <;> decide

theorem nl_lt_iff {t : Mode} : Mode.nl < t ↔ t ≠ .nl :=
  ⟨fun lt same => lt.ne same.symm, fun other => lt_of_le_of_ne (nl_le t) other.symm⟩

/-- A message fetches for what is not EX and becomes more than NL, and puts for EX. -/
theorem valblkFlags_spec (client : flags.ByClient) (lock : DlmLock Lvb) (type : Mode) :
    ((valblkFlags lock type flags).getLvb = true ↔
      flags.valblk = true ∧ lock.type ≠ .ex ∧ .nl < type) ∧
    ((valblkFlags lock type flags).putLvb = true ↔ flags.valblk = true ∧ lock.type = .ex) ∧
    ((valblkFlags lock type flags).valblk = true ↔
      flags.valblk = true ∧ (lock.type = .ex ∨ .nl < type)) := by
  obtain ⟨noGet, noPut⟩ := client
  simp only [valblkFlags, nl_lt_iff]
  split_ifs with valblk top low
  · simp [noGet, valblk, top]
  · simp [noGet, noPut, top, low]
  · simp [noPut, valblk, top, low]
  · simp [noGet, noPut, valblk]

theorem Coherent.convert (coherent : Coherent owner s last) (inv : Invariant owner s)
    (remote : n ≠ owner) (client : flags.ByClient) (usable : Usable (s.res n) n c)
    (result : dlmconvertRemote (s.res n) c flags type = (.inr call, res))
    (reses : s'.res = Function.update s.res n res)
    (calls : s'.calls = (call, none) ::ₘ s.calls) (asts : s'.asts = s.asts) :
    Coherent owner s' ((published ((s.res n).lock c) flags).getD last) := by
  obtain ⟨here, sender, staying, -⟩ := usable
  obtain ⟨node, t, idle⟩ := inv.idle remote here staying
  have away : dlmGetLockCookieNode c ≠ owner := by rwa [node]
  obtain ⟨-, -, -, rfl, copies⟩ := dlmconvertRemote_inr result
  have there : (s'.res owner).copy c = (s.res owner).copy c := by
    rw [reses, Function.update_of_ne remote.symm]
  have old := idle.here
  rw [Cluster.own, node] at old
  obtain ⟨-, -, mode, -, -⟩ := place_eq_some.1 old
  obtain ⟨-, -, mode', -, -⟩ := place_eq_some.1 idle.there
  have mode : ((s.res n).lock c).type = t := mode
  have mode' : ((s.res owner).lock c).type = t := mode'
  obtain ⟨noGet, noPut⟩ := (coherent.sound c).clear away idle.queue (idle.noAst rfl).1
  have own : (s'.own c).lock.getLvb = (((s.res n).lock c).getLvb ||
      flags.valblk && decide (((s.res n).lock c).type ≠ .ex ∧ .nl < type)) := by
    rw [Cluster.own, node, reses, Function.update_self, copies, if_pos rfl, noted, noteValblk_eq]
    rfl
  refine coherent.step inv c (untouched_of n reses (fun d other => ?_) (fun call sent => ?_)
    fun past sent => .inl (asts ▸ sent)) ?_ ⟨?_, fun _ => ?_, fun call sent about => ?_,
    fun past sent about => ?_⟩ fun silent => ?_
  · rw [copies, if_neg other]
  · rw [calls] at sent
    rcases Multiset.mem_cons.1 sent with same | sent
    · cases same
      exact .inr rfl
    · exact .inl sent
  · rw [published]
    split
    · next gives =>
        refine .inr (DlmLockResource.Copy.mem_held.2 ⟨.inl idle.queue, ?_⟩)
        exact mode'.trans (mode.symm.trans gives.2)
    · exact .inl rfl
  · intro _ put
    rw [there, noPut] at put
    cases put
  · intro _ get
    rw [there, noGet] at get
    cases get
  · rw [calls] at sent
    rcases Multiset.mem_cons.1 sent with same | sent
    · cases same
      rw [there]
      have mode'' : ((s.res owner).copy c).lock.type = ((s.res n).lock c).type :=
        mode'.trans mode.symm
      obtain ⟨asks, puts, kept⟩ := valblkFlags_spec client ((s.res n).lock c) type
      refine ⟨?_, fun asked => ?_, ?_, fun put => ?_⟩
      · rw [asks, kept, mode'']
        constructor
        · rintro ⟨valblk, low, high⟩
          exact ⟨⟨valblk, .inr high⟩, low, high⟩
        · rintro ⟨⟨valblk, -⟩, low, high⟩
          exact ⟨valblk, low, high⟩
      · obtain ⟨valblk, low, some⟩ := asks.1 asked
        rw [own]
        simp [valblk, low, some]
      · rw [puts, kept, mode'']
        constructor
        · rintro ⟨valblk, top⟩
          exact ⟨⟨valblk, .inl top⟩, top⟩
        · rintro ⟨⟨valblk, -⟩, top⟩
          exact ⟨valblk, top⟩
      · rw [published, if_pos (puts.1 put)]
        rfl
    · obtain ⟨-, node', flags', lvb', actions, rfl, cancel⟩ :=
        idle.onlyCancels le_rfl idle.errands sent about
      exact inv.cancel sent cancel _ _
  · rw [asts] at sent
    exact absurd about ((idle.noAst rfl).2 past sent)
  · have plain : ¬ (flags.valblk = true ∧ ((s.res n).lock c).type = .ex) := by
      intro gives
      obtain ⟨-, puts, -⟩ := valblkFlags_spec client ((s.res n).lock c) type
      have sent : (Call.convert ((s.res n).lock c).node c type
          (valblkFlags ((s.res n).lock c) type flags) ((s.res n).lock c).lvb, none) ∈ s'.calls := by
        rw [calls]
        exact Multiset.mem_cons_self _ _
      exact silent _ sent (puts.2 gives)
    rw [published, if_neg plain, reses, Function.update_of_ne remote.symm]
    refine coherent.value fun call sent => silent call ?_
    rw [calls]
    exact Multiset.mem_cons_of_mem sent

theorem Coherent.unlock (coherent : Coherent owner s last) (inv : Invariant owner s)
    (remote : n ≠ owner) (client : flags.ByClient)
    (staying : ((s.res n).lock c).unlockPending = false)
    (result : dlmunlockRemote (s.res n) c flags = some (.inr call, res))
    (reses : s'.res = Function.update s.res n res)
    (calls : s'.calls = (call, none) ::ₘ s.calls) (asts : s'.asts = s.asts) :
    Coherent owner s'
      ((published ((s.res n).lock c) (dlmunlockFlags ((s.res n).lock c) flags)).getD last) := by
  obtain ⟨actions, rfl, -, answer⟩ := dlmunlockRemote_inr result
  have there : (s'.res owner).copy c = (s.res owner).copy c := by
    rw [reses, Function.update_of_ne remote.symm]
  have sent' : ∀ call', (call', none) ∈ s'.calls → (call', none) ∈ s.calls ∨ call' =
      .unlock ((s.res n).lock c).node c { dlmunlockFlags ((s.res n).lock c) flags with
        putLvb := (dlmunlockFlags ((s.res n).lock c) flags).putLvb ||
          (dlmunlockFlags ((s.res n).lock c) flags).valblk } ((s.res n).lock c).lvb actions := by
    intro call' sent
    rw [calls] at sent
    rcases Multiset.mem_cons.1 sent with same | sent
    · cases same
      exact .inr rfl
    · exact .inl sent
  have value : (dlmunlockFlags ((s.res n).lock c) flags).valblk = false →
      (∀ call, (call, none) ∈ s'.calls → ¬ call.Puts) → (s'.res owner).lvb = last := by
    intro plain silent
    rw [reses, Function.update_of_ne remote.symm]
    refine coherent.value fun call sent => silent call ?_
    rw [calls]
    exact Multiset.mem_cons_of_mem sent
  rcases answer with ⟨cancel, rfl, action⟩ | ⟨unlock, here, rfl, copies⟩
  · have plain : (dlmunlockFlags ((s.res n).lock c) flags).valblk = false := by
      simp [dlmunlockFlags, cancel]
    have nothing : published ((s.res n).lock c) (dlmunlockFlags ((s.res n).lock c) flags) = none := by
      rw [published, if_neg (by simp [plain])]
    rw [nothing, Option.getD_none]
    have same : s'.res = s.res := by rw [reses, Function.update_eq_self]
    have own : (s'.own c) = s.own c := by
      rw [Cluster.own, same]
      rfl
    refine coherent.step inv c (untouched_of n reses (fun _ _ => rfl) (fun call sent => ?_)
      fun past sent => .inl (asts ▸ sent)) (.inl rfl) ⟨?_, fun away => ?_, fun call sent about => ?_,
      fun past sent about lvb taken => ?_⟩ (value plain)
    · exact (sent' call sent).imp_right fun new => by rw [new]; rfl
    · rw [there]
      exact (coherent.sound c).put
    · rw [there, own]
      exact (coherent.sound c).get away
    · rcases sent' call sent with sent | rfl
      · rw [there, own]
        exact (coherent.sound c).calls call sent about
      · have quiet : (dlmunlockFlags ((s.res n).lock c) flags).putLvb = false := client.2
        simp [Call.Carries, quiet, plain]
    · rw [asts] at sent
      rw [there, own]
      exact (coherent.sound c).asts past sent about lvb taken
  · obtain ⟨node, t, idle⟩ := inv.idle remote here staying
    have away : dlmGetLockCookieNode c ≠ owner := by rwa [node]
    have old := idle.here
    rw [Cluster.own, node] at old
    obtain ⟨-, -, mode, -, -⟩ := place_eq_some.1 old
    obtain ⟨-, -, mode', -, -⟩ := place_eq_some.1 idle.there
    have mode'' : ((s.res owner).copy c).lock.type = ((s.res n).lock c).type :=
      mode'.trans mode.symm
    obtain ⟨noGet, noPut⟩ := (coherent.sound c).clear away idle.queue (idle.noAst rfl).1
    have quiet : (dlmunlockFlags ((s.res n).lock c) flags).putLvb = false := client.2
    have top : (dlmunlockFlags ((s.res n).lock c) flags).valblk = true →
        ((s.res n).lock c).type = .ex := by
      simp [dlmunlockFlags]
    refine coherent.step inv c (untouched_of n reses (fun d other => ?_) (fun call sent => ?_)
      fun past sent => .inl (asts ▸ sent)) ?_ ⟨?_, fun _ => ?_, fun call sent about => ?_,
      fun past sent about => ?_⟩ fun silent => ?_
    · rw [copies, if_neg other]
    · exact (sent' call sent).imp_right fun new => by rw [new]; rfl
    · rw [published]
      split
      · next gives =>
          exact .inr (DlmLockResource.Copy.mem_held.2
            ⟨.inl idle.queue, mode''.trans gives.2⟩)
      · exact .inl rfl
    · intro _ put
      rw [there, noPut] at put
      cases put
    · intro _ get
      rw [there, noGet] at get
      cases get
    · rcases sent' call sent with sent | rfl
      · obtain ⟨-, node', flags', lvb', actions, rfl, cancel⟩ :=
        idle.onlyCancels le_rfl idle.errands sent about
        exact inv.cancel sent cancel _ _
      · rw [there]
        refine ⟨by simp [quiet], fun puts => ?_⟩
        have gives : (dlmunlockFlags ((s.res n).lock c) flags).valblk = true := by
          simpa [quiet] using puts
        rw [published, if_pos ⟨gives, top gives⟩]
        exact ⟨mode''.trans (top gives), rfl⟩
    · rw [asts] at sent
      exact absurd about ((idle.noAst rfl).2 past sent)
    · have plain : (dlmunlockFlags ((s.res n).lock c) flags).valblk = false := by
        by_contra gives
        refine silent _ (calls ▸ Multiset.mem_cons_self _ _) ?_
        simpa [Call.Puts, quiet] using gives
      rw [published, if_neg (by simp [plain]), Option.getD_none]
      exact value plain silent

end Calls

/-! ## Messages that arrive -/

section Handled

variable {node : Node} {flags : LkmFlags} {lvb : Lvb} {type : Mode} {status : DlmStatus}
  {actions : UnlockActions} {rest : Multiset (Call Lvb × Option DlmStatus)}

theorem Coherent.handled (coherent : Coherent owner s last) (inv : Invariant owner s)
    (sent : s.calls = (call, none) ::ₘ rest) (about : call.cookie = c)
    (reses : s'.res = Function.update s.res owner res)
    (calls : s'.calls = (call, some status) ::ₘ rest) (asts : s'.asts = s.asts)
    (others : ∀ d, d ≠ c → res.copy d = (s.res owner).copy d)
    (put : PutSound (res.copy c)) (get : GetSound (s.own c) (res.copy c))
    (late : ∀ call, (call, none) ∈ rest → call.cookie = c →
      call.Carries last (s.own c).lock (res.copy c).lock)
    (past : ∀ past ∈ s.asts, past.cookie = c → ∀ lvb ∈ past.lvb,
      lvb = last ∧ (res.copy c).lock.type ≠ .nl ∧ (s.own c).lock.getLvb = true)
    (puts : call.Puts → res.lvb = last) (plain : ¬ call.Puts → res.lvb = (s.res owner).lvb) :
    Coherent owner s' last := by
  have away : dlmGetLockCookieNode c ≠ owner := by
    obtain ⟨sound, -, node, -⟩ := inv.awaited sent about
    rw [node]
    exact sound.1
  have here : (s'.res owner).copy c = res.copy c := by rw [reses, Function.update_self]
  have own : s'.own c = s.own c := own_of_owner reses away
  have sent' : ∀ call', (call', none) ∈ s'.calls → (call', none) ∈ rest := by
    intro call' member
    rw [calls] at member
    exact (Multiset.mem_cons.1 member).resolve_left (by simp)
  refine coherent.step inv c (untouched_of owner reses others (fun call' member => .inl ?_)
    fun past member => .inl (asts ▸ member)) (.inl rfl) ⟨?_, fun _ => ?_, fun call' member => ?_,
    fun past' member => ?_⟩ fun silent => ?_
  · rw [sent]
    exact Multiset.mem_cons_of_mem (sent' call' member)
  · rw [here]
    exact put
  · rw [here, own]
    exact get
  · rw [here, own]
    exact late call' (sent' call' member)
  · rw [here, own]
    exact past past' (asts ▸ member)
  · rw [reses, Function.update_self]
    by_cases put' : call.Puts
    · exact puts put'
    · rw [plain put']
      refine coherent.value fun call' member => ?_
      rw [sent] at member
      rcases Multiset.mem_cons.1 member with same | member
      · cases same
        exact put'
      · refine silent call' ?_
        rw [calls]
        exact Multiset.mem_cons_of_mem member

theorem Coherent.handleCreate [DlmLockCompatible] [Inhabited Lvb] (coherent : Coherent owner s last)
    (inv : Invariant owner s) (sent : s.calls = (.create node c type flags, none) ::ₘ rest)
    (result : dlmCreateLockHandler (s.res owner) node c type flags = some (status, res))
    (reses : s'.res = Function.update s.res owner res)
    (calls : s'.calls = (.create node c type flags, some status) ::ₘ rest)
    (asts : s'.asts = s.asts) : Coherent owner s' last := by
  obtain ⟨-, -, sender, phase, conforms, waits⟩ := inv.awaited (c := c) sent rfl
  obtain ⟨none, rfl⟩ := phase_of_errand waits
  have member : (Call.create node c type flags, Option.none) ∈ s.calls := by
    rw [sent]
    exact Multiset.mem_cons_self _ _
  have carries := (coherent.sound c).calls _ member rfl
  have free : (s.res owner).queues.find c = Option.none := conforms.queue
  obtain ⟨new, same, copy, -, others, lvb, outcome⟩ := dlmCreateLockHandler_spec result
  have lock : (new.copy c).lock = { dlmInitLock type node default with getLvb := flags.getLvb } := by
    rw [copy]
  have noPut : (new.copy c).lock.putLvb = false := by rw [lock]; rfl
  have asks : (new.copy c).lock.getLvb = true →
      (new.copy c).lock.convertType.getD (new.copy c).lock.type ≠ .nl ∧
        (s.own c).lock.getLvb = true := by
    rw [lock]
    exact carries
  have le : rest ≤ s.calls := by
    rw [sent]
    exact Multiset.le_cons_self rest _
  refine coherent.handled inv sent (c := c) rfl reses calls asts others ?_ ?_
    (fun call later about => absurd (conforms.onlyCancels le none later about).1 id)
    (fun past sent about => absurd about ((conforms.noAst rfl).2 past sent))
    (fun puts => absurd puts id) (fun _ => lvb)
  · intro _ put
    cases outcome with
    | granted fits fresh granted =>
        rw [granted, noPut] at put
        cases put
    | queued stands queued =>
        rw [queued, noPut] at put
        cases put
    | refused noqueue unchanged =>
        rw [unchanged, noPut] at put
        cases put
  · intro stands get
    cases outcome with
    | granted fits fresh granted =>
        rw [granted] at get ⊢
        exact ⟨fun _ => Nat.succ_pos _, asks get⟩
    | queued stands queued =>
        rw [queued] at get ⊢
        exact ⟨(fun here => by cases here), asks get⟩
    | refused noqueue unchanged =>
        rw [unchanged, copy] at stands
        exact absurd free stands

/-- What the flags of a message do to clear flags of the owner's copy. -/
theorem armLvb_flags (flags : LkmFlags) (lvb : Lvb) (lock : DlmLock Lvb)
    (clear : lock.getLvb = false ∧ lock.putLvb = false) :
    ((armLvb flags lvb lock).getLvb = true → flags.getLvb = true) ∧
      (armLvb flags lvb lock).putLvb = flags.putLvb ∧
      (flags.putLvb = true → (armLvb flags lvb lock).lvb = lvb) ∧
      (armLvb flags lvb lock).type = lock.type ∧
      (armLvb flags lvb lock).convertType = lock.convertType := by
  simp only [armLvb]
  split_ifs with puts gets
  · simp [puts, clear]
  · simp [puts, gets, clear]
  · simp [puts, clear]

/-- What the flags of a conversion do to those of its lock, and the value block. -/
theorem convertOutcome_lvb {new u : DlmLockResource Lvb}
    (outcome : ConvertOutcome new u c flags type status)
    (idle : (new.lock c).convertType = none ∧ new.queues.find c = some .granted)
    (gets : (new.lock c).getLvb = true → flags.getLvb = true)
    (put : (new.lock c).putLvb = flags.putLvb)
    (asks : flags.getLvb = true ↔
      flags.valblk = true ∧ (new.lock c).type ≠ .ex ∧ .nl < type)
    (puts : flags.putLvb = true ↔ flags.valblk = true ∧ (new.lock c).type = .ex) :
    u.lvb = (if flags.putLvb then (new.lock c).lvb else new.lvb) ∧
      (status = .normal →
        ((u.copy c).lock.putLvb = true → (u.copy c).queue = some .granted ∧ 0 < (u.copy c).asts) ∧
        ((u.copy c).lock.getLvb = true → ((u.copy c).queue = some .granted → 0 < (u.copy c).asts) ∧
          (u.copy c).lock.convertType.getD (u.copy c).lock.type ≠ .nl ∧ flags.getLvb = true)) := by
  have calm : ¬ ((new.lock c).convertType ≠ none ∨ new.queues.find c ≠ some .granted) := by
    rintro (busy | elsewhere)
    · exact busy idle.1
    · exact elsewhere idle.2
  have notedGet : (noted new c flags type).getLvb = true → flags.getLvb = true := by
    rw [noted, noteValblk_eq]
    intro set
    rcases Bool.or_eq_true_iff.1 set with set | set
    · exact gets set
    · obtain ⟨valblk, climbs⟩ := Bool.and_eq_true_iff.1 set
      exact asks.2 ⟨valblk, of_decide_eq_true climbs⟩
  have notedPut : (noted new c flags type).putLvb = flags.putLvb := by
    rw [noted, noteValblk_eq, Bool.eq_iff_iff]
    show ((new.lock c).putLvb || flags.valblk && decide ((new.lock c).type = .ex)) = true ↔ _
    rw [put, Bool.or_eq_true_iff, Bool.and_eq_true_iff, decide_eq_true_iff, ← puts, or_self]
  have low : (new.lock c).type < type → flags.putLvb = false := by
    intro upwards
    by_contra put
    rw [(puts.1 (by simpa using put)).2] at upwards
    exact absurd upwards (le_ex type).not_gt
  cases outcome with
  | denied busy same => exact absurd busy calm
  | granted idle' here fresh fits lvb copy =>
      rw [copy, lvb, notedPut]
      refine ⟨rfl, fun _ => ⟨fun _ => ⟨rfl, Nat.succ_pos _⟩, fun set => ?_⟩⟩
      have asked := notedGet set
      refine ⟨fun _ => Nat.succ_pos _, ?_, asked⟩
      rw [noted, noteValblk_eq]
      show (new.lock c).convertType.getD type ≠ .nl
      rw [idle.1]
      exact nl_lt_iff.1 (asks.1 asked).2.2
  | refused idle' here upwards noqueue lvb copy =>
      rw [lvb, low upwards]
      exact ⟨rfl, fun fine => by cases fine⟩
  | queued idle' here upwards lvb copy =>
      rw [copy, lvb, low upwards]
      refine ⟨rfl, fun _ => ⟨fun set => ?_, fun set => ?_⟩⟩
      · have set : (noted new c flags type).putLvb = true := set
        rw [notedPut, low upwards] at set
        cases set
      · have asked := notedGet set
        exact ⟨(fun queue => by cases queue), nl_lt_iff.1 (asks.1 asked).2.2, asked⟩

theorem Coherent.handleConvert [DlmLockCompatible] (coherent : Coherent owner s last)
    (inv : Invariant owner s)
    (sent : s.calls = (.convert node c type flags lvb, none) ::ₘ rest)
    (result : dlmConvertLockHandler (s.res owner) node c type flags lvb = some (status, res))
    (reses : s'.res = Function.update s.res owner res)
    (calls : s'.calls = (.convert node c type flags lvb, some status) ::ₘ rest)
    (asts : s'.asts = s.asts) : Coherent owner s' last := by
  obtain ⟨⟨remote, -, single⟩, -, sender, phase, conforms, waits⟩ := inv.awaited (c := c) sent rfl
  obtain ⟨none, t, rfl⟩ := phase_of_errand waits
  have sender : dlmGetLockCookieNode c = node := sender
  have away : dlmGetLockCookieNode c ≠ owner := by
    rw [sender]
    exact remote
  have member : (Call.convert node c type flags lvb, Option.none) ∈ s.calls := by
    rw [sent]
    exact Multiset.mem_cons_self _ _
  obtain ⟨asks, own, puts, value⟩ := (coherent.sound c).calls _ member rfl
  obtain ⟨here, node', -, convert, -⟩ := place_eq_some.1 conforms.there
  obtain ⟨noAst, noPast⟩ := conforms.noAst rfl
  obtain ⟨new, u, -, copy, lvb', -, -, outcome, lvb'', others, copy'⟩ :=
    dlmConvertLockHandler_spec single here (node'.trans sender) result
  obtain ⟨gets, put, block, mode, convert'⟩ := armLvb_flags flags lvb
    ((s.res owner).copy c).lock ((coherent.sound c).clear away here noAst)
  have lock : (new.lock c).core = armLvb flags lvb ((s.res owner).copy c).lock :=
    congrArg DlmLockResource.Copy.lock copy
  rw [← lock] at gets put block mode convert'
  have idle : (new.lock c).convertType = Option.none ∧ new.queues.find c = some .granted :=
    ⟨convert'.trans convert, (congrArg DlmLockResource.Copy.queue copy).trans here⟩
  rw [← mode] at asks puts
  obtain ⟨stored, armed⟩ := convertOutcome_lvb outcome idle gets put asks puts
  have le : rest ≤ s.calls := by
    rw [sent]
    exact Multiset.le_cons_self rest _
  refine coherent.handled inv sent (c := c) rfl reses calls asts others (fun _ set => ?_)
    (fun _ set => ?_) (fun call later about => ?_)
    (fun past sent about => absurd about (noPast past sent)) (fun put' => ?_) (fun plain => ?_)
  · rw [copy'] at set ⊢
    split at set
    · next fine =>
        rw [if_pos fine]
        exact (armed fine).1 set
    · cases set
  · rw [copy'] at set ⊢
    split at set
    · next fine =>
        rw [if_pos fine]
        obtain ⟨open', some, asked⟩ := (armed fine).2 set
        exact ⟨open', some, own asked⟩
    · cases set
  · obtain ⟨-, node', flags', lvb', actions, rfl, cancel⟩ := conforms.onlyCancels le none later about
    exact inv.cancel (Multiset.mem_of_le le later) cancel _ _
  · have put' : flags.putLvb = true := put'
    rw [lvb'', stored, if_pos put']
    exact (block put').trans (value put')
  · have plain : ¬ flags.putLvb = true := plain
    rw [lvb'', stored, if_neg plain, lvb']

theorem Coherent.handleUnlock (coherent : Coherent owner s last) (inv : Invariant owner s)
    (sent : s.calls = (.unlock node c flags lvb actions, none) ::ₘ rest)
    (result : dlmUnlockLockHandler (s.res owner) node c flags lvb = some (status, res))
    (reses : s'.res = Function.update s.res owner res)
    (calls : s'.calls = (.unlock node c flags lvb actions, some status) ::ₘ rest)
    (asts : s'.asts = s.asts) : Coherent owner s' last := by
  obtain ⟨⟨-, -, noGet, keeps, -⟩, -, sender, phase, conforms, waits⟩ :=
    inv.awaited (c := c) sent rfl
  have sender : dlmGetLockCookieNode c = node := sender
  have member : (Call.unlock node c flags lvb actions, none) ∈ s.calls := by
    rw [sent]
    exact Multiset.mem_cons_self _ _
  have carries := (coherent.sound c).calls _ member rfl
  have le : rest ≤ s.calls := by
    rw [sent]
    exact Multiset.le_cons_self rest _
  have stands : ∀ queue, (s.res owner).queues.find c = some queue →
      ((s.res owner).lock c).node = node :=
    fun _ here => (inv.node_of_queue here).trans sender
  cases cancel : flags.cancel with
  | false =>
      simp only [errand, cancel, Bool.false_eq_true, if_false] at waits
      obtain ⟨none, t, rfl⟩ := phase_of_errand waits
      have here : (s.res owner).queues.find c = some .granted := conforms.queue
      obtain ⟨noAst, noPast⟩ := conforms.noAst rfl
      obtain ⟨new, u, -, copy, lvb', pending, outcome, lvb'', others, copy'⟩ :=
        dlmUnlockLockHandler_spec noGet keeps (by simp [here]) (stands _ here) result
      cases outcome with
      | busy unlock waiting same =>
          rw [pending] at waiting
          exact absurd waiting (List.count_eq_zero.1 noAst)
      | denied unlock elsewhere same =>
          exact absurd ((congrArg DlmLockResource.Copy.queue copy).trans here) elsewhere
      | unlocked unlock idle' here' stored gone =>
          have nowhere : (res.copy c).queue = Option.none := by
            rw [copy', gone]
          have block : (ownerFlags ((s.res owner).lock c) flags).valblk = true →
              flags.putLvb = true ∧ (new.lock c).lvb = lvb := by
            intro valblk
            have same : ownerFlags ((s.res owner).lock c) flags = flags := by
              simp only [ownerFlags] at valblk ⊢
              split at valblk
              · cases valblk
              · next top => rw [if_neg top]
            rw [same] at valblk copy
            have puts : flags.putLvb = true := carries.1.trans valblk
            rw [if_pos puts] at copy
            have taken := congrArg (fun copy => copy.lock.lvb) copy
            exact ⟨puts, taken⟩
          refine coherent.handled inv sent (c := c) rfl reses calls asts others
            (fun some => absurd nowhere some) (fun some => absurd nowhere some)
            (fun call later about => ?_) (fun past sent about => absurd about (noPast past sent))
            (fun put => ?_) (fun plain => ?_)
          · obtain ⟨may, -⟩ := conforms.onlyCancels le none later about
            exact absurd may id
          · have put : flags.putLvb = true := put
            have top : ((s.res owner).lock c).type = .ex := (carries.2 put).1
            have valblk : (ownerFlags ((s.res owner).lock c) flags).valblk = true := by
              rw [ownerFlags, if_neg (not_not.2 top)]
              exact carries.1.symm.trans put
            rw [lvb'', stored, if_pos valblk]
            exact (block valblk).2.trans (carries.2 put).2
          · have plain : ¬ flags.putLvb = true := plain
            rw [lvb'', stored, if_neg fun valblk => plain (block valblk).1, lvb']
      | tooLate cancel' | unknown cancel' | withdrawn cancel' | reverted cancel' =>
          rw [ownerFlags_cancel, cancel] at cancel'
          cases cancel'
  | true =>
      simp only [errand, cancel, if_true, zero_add] at waits
      have may : phase.Cancellable := conforms.cancels ⟨node, flags, lvb, actions, _, member, cancel⟩
      have queue := conforms.cancellable may
      have known : (s.res owner).queues.find c ≠ none ∧ ((s.res owner).lock c).node = node := by
        rcases queue with here | ⟨_, _, _, here⟩
        · exact ⟨by simp [here], stands _ here⟩
        · exact ⟨by simp [here], stands _ here⟩
      obtain ⟨new, u, -, copy, lvb', -, outcome, lvb'', others, copy'⟩ :=
        dlmUnlockLockHandler_spec noGet keeps known.1 known.2 result
      have queue' : new.queues.find c = (s.res owner).queues.find c :=
        congrArg DlmLockResource.Copy.queue copy
      have off : flags.putLvb = false := ((inv.calls _ member).2.2.2.1 cancel).2
      have plain : ¬ (Call.unlock node c flags lvb actions).Puts := by simp [Call.Puts, off]
      have quiet : (ownerFlags ((s.res owner).lock c) flags).putLvb = false := by
        simp only [ownerFlags]
        split
        · rfl
        · exact off
      rw [quiet] at copy copy'
      simp only [Bool.false_eq_true, if_false] at copy copy'
      cases outcome with
      | busy unlock | denied unlock | unlocked unlock =>
          rw [ownerFlags_cancel, cancel] at unlock
          cases unlock
      | unknown cancel' nowhere same => exact absurd (queue'.symm.trans nowhere) known.1
      | withdrawn cancel' here stored gone =>
          rw [queue'] at here
          rcases queue with here' | ⟨_, _, _, here'⟩
          · rw [here] at here'
            cases here'
          · rw [here] at here'
            cases here'
      | tooLate cancel' here same =>
          have unchanged : res.copy c = (s.res owner).copy c := by rw [copy', same, copy]
          refine coherent.handled inv sent (c := c) rfl reses calls asts others ?_ ?_
            (fun call later about => ?_) (fun past sent about => ?_) (fun put => absurd put plain)
            (fun _ => by rw [lvb'', same, lvb'])
          · rw [unchanged]
            exact (coherent.sound c).put
          · rw [unchanged]
            exact (coherent.sound c).get (by rw [sender]; exact (inv.calls _ member).1)
          · rw [unchanged]
            exact (coherent.sound c).calls call (Multiset.mem_of_le le later) about
          · rw [unchanged]
            exact (coherent.sound c).asts past sent about
      | reverted cancel' here stored back =>
          rw [queue'] at here
          rcases queue with here' | ⟨t, w, rfl, -⟩
          · rw [here] at here'
            cases here'
          rw [back] at copy'
          refine coherent.handled inv sent (c := c) rfl reses calls asts others
            (fun _ set => ?_) (fun _ set => ?_) (fun call later about => ?_)
            (fun past sent about => absurd about ((conforms.noAst rfl).2 past sent))
            (fun put => absurd put plain) (fun _ => by rw [lvb'', stored, lvb'])
          · rw [copy'] at set
            cases set
          · rw [copy'] at set
            cases set
          · obtain ⟨-, node', flags', lvb3, actions', rfl, cancel3⟩ :=
              conforms.onlyCancels le waits later about
            exact inv.cancel (Multiset.mem_of_le le later) cancel3 _ _

/-! ## Answers -/

/-- An answer that ends a conversation or a part of it. -/
theorem errand_answered (call : Call Lvb) (status : DlmStatus) :
    errand (call, some status) = 0 ∨
      ∃ e ∈ [Errand.noCreate, .noConvert, .cancelled, .unlocked, .broken],
        errand (call, some status) = {e} := by
  cases call with
  | create => cases status <;> simp [errand]
  | convert => cases status <;> simp [errand]
  | unlock node c flags lvb actions =>
      cases cancel : flags.cancel <;> cases status <;> simp [errand, cancel]

/-- Then the owner's copy is gone or granted, and no ast is open. -/
theorem Phase.calm {e : Errand}
    (ends : e ∈ [Errand.noCreate, .noConvert, .cancelled, .unlocked, .broken])
    (awaits : phase.Awaits e) : phase.asts = 0 ∧ ∀ n, phase.there n = none ∨
      (phase.there n).map Place.queue = some .granted := by
  simp only [List.mem_cons, List.not_mem_nil, or_false] at ends
  rcases ends with rfl | rfl | rfl | rfl | rfl
  · obtain ⟨t, rfl⟩ := awaits
    exact ⟨rfl, fun _ => .inl rfl⟩
  · obtain ⟨t, u, rfl⟩ := awaits
    exact ⟨rfl, fun _ => .inr rfl⟩
  · obtain ⟨t, u, rfl⟩ := awaits
    exact ⟨rfl, fun _ => .inr rfl⟩
  · obtain ⟨t, rfl⟩ := awaits
    exact ⟨rfl, fun _ => .inl rfl⟩
  · exact absurd awaits id

/-- An answer that means nothing leaves the get flag alone. -/
theorem returnCall_silent {t : DlmLockResource Lvb} (silent : errand (call, some status) = 0)
    (result : returnCall res status call = some t) :
    (t.copy call.cookie).lock.getLvb = (res.copy call.cookie).lock.getLvb := by
  cases call with
  | create node c type flags =>
      have fine : status = .normal := by cases status <;> simp [errand] at silent ⊢
      simp only [returnCall, dlmlockRemoteStatus, fine, ne_eq, not_true, if_false,
        Option.some.injEq] at result
      rw [result]
  | convert node c type flags lvb =>
      have fine : status = .normal := by cases status <;> simp [errand] at silent ⊢
      simp only [returnCall, Option.some.injEq] at result
      rw [← result, fine, Call.cookie, copy_dlmconvertRemoteStatus, if_pos rfl, if_pos rfl]
  | unlock node c flags lvb actions =>
      have late : status = .cancelGrant ∧ flags.cancel = true := by
        cases cancel : flags.cancel <;> cases status <;> simp [errand, cancel] at silent ⊢
      simp only [returnCall, Option.map_eq_some_iff] at result
      obtain ⟨⟨status', u⟩, result, rfl⟩ := result
      obtain ⟨-, same, -⟩ := dlmunlockRemoteStatus_spec result
      rw [same late.1 late.2]

theorem returnCall_others {t : DlmLockResource Lvb}
    (result : returnCall res status call = some t) (other : d ≠ call.cookie) :
    t.copy d = res.copy d := by
  cases call with
  | create node c type flags =>
      simp only [returnCall, Option.some.injEq] at result
      rw [← result]
      by_cases fine : status = .normal
      · rw [dlmlockRemoteStatus, if_neg (not_not.2 fine)]
      · exact (copy_dlmlockRemoteStatus _ _ fine d).trans (if_neg other)
  | convert node c type flags lvb =>
      simp only [returnCall, Option.some.injEq] at result
      rw [← result]
      exact (copy_dlmconvertRemoteStatus _ _ _ d).trans (if_neg other)
  | unlock node c flags lvb actions =>
      simp only [returnCall, Option.map_eq_some_iff] at result
      obtain ⟨⟨status', u⟩, result, rfl⟩ := result
      exact (dlmunlockRemoteStatus_spec result).1 d other

theorem Coherent.return (coherent : Coherent owner s last) (inv : Invariant owner s)
    (answered : s.calls = (call, some status) ::ₘ rest)
    (result : returnCall (s.res call.node) status call = some res)
    (reses : s'.res = Function.update s.res call.node res)
    (calls : s'.calls = rest) (asts : s'.asts = s.asts) : Coherent owner s' last := by
  obtain ⟨sound, -, node, phase, conforms, waits⟩ := inv.awaited (c := call.cookie) answered rfl
  have node : dlmGetLockCookieNode call.cookie = call.node := node
  have remote : call.node ≠ owner := sound.1
  have away : dlmGetLockCookieNode call.cookie ≠ owner := by rwa [node]
  have le : rest ≤ s.calls := by
    rw [answered]
    exact Multiset.le_cons_self rest _
  have there : (s'.res owner).copy call.cookie = (s.res owner).copy call.cookie := by
    rw [reses, Function.update_of_ne remote.symm]
  have own : s'.own call.cookie = res.copy call.cookie := by
    rw [Cluster.own, node, reses, Function.update_self]
  have sent : ∀ call, (call, none) ∈ s'.calls → (call, none) ∈ s.calls := fun call member =>
    Multiset.mem_of_le le (calls ▸ member)
  have value : (∀ call, (call, none) ∈ s'.calls → ¬ call.Puts) → (s'.res owner).lvb = last := by
    intro silent
    rw [reses, Function.update_of_ne remote.symm]
    refine coherent.value fun call' member => ?_
    rw [answered] at member
    rcases Multiset.mem_cons.1 member with same | member
    · simp at same
    · exact silent call' (calls ▸ member)
  have untouched := untouched_of (c := call.cookie) call.node reses
    (fun d other => returnCall_others result other) (fun call member => .inl (sent call member))
    fun past member => .inl (asts ▸ member)
  rcases errand_answered call status with silent | ⟨e, ends, means⟩
  · have same : (s'.own call.cookie).lock.getLvb = (s.own call.cookie).lock.getLvb := by
      rw [own, returnCall_silent silent result, Cluster.own, node]
    refine coherent.step inv call.cookie untouched (.inl rfl) ⟨?_, fun away => ?_,
      fun call' member about => ?_, fun past member about lvb taken => ?_⟩ value
    · rw [there]
      exact (coherent.sound _).put
    · rw [there]
      intro stands set
      obtain ⟨open', some, asked⟩ := (coherent.sound _).get away stands set
      exact ⟨open', some, same.trans asked⟩
    · rw [there]
      have carries := (coherent.sound _).calls call' (sent call' member) about
      cases call' with
      | create => exact fun asks => ⟨(carries asks).1, same.trans (carries asks).2⟩
      | convert => exact ⟨carries.1, fun asks => same.trans (carries.2.1 asks), carries.2.2⟩
      | unlock => exact carries
    · rw [there]
      obtain ⟨value, some, asked⟩ := (coherent.sound _).asts past (asts ▸ member) about lvb taken
      exact ⟨value, some, same.trans asked⟩
  · rw [means] at waits
    obtain ⟨none, awaits⟩ := phase_of_errand waits
    obtain ⟨noAst, calm⟩ := Phase.calm ends awaits
    obtain ⟨noAst, noPast⟩ := conforms.noAst noAst
    have clear : ((s.res owner).copy call.cookie).queue ≠ Option.none →
        ((s.res owner).copy call.cookie).lock.getLvb = false := by
      intro stands
      rcases calm (dlmGetLockCookieNode call.cookie) with nowhere | here
      · exact absurd (place_eq_none.1 (conforms.there.trans nowhere)) stands
      · exact ((coherent.sound _).clear away (conforms.queue.trans here) noAst).1
    refine coherent.step inv call.cookie untouched (.inl rfl) ⟨?_, fun away => ?_,
      fun call' member about => ?_, fun past member about => ?_⟩ value
    · rw [there]
      exact (coherent.sound _).put
    · rw [there]
      intro stands set
      rw [clear stands] at set
      cases set
    · rw [calls] at member
      obtain ⟨-, node', flags', lvb', actions', rfl, cancel⟩ :=
        conforms.onlyCancels le none member about
      exact inv.cancel (Multiset.mem_of_le le member) cancel _ _
    · exact absurd about (noPast past (asts ▸ member))

end Handled

end Ocfs2Coverage.Dlm
