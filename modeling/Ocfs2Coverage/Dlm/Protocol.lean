import Ocfs2Coverage.Dlm.Phases

/-!
Contract: every step of a cluster keeps every lock in a phase of its conversation.

Owns: one lemma for each step, and what holds behind every run.

Does not own: what clients may rely on, the value block.
-/

namespace Ocfs2Coverage.Dlm

open Ocfs2Coverage.Sharing
open Ocfs2Coverage.Runs

variable {Lvb : Type} {owner : Node} {s s' : Cluster Lvb} {c d : Cookie}

/-! ## Steps on one lock -/

/-- Two copies of a lock that stand at the same place with as many asts. -/
structure Alike (copy copy' : DlmLockResource.Copy Lvb) : Prop where
  place : copy.place = copy'.place
  asts : copy.asts = copy'.asts

theorem Alike.of_eq {copy copy' : DlmLockResource.Copy Lvb} (same : copy = copy') :
    Alike copy copy' := same ▸ ⟨rfl, rfl⟩

theorem Alike.held {copy copy' : DlmLockResource.Copy Lvb} (alike : Alike copy copy') :
    copy.held = copy'.held := by
  rw [held_eq, held_eq, alike.place]

theorem Alike.home {copy copy' : DlmLockResource.Copy Lvb} (alike : Alike copy copy')
    (home : Home owner copy') : Home owner copy := by
  obtain ⟨place, asts⟩ := alike
  rcases home with ⟨place', asts'⟩ | ⟨t, place', asts'⟩ | ⟨t, u, place', asts'⟩ | ⟨t, place', asts'⟩
  · exact .absent (place.trans place') (asts.trans asts')
  · exact .granted t (place.trans place') (asts.trans_le asts')
  · exact .converting t u (place.trans place') (asts.trans asts')
  · exact .blocked t (place.trans place') (asts.trans asts')

/-- Nothing about a lock differs. -/
structure Agree (owner : Node) (s s' : Cluster Lvb) (d : Cookie) : Prop where
  copies : ∀ n, Alike ((s'.res n).copy d) ((s.res n).copy d)
  past : (s'.asts.countP fun past => past.cookie = d) = s.asts.countP fun past => past.cookie = d
  errands : errandsOf s'.calls d = errandsOf s.calls d
  cancels : CancelOpen s'.calls d → CancelOpen s.calls d

theorem Agree.own (agree : Agree owner s s' d) : (s'.own d).place = (s.own d).place :=
  (agree.copies _).place

theorem Agree.there (agree : Agree owner s s' d) :
    Alike ((s'.res owner).copy d) ((s.res owner).copy d) := agree.copies owner

theorem Agree.conforms {phase : Phase} (agree : Agree owner s s' d)
    (conforms : Conforms owner s d phase) : Conforms owner s' d phase where
  here := agree.own.trans conforms.here
  there := agree.there.place.trans conforms.there
  asts := by
    rw [Cluster.astCount, agree.there.asts, agree.past, ← conforms.asts, Cluster.astCount]
  errands := agree.errands.trans conforms.errands
  cancels sent := conforms.cancels (agree.cancels sent)

/-- A step on one lock keeps the invariant if it keeps a phase for that lock, and what the
owner lets it hold goes together with all other locks. -/
theorem Invariant.step (inv : Invariant owner s) (c : Cookie)
    (agree : ∀ d, d ≠ c → Agree owner s s' d)
    (remote : dlmGetLockCookieNode c ≠ owner → ∃ phase, Conforms owner s' c phase)
    (home : dlmGetLockCookieNode c = owner → Home owner ((s'.res owner).copy c))
    (fits : ∀ t ∈ ((s'.res owner).copy c).held, (∃ u ∈ ((s.res owner).copy c).held, t ≤ u) ∨
      ∀ d, d ≠ c → ∀ u ∈ ((s.res owner).copy d).held, u.Compatible t)
    (calls : ∀ k ∈ s'.calls, k.1.Sound owner)
    (asts : ∀ past ∈ s'.asts, past.node ≠ owner ∧ dlmGetLockCookieNode past.cookie = past.node)
    (fresh : ∀ c, s'.next (dlmGetLockCookieNode c) ≤ c.val % 2 ^ 56 → (s'.own c).place = none)
    (foreign : ∀ n, n ≠ owner → dlmGetLockCookieNode c ≠ n →
      ((s'.res n).copy c).place = ((s.res n).copy c).place) :
    Invariant owner s' where
  remote d other := by
    by_cases same : d = c
    · subst same
      exact remote other
    · obtain ⟨phase, conforms⟩ := inv.remote d other
      exact ⟨phase, (agree d same).conforms conforms⟩
  home d mine := by
    by_cases same : d = c
    · subst same
      exact home mine
    · exact (agree d same).there.home (inv.home d mine)
  shared := by
    have others : ∀ d, d ≠ c → ∀ t ∈ ((s'.res owner).copy d).held,
        ∃ u ∈ ((s.res owner).copy d).held, t ≤ u := by
      intro d other t held
      rw [(agree d other).there.held] at held
      exact ⟨t, held, le_rfl⟩
    refine inv.shared.change sharingRule c others fun t held d other u held' => ?_
    rw [(agree d other).there.held] at held'
    rcases fits t held with ⟨u', before, le⟩ | free
    · exact sharingRule.weaken le (inv.shared c d other.symm u' before u held')
    · exact sharingRule.symm (free d other u held')
  calls := calls
  asts := asts
  fresh := fresh
  foreign n d away other := by
    rw [← inv.foreign n d away other]
    by_cases same : d = c
    · subst same
      exact foreign n away other
    · exact ((agree d same).copies n).place

/-! ## What a step leaves alone -/

/-- Messages about other locks are the same. -/
def Elsewhere (c : Cookie) (calls calls' : Multiset (Call Lvb × Option DlmStatus)) : Prop :=
  ∀ d, d ≠ c → errandsOf calls' d = errandsOf calls d ∧ (CancelOpen calls' d → CancelOpen calls d)

section Elsewhere

variable {calls rest : Multiset (Call Lvb × Option DlmStatus)}
  {k k' : Call Lvb × Option DlmStatus}

theorem Elsewhere.refl (c : Cookie) (calls : Multiset (Call Lvb × Option DlmStatus)) :
    Elsewhere c calls calls := fun _ _ => ⟨rfl, id⟩

theorem errandsOf_cons_of_ne (other : k.1.cookie ≠ d) :
    errandsOf (k ::ₘ rest) d = errandsOf rest d := by
  rw [errandsOf_cons, if_neg other, zero_add]

theorem cancelOpen_cons : CancelOpen (k ::ₘ rest) d ↔
    (∃ n flags lvb actions status, k = (Call.unlock n d flags lvb actions, status) ∧
      flags.cancel = true) ∨ CancelOpen rest d := by
  constructor
  · rintro ⟨n, flags, lvb, actions, status, sent, cancel⟩
    rcases Multiset.mem_cons.1 sent with same | sent
    · exact .inl ⟨n, flags, lvb, actions, status, same.symm, cancel⟩
    · exact .inr ⟨n, flags, lvb, actions, status, sent, cancel⟩
  · rintro (⟨n, flags, lvb, actions, status, rfl, cancel⟩ |
      ⟨n, flags, lvb, actions, status, sent, cancel⟩)
    · exact ⟨n, flags, lvb, actions, status, Multiset.mem_cons_self _ _, cancel⟩
    · exact ⟨n, flags, lvb, actions, status, Multiset.mem_cons_of_mem sent, cancel⟩

theorem cancelOpen_cons_of_ne (other : k.1.cookie ≠ d) :
    CancelOpen (k ::ₘ rest) d ↔ CancelOpen rest d := by
  rw [cancelOpen_cons, or_iff_right]
  rintro ⟨n, flags, lvb, actions, status, rfl, -⟩
  exact other rfl

theorem Elsewhere.sent (k : Call Lvb × Option DlmStatus)
    (calls : Multiset (Call Lvb × Option DlmStatus)) :
    Elsewhere k.1.cookie calls (k ::ₘ calls) := fun _ other =>
  ⟨errandsOf_cons_of_ne other.symm, (cancelOpen_cons_of_ne other.symm).1⟩

theorem Elsewhere.removed (k : Call Lvb × Option DlmStatus)
    (rest : Multiset (Call Lvb × Option DlmStatus)) :
    Elsewhere k.1.cookie (k ::ₘ rest) rest := fun _ other =>
  ⟨(errandsOf_cons_of_ne other.symm).symm, (cancelOpen_cons_of_ne other.symm).2⟩

theorem Elsewhere.answered (call : Call Lvb) (status : DlmStatus)
    (rest : Multiset (Call Lvb × Option DlmStatus)) :
    Elsewhere call.cookie ((call, none) ::ₘ rest) ((call, some status) ::ₘ rest) := by
  intro d other
  obtain ⟨errands, cancels⟩ := Elsewhere.removed (call, none) rest d other
  obtain ⟨errands', cancels'⟩ := Elsewhere.sent (call, some status) rest d other
  exact ⟨errands'.trans errands, fun sent => cancels (cancels' sent)⟩

end Elsewhere

theorem agree_at (n : Node) {res : DlmLockResource Lvb}
    (set : s'.res = Function.update s.res n res) (copy : Alike (res.copy d) ((s.res n).copy d))
    (calls : errandsOf s'.calls d = errandsOf s.calls d ∧
      (CancelOpen s'.calls d → CancelOpen s.calls d))
    (asts : (s'.asts.countP fun past => past.cookie = d) =
      s.asts.countP fun past => past.cookie = d) : Agree owner s s' d := by
  have alike : ∀ m, Alike ((s'.res m).copy d) ((s.res m).copy d) := by
    intro m
    rw [set, Function.update_apply]
    split
    · next same =>
        rw [same]
        exact copy
    · exact ⟨rfl, rfl⟩
  exact ⟨alike, asts, calls.1, calls.2⟩

theorem place_elsewhere {n m : Node} {res : DlmLockResource Lvb}
    (set : s'.res = Function.update s.res n res) (other : m ≠ n) :
    ((s'.res m).copy c).place = ((s.res m).copy c).place := by
  rw [set, Function.update_of_ne other]

theorem agree_of (n : Node) {res : DlmLockResource Lvb}
    (set : s'.res = Function.update s.res n res)
    (copies : ∀ d, d ≠ c → Alike (res.copy d) ((s.res n).copy d))
    (calls : Elsewhere c s.calls s'.calls)
    (asts : ∀ d, d ≠ c → (s'.asts.countP fun past => past.cookie = d) =
      s.asts.countP fun past => past.cookie = d) :
    ∀ d, d ≠ c → Agree owner s s' d := fun d other =>
  agree_at n set (copies d other) (calls d other) (asts d other)

/-! ## Cookies -/

theorem dlmGetNextCookie_spec {n : Node} {next next' : Nat} (few : next + 1 < 2 ^ 56)
    (key : dlmGetNextCookie n next = (c, next')) :
    dlmGetLockCookieNode c = n ∧ c.val % 2 ^ 56 = next ∧ next' = next + 1 := by
  have sum : next ||| n.val <<< 56 = n.val * 2 ^ 56 + next := by
    rw [Nat.or_comm, ← Nat.shiftLeft_add_eq_or_of_lt (by omega), Nat.shiftLeft_eq]
  have small : n.val * 2 ^ 56 + next < 2 ^ 64 := by omega
  have top : (next + 1) &&& 0xff00000000000000 = 0 := by
    have mask : 0xff00000000000000 = 255 <<< 56 := by decide
    refine Nat.eq_of_testBit_eq fun i => ?_
    rw [mask, Nat.testBit_and, Nat.zero_testBit, Nat.testBit_shiftLeft]
    by_cases high : 56 ≤ i
    · rw [Nat.testBit_lt_two_pow (lt_of_lt_of_le few (Nat.pow_le_pow_right (by decide) high))]
      rfl
    · simp [high]
  simp only [dlmGetNextCookie, sum, top, ne_eq, not_true, if_false, Prod.mk.injEq] at key
  obtain ⟨rfl, rfl⟩ := key
  have value : (Fin.ofNat (2 ^ 64) (n.val * 2 ^ 56 + next)).val = n.val * 2 ^ 56 + next :=
    Nat.mod_eq_of_lt small
  refine ⟨Fin.ext ?_, ?_, rfl⟩
  · simp only [dlmGetLockCookieNode, value]
    omega
  · rw [value]
    omega

/-- A cookie that was not given yet. -/
theorem Invariant.absent (inv : Invariant owner s)
    (new : s.next (dlmGetLockCookieNode c) ≤ c.val % 2 ^ 56)
    (remote : dlmGetLockCookieNode c ≠ owner) : Conforms owner s c .absent := by
  obtain ⟨phase, conforms⟩ := inv.remote c remote
  have none := conforms.here
  rw [inv.fresh c new] at none
  cases phase with
  | absent => exact conforms
  | requested | queued | given | refused | idle | asked | waiting | converted | turnedDown
  | cancelled | leaving | left => cases none

/-! ## New locks -/

section NewLocks

variable {n : Node} {mode : Mode} {flags flags' : LkmFlags} {lvb : Lvb} {next : Nat}
  {new res : DlmLockResource Lvb} {status : DlmStatus} {call : Call Lvb}

theorem Invariant.fresh_next (inv : Invariant owner s) (few : s.next n + 1 < 2 ^ 56)
    (key : dlmGetNextCookie n (s.next n) = (c, next))
    (nexts : s'.next = Function.update s.next n next)
    (others : ∀ d, d ≠ c → (s'.own d).place = (s.own d).place) (d : Cookie)
    (new : s'.next (dlmGetLockCookieNode d) ≤ d.val % 2 ^ 56) : (s'.own d).place = none := by
  obtain ⟨node, count, rfl⟩ := dlmGetNextCookie_spec few key
  rw [nexts, Function.update_apply] at new
  have other : d ≠ c := by
    rintro rfl
    rw [if_pos node] at new
    omega
  rw [others d other]
  refine inv.fresh d ?_
  split at new
  · next same =>
      rw [same]
      omega
  · exact new

theorem Invariant.lock (inv : Invariant owner s) (remote : n ≠ owner)
    (few : s.next n + 1 < 2 ^ 56) (key : dlmGetNextCookie n (s.next n) = (c, next))
    (prepared : dlmNewLock (s.res n) n c mode flags lvb = (flags', new))
    (result : dlmlockRemote new c flags' = (call, res))
    (reses : s'.res = Function.update s.res n res) (nexts : s'.next = Function.update s.next n next)
    (calls : s'.calls = (call, none) ::ₘ s.calls) (asts : s'.asts = s.asts) :
    Invariant owner s' := by
  obtain ⟨node, count, -⟩ := dlmGetNextCookie_spec few key
  have away : dlmGetLockCookieNode c ≠ owner := by rwa [node]
  have absent := inv.absent (c := c) (by rw [node, count]) away
  obtain ⟨others, -, get, copy, -⟩ := dlmNewLock_spec prepared
  have lock : (new.lock c).core = { dlmInitLock mode n lvb with getLvb := get } :=
    congrArg DlmLockResource.Copy.lock copy
  have sender : (new.lock c).node = n := congrArg DlmLock.node lock
  have type : (new.lock c).type = mode := congrArg DlmLock.type lock
  obtain ⟨rfl, rfl⟩ := Prod.mk.inj result
  rw [sender, type] at calls
  have agree : ∀ d, d ≠ c → Agree owner s s' d := agree_of n reses
    (fun d other => .of_eq
      (by rw [DlmLockResource.copy_moveTail, if_neg other, others d other]))
    (by rw [calls]; exact Elsewhere.sent (.create n c mode flags', none) s.calls)
    (fun _ _ => by rw [asts])
  have there : (s'.res owner).copy c = (s.res owner).copy c := by
    rw [reses, Function.update_of_ne remote.symm]
  refine inv.step c agree (fun _ => ⟨.requested mode, ?_, ?_, ?_, ?_, fun sent => ?_⟩)
    (fun mine => absurd mine away) (fun t held => .inl ?_) ?_ ?_
    (inv.fresh_next few key nexts fun d other => (agree d other).own)
    fun m _ other => place_elsewhere reses (by rw [← node]; exact other.symm)
  · rw [Cluster.own, node, reses, Function.update_self, DlmLockResource.copy_moveTail, if_pos rfl,
      copy]
    rfl
  · rw [there, absent.there]
    rfl
  · rw [Cluster.astCount, there, asts]
    exact absent.asts
  · rw [calls, errandsOf_cons, absent.errands]
    simp [Call.cookie, errand, Phase.errands]
  · rw [calls, cancelOpen_cons] at sent
    rcases sent with ⟨_, _, _, _, _, same, _⟩ | sent
    · cases same
    · exact absurd (absent.cancels sent) id
  · rw [there] at held
    exact ⟨t, held, le_rfl⟩
  · rw [calls]
    intro k member
    rcases Multiset.mem_cons.1 member with rfl | member
    · exact ⟨remote, node, trivial⟩
    · exact inv.calls k member
  · rw [asts]
    exact inv.asts

/-- A home lock that is nowhere has no ast open. -/
theorem Home.of_absent {copy : DlmLockResource.Copy Lvb} (home : Home owner copy)
    (none : copy.place = none) : copy.queue = Option.none ∧ copy.asts = 0 := by
  rcases home with ⟨_, asts⟩ | ⟨t, place, _⟩ | ⟨t, u, place, _⟩ | ⟨t, place, _⟩
  · exact ⟨place_eq_none.1 none, asts⟩
  all_goals
    rw [place] at none
    cases none

/-- Nor has one that waits, and no home lock is on its way out. -/
theorem Home.of_queue {copy : DlmLockResource.Copy Lvb} (home : Home owner copy) {queue : Queue}
    (here : copy.queue = some queue) : copy.lock.unlockPending = false ∧ copy.lock.node = owner ∧
      (queue ≠ .granted → copy.asts = 0) ∧ copy.asts ≤ 1 ∧
      (queue = .converting ↔ copy.lock.convertType ≠ none) := by
  rcases home with ⟨place, asts⟩ | ⟨t, place, asts⟩ | ⟨t, u, place, asts⟩ | ⟨t, place, asts⟩
  · rw [place_eq_none, here] at place
    cases place
  all_goals
    obtain ⟨queue', node, -, convert, staying⟩ := place_eq_some.1 place
    rw [here] at queue'
    cases queue'
    simp [node, staying, convert, asts]

theorem Invariant.lockOwner (inv : Invariant owner s)
    (few : s.next owner + 1 < 2 ^ 56) (key : dlmGetNextCookie owner (s.next owner) = (c, next))
    (prepared : dlmNewLock (s.res owner) owner c mode flags lvb = (flags', new))
    [DlmLockCompatible] (result : dlmlockMaster new c flags' = some (status, res))
    (reses : s'.res = Function.update s.res owner res)
    (nexts : s'.next = Function.update s.next owner next)
    (calls : s'.calls = s.calls) (asts : s'.asts = s.asts) : Invariant owner s' := by
  obtain ⟨node, count, -⟩ := dlmGetNextCookie_spec few key
  obtain ⟨free, idle⟩ := (inv.home c node).of_absent
    (by simpa [Cluster.own, node] using inv.fresh c (by rw [node, count]))
  obtain ⟨others, -, get, copy, -⟩ := dlmNewLock_spec prepared
  obtain ⟨others', -, outcome⟩ := dlmlockMaster_spec result
  have agree : ∀ d, d ≠ c → Agree owner s s' d := agree_of owner reses
    (fun d other => .of_eq (by rw [others' d other, others d other]))
    (by rw [calls]; exact .refl c s.calls) (fun _ _ => by rw [asts])
  have here : (s'.res owner).copy c = res.copy c := by rw [reses, Function.update_self]
  have lock : (new.lock c).core = { dlmInitLock mode owner lvb with getLvb := get } :=
    congrArg DlmLockResource.Copy.lock copy
  have type : (new.lock c).type = mode := congrArg DlmLock.type lock
  have asts' : (new.copy c).asts = 0 := by rw [copy]; exact idle
  have queue : (new.copy c).queue = none := by rw [copy]; exact free
  refine inv.step c agree (fun away => absurd node away) (fun _ => ?_) (fun t held => .inr ?_)
    (by rw [calls]; exact inv.calls) (by rw [asts]; exact inv.asts)
    (inv.fresh_next few key nexts fun d other => (agree d other).own)
    fun m other _ => place_elsewhere reses other
  · rw [here]
    cases outcome with
    | granted fits fresh granted =>
        rw [granted]
        exact .granted mode (by simp [DlmLockResource.Copy.place, lock, dlmInitLock])
          (by show (new.copy c).asts + 1 ≤ 1; rw [asts'])
    | queued stands queued =>
        rw [queued]
        exact .blocked mode (by simp [DlmLockResource.Copy.place, lock, dlmInitLock]) asts'
    | refused noqueue same =>
        rw [same]
        exact .absent (place_eq_none.2 queue) asts'
  · intro d other u held'
    rw [← others d other] at held'
    rw [here] at held
    obtain ⟨queue', rfl⟩ := DlmLockResource.Copy.mem_held.1 held
    cases outcome with
    | granted fits fresh granted =>
        rw [granted]
        exact compatible_of_canGrant fits held'
    | queued stands queued => simp [queued] at queue'
    | refused noqueue same =>
        rw [same, queue] at queue'
        simp at queue'

end NewLocks

/-! ## Conversions and unlocking at the owner -/

/-- The same for a step that creates no lock. -/
theorem Invariant.step_of_next (inv : Invariant owner s) (c : Cookie)
    (agree : ∀ d, d ≠ c → Agree owner s s' d)
    (remote : dlmGetLockCookieNode c ≠ owner → ∃ phase, Conforms owner s' c phase)
    (home : dlmGetLockCookieNode c = owner → Home owner ((s'.res owner).copy c))
    (fits : ∀ t ∈ ((s'.res owner).copy c).held, (∃ u ∈ ((s.res owner).copy c).held, t ≤ u) ∨
      ∀ d, d ≠ c → ∀ u ∈ ((s.res owner).copy d).held, u.Compatible t)
    (calls : ∀ k ∈ s'.calls, k.1.Sound owner)
    (asts : ∀ past ∈ s'.asts, past.node ≠ owner ∧ dlmGetLockCookieNode past.cookie = past.node)
    (nexts : s'.next = s.next) (keeps : (s.own c).place = none → (s'.own c).place = none)
    (foreign : ∀ n, n ≠ owner → dlmGetLockCookieNode c ≠ n →
      ((s'.res n).copy c).place = ((s.res n).copy c).place) :
    Invariant owner s' := by
  refine inv.step c agree remote home fits calls asts (fun d new => ?_) foreign
  rw [nexts] at new
  have none := inv.fresh d new
  by_cases same : d = c
  · subst same
    exact keeps none
  · rw [(agree d same).own, none]

/-- The owner's copy of a lock names the node of its cookie. -/
theorem Invariant.node (inv : Invariant owner s) {p : Place}
    (place : ((s.res owner).copy c).place = some p) : p.node = dlmGetLockCookieNode c := by
  by_cases home : dlmGetLockCookieNode c = owner
  · rcases inv.home c home with ⟨none, _⟩ | ⟨t, place', _⟩ | ⟨t, u, place', _⟩ | ⟨t, place', _⟩
    · rw [place] at none
      cases none
    all_goals
      rw [place] at place'
      cases place'
      exact home.symm
  · obtain ⟨phase, conforms⟩ := inv.remote c home
    have there := conforms.there
    rw [place] at there
    cases phase <;> simp only [Phase.there, reduceCtorEq, Option.some.injEq] at there <;> rw [there]

/-- So does the copy of a lock that stands in a queue of the owner. -/
theorem Invariant.node_of_queue (inv : Invariant owner s) {queue : Queue}
    (here : (s.res owner).queues.find c = some queue) :
    ((s.res owner).lock c).node = dlmGetLockCookieNode c := by
  have place : ((s.res owner).copy c).place = some ⟨((s.res owner).lock c).node, queue,
      ((s.res owner).lock c).type, ((s.res owner).lock c).convertType,
      ((s.res owner).lock c).unlockPending⟩ := place_eq_some.2 ⟨here, rfl, rfl, rfl, rfl⟩
  exact inv.node place

theorem noted_eq (res : DlmLockResource Lvb) (c : Cookie) (flags : LkmFlags) (type : Mode) :
    ∃ get put, noted res c flags type =
      { (res.copy c).lock with getLvb := get, putLvb := put } :=
  ⟨_, _, noteValblk_eq flags type _⟩

section AtOwner

variable {flags : LkmFlags} {type : Mode} {res : DlmLockResource Lvb} {status : DlmStatus}

/-- A step at the owner that sends nothing. -/
theorem Invariant.atOwner (inv : Invariant owner s)
    (reses : s'.res = Function.update s.res owner res) (nexts : s'.next = s.next)
    (calls : s'.calls = s.calls) (asts : s'.asts = s.asts)
    (others : ∀ d, d ≠ c → Alike (res.copy d) ((s.res owner).copy d))
    (home : dlmGetLockCookieNode c = owner → Home owner (res.copy c))
    (remote : dlmGetLockCookieNode c ≠ owner → ∃ phase, Conforms owner s' c phase)
    (fits : ∀ t ∈ (res.copy c).held, (∃ u ∈ ((s.res owner).copy c).held, t ≤ u) ∨
      ∀ d, d ≠ c → ∀ u ∈ ((s.res owner).copy d).held, u.Compatible t)
    (keeps : ((s.res owner).copy c).place = none → (res.copy c).place = none) :
    Invariant owner s' := by
  have here : (s'.res owner).copy c = res.copy c := by rw [reses, Function.update_self]
  refine inv.step_of_next c (agree_of owner reses others (by rw [calls]; exact .refl c s.calls)
    fun _ _ => by rw [asts]) remote (fun mine => ?_) ?_ (by rw [calls]; exact inv.calls)
    (by rw [asts]; exact inv.asts) nexts (fun none => ?_)
    fun m other _ => place_elsewhere reses other
  · rw [here]
    exact home mine
  · rw [here]
    exact fits
  · rw [Cluster.own, reses, Function.update_apply]
    split
    · next mine =>
        rw [Cluster.own, mine] at none
        exact keeps none
    · exact none

theorem Invariant.convertOwner [DlmLockCompatible] (inv : Invariant owner s)
    (usable : Usable (s.res owner) owner c)
    (result : dlmconvertMaster (s.res owner) c flags type = some (status, res))
    (reses : s'.res = Function.update s.res owner res) (nexts : s'.next = s.next)
    (calls : s'.calls = s.calls) (asts : s'.asts = s.asts) : Invariant owner s' := by
  obtain ⟨here, node, staying, idle⟩ := usable
  obtain ⟨others, outcome⟩ := dlmconvertMaster_spec result
  have mine : dlmGetLockCookieNode c = owner := (inv.node_of_queue here).symm.trans node
  have none : ((s.res owner).copy c).asts = 0 := List.count_eq_zero.2 idle
  obtain ⟨get, put, note⟩ := noted_eq (s.res owner) c flags type
  have old : ((s.res owner).lock c).type ∈ ((s.res owner).copy c).held :=
    DlmLockResource.Copy.mem_held.2 ⟨.inl here, rfl⟩
  refine inv.atOwner reses nexts calls asts (fun d other => .of_eq (others d other)) (fun _ => ?_)
    (fun away => absurd mine away) ?_ fun nowhere => ?_
  · cases outcome with
    | denied busy same =>
        rw [same]
        exact inv.home c mine
    | granted idle' here' fresh fits lvb copy =>
        rw [copy, note]
        exact .granted type (place_eq_some.2 ⟨rfl, node, rfl, idle', staying⟩)
          (by show ((s.res owner).copy c).asts + 1 ≤ 1; rw [none])
    | refused idle' here' upwards noqueue lvb copy =>
        rw [copy, note]
        exact .granted _ (place_eq_some.2 ⟨here, node, rfl, idle', staying⟩)
          (by show ((s.res owner).copy c).asts ≤ 1; rw [none]; exact Nat.zero_le 1)
    | queued idle' here' upwards lvb copy =>
        rw [copy, note]
        exact .converting _ type (place_eq_some.2 ⟨rfl, node, rfl, rfl, staying⟩) none
  · intro t held
    obtain ⟨queue, rfl⟩ := DlmLockResource.Copy.mem_held.1 held
    cases outcome with
    | denied busy same =>
        rw [same]
        exact .inl ⟨_, old, le_rfl⟩
    | granted idle' here' fresh fits lvb copy =>
        rw [copy]
        exact fits.imp (fun le => ⟨_, old, le⟩) id
    | refused idle' here' upwards noqueue lvb copy =>
        rw [copy, note]
        exact .inl ⟨_, old, le_rfl⟩
    | queued idle' here' upwards lvb copy =>
        rw [copy, note]
        exact .inl ⟨_, old, le_rfl⟩
  · rw [place_eq_none] at nowhere
    rw [DlmLockResource.queue_copy, here] at nowhere
    cases nowhere

/-- A step that changes no place. -/
theorem Invariant.same (inv : Invariant owner s) (n : Node)
    (reses : s'.res = Function.update s.res n res) (nexts : s'.next = s.next)
    (calls : s'.calls = s.calls) (asts : s'.asts = s.asts)
    (copies : ∀ d, Alike (res.copy d) ((s.res n).copy d)) : Invariant owner s' := by
  have agree : ∀ d, Agree owner s s' d := fun d =>
    agree_at n reses (copies d) (by rw [calls]; exact ⟨rfl, id⟩) (by rw [asts])
  refine inv.step_of_next 0 (fun d _ => agree d) (fun away => ?_)
    (fun mine => (agree 0).there.home (inv.home 0 mine)) (fun t held => .inl ?_)
    (by rw [calls]; exact inv.calls) (by rw [asts]; exact inv.asts) nexts
    (fun none => (agree 0).own.trans none) fun m _ _ => ((agree 0).copies m).place
  · obtain ⟨phase, conforms⟩ := inv.remote 0 away
    exact ⟨phase, (agree 0).conforms conforms⟩
  · rw [(agree 0).there.held] at held
    exact ⟨t, held, le_rfl⟩

theorem Invariant.unlockOwner (inv : Invariant owner s)
    (node : ((s.res owner).lock c).node = owner)
    (result : dlmunlockMaster (s.res owner) c
      (dlmunlockFlags ((s.res owner).lock c) flags) = some (status, res))
    (reses : s'.res = Function.update s.res owner
      (if status = .normal ∨ status = .cancelGrant then res.kick else res))
    (nexts : s'.next = s.next) (calls : s'.calls = s.calls) (asts : s'.asts = s.asts) :
    Invariant owner s' := by
  have kicked : ∀ d, (if status = .normal ∨ status = .cancelGrant then res.kick else res).copy d =
      res.copy d := by
    intro d
    split <;> rfl
  obtain ⟨others, outcome⟩ := dlmunlockMaster_spec
    (fun cancel => by simp_all [dlmunlockFlags]) result
  have mine : ∀ queue, (s.res owner).queues.find c = some queue →
      dlmGetLockCookieNode c = owner :=
    fun _ here => (inv.node_of_queue here).symm.trans node
  have unchanged : res = s.res owner → Invariant owner s' := by
    intro same
    refine inv.same owner reses nexts calls asts fun d => ?_
    rw [kicked, same]
    exact ⟨rfl, rfl⟩
  have changed : ∀ queue, (s.res owner).queues.find c = some queue →
      Home owner (res.copy c) →
      (∀ t ∈ (res.copy c).held, t ∈ ((s.res owner).copy c).held) → Invariant owner s' := by
    intro queue here home less
    refine inv.atOwner reses nexts calls asts (fun d other => ?_) (fun _ => ?_)
      (fun away => absurd (mine queue here) away) (fun t held => ?_) fun nowhere => ?_
    · rw [kicked]
      exact .of_eq (others d other)
    · rw [kicked]
      exact home
    · rw [kicked] at held
      exact .inl ⟨t, less t held, le_rfl⟩
    · rw [place_eq_none, DlmLockResource.queue_copy, here] at nowhere
      cases nowhere
  cases outcome with
  | busy unlock waits same => exact unchanged same
  | denied unlock elsewhere same => exact unchanged same
  | tooLate cancel here same => exact unchanged same
  | unknown cancel nowhere same => exact unchanged same
  | unlocked unlock idle here lvb copy =>
      refine changed _ here ?_ fun t held => ?_
      · rw [copy]
        exact .absent rfl (List.count_eq_zero.2 idle)
      · rw [copy] at held
        cases held
  | withdrawn cancel here lvb copy =>
      obtain ⟨-, -, idle, -⟩ := (inv.home c (mine _ here)).of_queue here
      refine changed _ here ?_ fun t held => ?_
      · rw [copy]
        exact .absent rfl (idle (by decide))
      · rw [copy] at held
        cases held
  | reverted cancel here lvb copy =>
      obtain ⟨staying, node, idle, -⟩ := (inv.home c (mine _ here)).of_queue here
      refine changed _ here ?_ fun t held => ?_
      · rw [copy]
        exact .granted _ (place_eq_some.2 ⟨rfl, node, rfl, rfl, staying⟩)
          ((idle (by decide)).trans_le (Nat.zero_le 1))
      · rw [copy] at held
        cases held
        exact DlmLockResource.Copy.mem_held.2 ⟨.inr here, rfl⟩

/-! ## The thread -/

variable {t : DlmLockResource Lvb}

theorem Conforms.queue {phase : Phase} (conforms : Conforms owner s c phase) :
    (s.res owner).queues.find c =
      (phase.there (dlmGetLockCookieNode c)).map Place.queue := by
  rw [← conforms.there, DlmLockResource.Copy.place, Option.map_map]
  exact (Option.map_id' ..).symm

/-- The phase of a lock that waits at the owner. -/
theorem Conforms.of_converting {phase : Phase} (conforms : Conforms owner s c phase)
    (here : (s.res owner).queues.find c = some .converting) :
    ∃ t u, phase = .waiting t u := by
  have queue := conforms.queue
  rw [here] at queue
  cases phase <;> simp [Phase.there] at queue ⊢

theorem Conforms.of_blocked {phase : Phase} (conforms : Conforms owner s c phase)
    (here : (s.res owner).queues.find c = some .blocked) : ∃ t, phase = .queued t := by
  have queue := conforms.queue
  rw [here] at queue
  cases phase <;> simp [Phase.there] at queue ⊢

theorem Invariant.grant [DlmLockCompatible] (inv : Invariant owner s)
    (grant : Grant (s.res owner) t c)
    (reses : s'.res = Function.update s.res owner t) (nexts : s'.next = s.next)
    (calls : s'.calls = s.calls) (asts : s'.asts = s.asts) : Invariant owner s' := by
  have here : (s'.res owner).copy c = t.copy c := by rw [reses, Function.update_self]
  have own : dlmGetLockCookieNode c ≠ owner → s'.own c = s.own c := by
    intro away
    rw [Cluster.own, reses, Function.update_of_ne away]
    rfl
  rcases grant.served with ⟨mode, head, wants, free, copy⟩ | ⟨idle, head, free, copy⟩
  · have queue : (s.res owner).queues.find c = some .converting :=
      Queues.mem_converting.1 (List.mem_of_mem_head? head)
    refine inv.atOwner reses nexts calls asts (fun d other => .of_eq (grant.others d other))
      (fun mine => ?_) (fun away => ?_) (fun u held => .inr fun d other u' held' => ?_)
      fun nowhere => ?_
    · obtain ⟨staying, node, none, -⟩ := (inv.home c mine).of_queue queue
      rw [copy]
      refine .granted mode (place_eq_some.2 ⟨rfl, node, rfl, rfl, staying⟩) ?_
      show ((s.res owner).copy c).asts + 1 ≤ 1
      rw [none (by decide)]
    · obtain ⟨phase, conforms⟩ := inv.remote c away
      obtain ⟨t', u, rfl⟩ := conforms.of_converting queue
      obtain ⟨-, node, -, convert, staying⟩ := place_eq_some.1 conforms.there
      obtain rfl : u = mode := Option.some.inj (convert.symm.trans wants)
      refine ⟨.converted t' u, by rw [own away, conforms.here]; rfl, ?_, ?_, ?_, fun _ => trivial⟩
      · rw [here, copy]
        exact place_eq_some.2 ⟨rfl, node, rfl, rfl, staying⟩
      · have none := conforms.asts
        rw [Cluster.astCount] at none ⊢
        rw [here, copy, asts]
        simp only [Phase.asts] at none ⊢
        omega
      · rw [calls, conforms.errands]
        rfl
    · rw [copy] at held
      cases held
      exact compatible_of_free free other held'
    · rw [place_eq_none, DlmLockResource.queue_copy, queue] at nowhere
      cases nowhere
  · have queue : (s.res owner).queues.find c = some .blocked :=
      Queues.mem_blocked.1 (List.mem_of_mem_head? head)
    refine inv.atOwner reses nexts calls asts (fun d other => .of_eq (grant.others d other))
      (fun mine => ?_) (fun away => ?_) (fun u held => .inr fun d other u' held' => ?_)
      fun nowhere => ?_
    · obtain ⟨staying, node, none, -, convert⟩ := (inv.home c mine).of_queue queue
      rw [copy]
      refine .granted _ (place_eq_some.2 ⟨rfl, node, rfl, ?_, staying⟩) ?_
      · by_contra some
        exact absurd (convert.2 some) (by decide)
      · show ((s.res owner).copy c).asts + 1 ≤ 1
        rw [none (by decide)]
    · obtain ⟨phase, conforms⟩ := inv.remote c away
      obtain ⟨t', rfl⟩ := conforms.of_blocked queue
      obtain ⟨-, node, type, convert, staying⟩ := place_eq_some.1 conforms.there
      refine ⟨.given t', by rw [own away, conforms.here]; rfl, ?_, ?_, ?_, fun sent => ?_⟩
      · rw [here, copy]
        exact place_eq_some.2 ⟨rfl, node, type, convert, staying⟩
      · have none := conforms.asts
        rw [Cluster.astCount] at none ⊢
        rw [here, copy, asts]
        simp only [Phase.asts] at none ⊢
        omega
      · rw [calls, conforms.errands]
        rfl
      · rw [calls] at sent
        exact conforms.cancels sent
    · rw [copy] at held
      cases held
      exact compatible_of_free free other held'
    · rw [place_eq_none, DlmLockResource.queue_copy, queue] at nowhere
      cases nowhere

theorem Invariant.shuffled [DlmLockCompatible] {r : DlmLockResource Lvb}
    (shuffled : Shuffled r t) (inv : Invariant owner s) (before : s.res owner = r)
    (reses : s'.res = Function.update s.res owner t) (nexts : s'.next = s.next)
    (calls : s'.calls = s.calls) (asts : s'.asts = s.asts) : Invariant owner s' := by
  induction shuffled generalizing s with
  | settled noted settled =>
      refine inv.same owner reses nexts calls asts fun d => ?_
      rw [before]
      exact .of_eq (noted.copy d)
  | @grant r t u c grant rest inductionHypothesis =>
      have next : Invariant owner (s.setRes owner t) :=
        inv.grant (before ▸ grant) rfl rfl rfl rfl
      refine inductionHypothesis next (Function.update_self ..) ?_ nexts calls asts
      rw [reses, Cluster.setRes, Function.update_idem]

end AtOwner

end Ocfs2Coverage.Dlm
