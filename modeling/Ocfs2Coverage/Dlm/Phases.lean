import Ocfs2Coverage.Dlm.Cluster

/-!
Contract: the conversation of a node with the owner about one lock.

Owns: its phases, what both copies of the lock, the messages and the asts are in each
of them, and which states of a cluster conform to a phase for every lock.

Does not own: that steps keep a cluster so.
-/

namespace Ocfs2Coverage.Dlm

variable {Lvb : Type}

/-! ## Phases -/

/-- Where a lock stands at a node, and with which modes. -/
structure Place where
  node : Node
  queue : Queue
  type : Mode
  convertType : Option Mode
  unlockPending : Bool
deriving DecidableEq

def DlmLockResource.Copy.place (copy : DlmLockResource.Copy Lvb) : Option Place :=
  copy.queue.map fun queue =>
    ⟨copy.lock.node, queue, copy.lock.type, copy.lock.convertType, copy.lock.unlockPending⟩

theorem place_eq_some {copy : DlmLockResource.Copy Lvb} {p : Place} : copy.place = some p ↔
    copy.queue = some p.queue ∧ copy.lock.node = p.node ∧ copy.lock.type = p.type ∧
      copy.lock.convertType = p.convertType ∧ copy.lock.unlockPending = p.unlockPending := by
  obtain ⟨node, queue, type, convertType, unlockPending⟩ := p
  simp [DlmLockResource.Copy.place]

theorem place_eq_none {copy : DlmLockResource.Copy Lvb} :
    copy.place = none ↔ copy.queue = none := by
  simp [DlmLockResource.Copy.place]

/-- What the owner lets a lock hold. -/
def Place.held (place : Place) : Option Mode :=
  match place.queue with
  | .granted => some place.type
  | .converting => some place.type
  | .blocked => none

theorem held_eq (copy : DlmLockResource.Copy Lvb) : copy.held = copy.place.bind Place.held := by
  simp only [DlmLockResource.Copy.held, DlmLockResource.Copy.place]
  cases copy.queue with
  | none => rfl
  | some queue => cases queue <;> rfl

/-- A conversation about a lock of mode `t` that may convert to `u`. -/
inductive Phase where
  | absent
  | requested (t : Mode)
  | queued (t : Mode)
  | given (t : Mode)
  | refused (t : Mode)
  | idle (t : Mode)
  | asked (t u : Mode)
  | waiting (t u : Mode)
  | converted (t u : Mode)
  | turnedDown (t u : Mode)
  | cancelled (t u : Mode)
  | leaving (t : Mode)
  | left (t : Mode)
deriving DecidableEq

/-- A message, or its answer, on which the conversation waits. -/
inductive Errand where
  | create (t : Mode)
  | noCreate
  | convert (u : Mode)
  | noConvert
  | cancelled
  | unlock
  | unlocked
  | broken
deriving DecidableEq

namespace Phase

/-- The copy of the lock at its own node. -/
def here (n : Node) : Phase → Option Place
  | absent => none
  | requested t => some ⟨n, .blocked, t, none, false⟩
  | queued t => some ⟨n, .blocked, t, none, false⟩
  | given t => some ⟨n, .blocked, t, none, false⟩
  | refused t => some ⟨n, .blocked, t, none, false⟩
  | idle t => some ⟨n, .granted, t, none, false⟩
  | asked t u => some ⟨n, .converting, t, some u, false⟩
  | waiting t u => some ⟨n, .converting, t, some u, false⟩
  | converted t u => some ⟨n, .converting, t, some u, false⟩
  | turnedDown t u => some ⟨n, .converting, t, some u, false⟩
  | cancelled t u => some ⟨n, .converting, t, some u, false⟩
  | leaving t => some ⟨n, .granted, t, none, true⟩
  | left t => some ⟨n, .granted, t, none, true⟩

/-- The copy of the lock at the owner. -/
def there (n : Node) : Phase → Option Place
  | absent => none
  | requested _ => none
  | queued t => some ⟨n, .blocked, t, none, false⟩
  | given t => some ⟨n, .granted, t, none, false⟩
  | refused _ => none
  | idle t => some ⟨n, .granted, t, none, false⟩
  | asked t _ => some ⟨n, .granted, t, none, false⟩
  | waiting t u => some ⟨n, .converting, t, some u, false⟩
  | converted _ u => some ⟨n, .granted, u, none, false⟩
  | turnedDown t _ => some ⟨n, .granted, t, none, false⟩
  | cancelled t _ => some ⟨n, .granted, t, none, false⟩
  | leaving t => some ⟨n, .granted, t, none, false⟩
  | left _ => none

/-- How many asts are on their way, from the list of the owner to the node. -/
def asts : Phase → Nat
  | given _ => 1
  | converted _ _ => 1
  | _ => 0

def errands : Phase → Multiset Errand
  | requested t => {.create t}
  | refused _ => {.noCreate}
  | asked _ u => {.convert u}
  | turnedDown _ _ => {.noConvert}
  | cancelled _ _ => {.cancelled}
  | leaving _ => {.unlock}
  | left _ => {.unlocked}
  | _ => 0

/-- The phases in which a cancel may be open. -/
def Cancellable : Phase → Prop
  | idle _ => True
  | asked _ _ => True
  | waiting _ _ => True
  | converted _ _ => True
  | turnedDown _ _ => True
  | cancelled _ _ => True
  | _ => False

end Phase

/-- What the client may rely on: it gives up a mode with its call already, and has a mode
with its ast only. -/
def Place.relies (place : Place) : Option Mode :=
  match place.queue with
  | .granted => if place.unlockPending then none else some place.type
  | .converting => some (min place.type (place.convertType.getD place.type))
  | .blocked => none

/-- The client never relies on more than the owner lets the lock hold. -/
theorem Phase.relies_le (phase : Phase) (n : Node) {t : Mode}
    (relies : t ∈ (phase.here n).bind Place.relies) :
    ∃ u ∈ (phase.there n).bind Place.held, t ≤ u := by
  cases phase with
  | asked t u | waiting t u | turnedDown t u | cancelled t u =>
      obtain rfl : min t u = _ := Option.some.inj relies
      exact ⟨t, rfl, min_le_left t u⟩
  | converted t u =>
      obtain rfl : min t u = _ := Option.some.inj relies
      exact ⟨u, rfl, min_le_right t u⟩
  | idle t =>
      obtain rfl : t = _ := Option.some.inj relies
      exact ⟨t, rfl, le_rfl⟩
  | absent | requested t | queued t | given t | refused t | leaving t | left t => cases relies

/-! ## Errands -/

/-- What a message means for the conversation; answers that change nothing, and cancels
that were not handled, mean nothing. -/
def errand : Call Lvb × Option DlmStatus → Multiset Errand
  | (.create _ _ t _, none) => {.create t}
  | (.create .., some .normal) => 0
  | (.create .., some _) => {.noCreate}
  | (.convert _ _ u _ _, none) => {.convert u}
  | (.convert .., some .normal) => 0
  | (.convert .., some _) => {.noConvert}
  | (.unlock _ _ flags _ _, none) => if flags.cancel then 0 else {.unlock}
  | (.unlock _ _ flags _ _, some .normal) => {if flags.cancel then .cancelled else .unlocked}
  | (.unlock _ _ flags _ _, some .cancelGrant) => if flags.cancel then 0 else {.broken}
  | (.unlock .., some _) => {.broken}

def errandsOf (calls : Multiset (Call Lvb × Option DlmStatus)) (c : Cookie) : Multiset Errand :=
  calls.bind fun k => if k.1.cookie = c then errand k else 0

@[simp] theorem errandsOf_cons (k : Call Lvb × Option DlmStatus)
    (rest : Multiset (Call Lvb × Option DlmStatus)) (c : Cookie) :
    errandsOf (k ::ₘ rest) c = (if k.1.cookie = c then errand k else 0) + errandsOf rest c :=
  Multiset.cons_bind ..

/-! ## Conforming states -/

/-- The asts for a lock, in the list of the owner and on their way. -/
def Cluster.astCount (s : Cluster Lvb) (owner : Node) (c : Cookie) : Nat :=
  ((s.res owner).copy c).asts + s.asts.countP fun past => past.cookie = c

/-- The copy of a lock at its own node. -/
def Cluster.own (s : Cluster Lvb) (c : Cookie) : DlmLockResource.Copy Lvb :=
  (s.res (dlmGetLockCookieNode c)).copy c

structure Conforms (owner : Node) (s : Cluster Lvb) (c : Cookie) (phase : Phase) : Prop where
  here : (s.own c).place = phase.here (dlmGetLockCookieNode c)
  there : ((s.res owner).copy c).place = phase.there (dlmGetLockCookieNode c)
  asts : s.astCount owner c = phase.asts
  errands : errandsOf s.calls c = phase.errands
  cancels : CancelOpen s.calls c → phase.Cancellable

/-- A lock of the owner's own: an ast is open only for one that is granted. -/
inductive Home (owner : Node) (copy : DlmLockResource.Copy Lvb) : Prop where
  | absent (place : copy.place = none) (asts : copy.asts = 0)
  | granted (t : Mode) (place : copy.place = some ⟨owner, .granted, t, none, false⟩)
      (asts : copy.asts ≤ 1)
  | converting (t u : Mode) (place : copy.place = some ⟨owner, .converting, t, some u, false⟩)
      (asts : copy.asts = 0)
  | blocked (t : Mode) (place : copy.place = some ⟨owner, .blocked, t, none, false⟩)
      (asts : copy.asts = 0)

/-- A message says who sent it, and what the caller of `dlmunlock_common` does next. -/
def Call.Sound (owner : Node) (call : Call Lvb) : Prop :=
  call.node ≠ owner ∧ dlmGetLockCookieNode call.cookie = call.node ∧
    match call with
    | .create .. => True
    | .convert _ _ _ flags _ => ¬ (flags.putLvb = true ∧ flags.getLvb = true)
    | .unlock _ _ flags _ actions =>
        flags.getLvb = false ∧ (flags.cancel = true → flags.valblk = false ∧ flags.putLvb = false) ∧
          actions = ⟨true, flags.cancel, flags.cancel⟩

section Inversion

variable {phase : Phase} {e : Errand} {rest : Multiset Errand}

/-- The phases that wait for an errand. -/
def Phase.Awaits (phase : Phase) : Errand → Prop
  | .create t => phase = .requested t
  | .noCreate => ∃ t, phase = .refused t
  | .convert u => ∃ t, phase = .asked t u
  | .noConvert => ∃ t u, phase = .turnedDown t u
  | .cancelled => ∃ t u, phase = .cancelled t u
  | .unlock => ∃ t, phase = .leaving t
  | .unlocked => ∃ t, phase = .left t
  | .broken => False

/-- What the conversation waits for tells its phase. -/
theorem phase_of_errand (waits : {e} + rest = phase.errands) : rest = 0 ∧ phase.Awaits e := by
  rw [Multiset.singleton_add] at waits
  have none : phase.errands ≠ 0 := waits ▸ Multiset.cons_ne_zero
  cases phase with
  | absent | queued t | given t | idle t | waiting t u | converted t u => exact absurd rfl none
  | requested t | refused t | asked t u | turnedDown t u | cancelled t u | leaving t | left t =>
      obtain ⟨rfl, rfl⟩ := (Multiset.singleton_eq_cons_iff _).1 waits.symm
      simp [Phase.Awaits]

end Inversion

structure Invariant (owner : Node) (s : Cluster Lvb) : Prop where
  remote : ∀ c, dlmGetLockCookieNode c ≠ owner → ∃ phase, Conforms owner s c phase
  home : ∀ c, dlmGetLockCookieNode c = owner → Home owner ((s.res owner).copy c)
  shared : Sharing.Shared Mode.Compatible fun c => ((s.res owner).copy c).held
  calls : ∀ k ∈ s.calls, k.1.Sound owner
  asts : ∀ past ∈ s.asts, past.node ≠ owner ∧ dlmGetLockCookieNode past.cookie = past.node
  fresh : ∀ c, s.next (dlmGetLockCookieNode c) ≤ c.val % 2 ^ 56 → (s.own c).place = none
  foreign : ∀ n c, n ≠ owner → dlmGetLockCookieNode c ≠ n → ((s.res n).copy c).place = none

end Ocfs2Coverage.Dlm
