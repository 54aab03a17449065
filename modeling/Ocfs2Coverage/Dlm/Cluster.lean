import Ocfs2Coverage.Dlm.Messages
import Ocfs2Coverage.Runs

/-!
Contract: a cluster whose nodes share one lock resource.

Owns: the copies of the resource, the messages on their way, and the steps that clients,
the owner's thread and the network take, in any order.

Does not own: what holds in every state; nodes that die, join or take the resource over.
-/

namespace Ocfs2Coverage.Dlm

variable {Lvb : Type}

/-- The copies of the resource, the count of every node for its cookies, the messages to
the owner that have not returned with the status of those that were handled, and the
asts and basts on their way to the nodes of their locks. `telling` says that the thread of
the owner is in the second loop of `dlm_flush_asts`. -/
structure Cluster (Lvb : Type) where
  res : Node → DlmLockResource Lvb
  next : Node → Nat
  calls : Multiset (Call Lvb × Option DlmStatus)
  asts : Multiset (ProxyAst Lvb)
  basts : Multiset ProxyBast
  telling : Bool

/-- Nobody has asked for a lock yet. -/
def Cluster.start (lvb : Lvb) : Cluster Lvb where
  res _ := ⟨.empty, fun _ => dlmInitLock .nl 0 lvb, lvb, false, [], []⟩
  next _ := 1
  calls := 0
  asts := 0
  basts := 0
  telling := false

namespace Cluster

variable (s : Cluster Lvb)

def setRes (n : Node) (res : DlmLockResource Lvb) : Cluster Lvb :=
  { s with res := Function.update s.res n res }

/-- A message to the owner leaves. -/
def send (call : Call Lvb) : Cluster Lvb := { s with calls := (call, none) ::ₘ s.calls }

end Cluster

/-- A cancel of the lock has not returned. -/
def CancelOpen (calls : Multiset (Call Lvb × Option DlmStatus)) (c : Cookie) : Prop :=
  ∃ n flags lvb actions status, (Call.unlock n c flags lvb actions, status) ∈ calls ∧
    flags.cancel = true

/-- The lock is its client's to use: granted, and nothing that was asked is open. -/
def Usable (res : DlmLockResource Lvb) (n : Node) (c : Cookie) : Prop :=
  res.queues.find c = some .granted ∧ (res.lock c).node = n ∧
    (res.lock c).unlockPending = false ∧ c ∉ res.pendingAsts

/-- What happens, with the value blocks that clients give away and get: `bast` is the thread
that tells the client of a lock at the owner, or sends the bast, and `told` the handler that
takes it, with what it tells the client. -/
inductive Event (Lvb : Type) where
  | call (node : Node) (c : Cookie) (published : Option Lvb)
  | write (node : Node) (c : Cookie)
  | handle (c : Cookie)
  | status (c : Cookie)
  | ast (node : Node) (c : Cookie) (fetched : Option Lvb)
  | flush (c : Cookie)
  | bast (c : Cookie) (blocked : Mode)
  | told (node : Node) (c : Cookie) (blocked : Option Mode)
  | shuffle
  | turn

/-- The value block that a client of an EX lock gives away with `LKM_VALBLK`. -/
def published (lock : DlmLock Lvb) (flags : LkmFlags) : Option Lvb :=
  if flags.valblk ∧ lock.type = .ex then some lock.lvb else none

/-- The kernel's flags are not for clients. -/
def LkmFlags.ByClient (flags : LkmFlags) : Prop := flags.getLvb = false ∧ flags.putLvb = false

section

variable [DlmLockCompatible] [Inhabited Lvb]

/-- What the owner answers to a message. -/
def handleCall (res : DlmLockResource Lvb) :
    Call Lvb → Option (DlmStatus × DlmLockResource Lvb)
  | .create node c type flags => dlmCreateLockHandler res node c type flags
  | .convert node c type flags lvb => dlmConvertLockHandler res node c type flags lvb
  | .unlock node c flags lvb _ => dlmUnlockLockHandler res node c flags lvb

/-- What the caller does with the answer. -/
def returnCall (res : DlmLockResource Lvb) (status : DlmStatus) :
    Call Lvb → Option (DlmLockResource Lvb)
  | .create _ c _ _ => some (dlmlockRemoteStatus res c status)
  | .convert _ c _ _ _ => some (dlmconvertRemoteStatus res c status).2
  | .unlock _ c flags _ actions =>
      (dlmunlockRemoteStatus res c flags.cancel actions status).map Prod.snd

/-- A step of the cluster around the owner of the resource. Clients convert what they may
use only, do not unlock while a cancel is open, and cancel one conversion at a time; those of
other nodes cancel conversions only, not locks that are blocked. -/
inductive Step (owner : Node) : Cluster Lvb → Event Lvb → Cluster Lvb → Prop where
  /-- `dlmlock` for a new lock at the owner. -/
  | lockOwner {s : Cluster Lvb} {mode : Mode} {flags flags' : LkmFlags} {lvb : Lvb} {c : Cookie}
      {next : Nat} {new res : DlmLockResource Lvb} {status : DlmStatus}
      (client : flags.ByClient) (few : s.next owner + 1 < 2 ^ 56)
      (key : dlmGetNextCookie owner (s.next owner) = (c, next))
      (prepared : dlmNewLock (s.res owner) owner c mode flags lvb = (flags', new))
      (result : dlmlockMaster new c flags' = some (status, res)) :
      Step owner s (.call owner c none)
        { s.setRes owner res with next := Function.update s.next owner next }
  /-- `dlmlock` for a new lock elsewhere. -/
  | lock {s : Cluster Lvb} {n : Node} {mode : Mode} {flags flags' : LkmFlags} {lvb : Lvb}
      {c : Cookie} {next : Nat} {new res : DlmLockResource Lvb} {call : Call Lvb}
      (remote : n ≠ owner) (client : flags.ByClient) (few : s.next n + 1 < 2 ^ 56)
      (key : dlmGetNextCookie n (s.next n) = (c, next))
      (prepared : dlmNewLock (s.res n) n c mode flags lvb = (flags', new))
      (result : dlmlockRemote new c flags' = (call, res)) :
      Step owner s (.call n c none)
        { (s.setRes n res).send call with next := Function.update s.next n next }
  /-- `dlmlock` with `LKM_CONVERT` at the owner. -/
  | convertOwner {s : Cluster Lvb} {c : Cookie} {flags : LkmFlags} {type : Mode}
      {res : DlmLockResource Lvb} {status : DlmStatus} (client : flags.ByClient)
      (usable : Usable (s.res owner) owner c)
      (result : dlmconvertMaster (s.res owner) c flags type = some (status, res)) :
      Step owner s (.call owner c (published ((s.res owner).lock c) flags)) (s.setRes owner res)
  /-- `dlmlock` with `LKM_CONVERT` elsewhere, when nothing is to be sent. -/
  | convertIdle {s : Cluster Lvb} {n : Node} {c : Cookie} {flags : LkmFlags} {type : Mode}
      {res : DlmLockResource Lvb} {status : DlmStatus} (remote : n ≠ owner)
      (result : dlmconvertRemote (s.res n) c flags type = (.inl status, res)) :
      Step owner s (.call n c none) (s.setRes n res)
  /-- `dlmlock` with `LKM_CONVERT` elsewhere. -/
  | convert {s : Cluster Lvb} {n : Node} {c : Cookie} {flags : LkmFlags} {type : Mode}
      {res : DlmLockResource Lvb} {call : Call Lvb} (remote : n ≠ owner)
      (client : flags.ByClient) (usable : Usable (s.res n) n c)
      (result : dlmconvertRemote (s.res n) c flags type = (.inr call, res)) :
      Step owner s (.call n c (published ((s.res n).lock c) flags)) ((s.setRes n res).send call)
  /-- `dlmunlock` at the owner. -/
  | unlockOwner {s : Cluster Lvb} {c : Cookie} {flags : LkmFlags} {res : DlmLockResource Lvb}
      {status : DlmStatus} (client : flags.ByClient) (mine : ((s.res owner).lock c).node = owner)
      (result : dlmunlockMaster (s.res owner) c
        (dlmunlockFlags ((s.res owner).lock c) flags) = some (status, res)) :
      Step owner s (.call owner c (if status = .normal then
        published ((s.res owner).lock c) (dlmunlockFlags ((s.res owner).lock c) flags) else none))
        (s.setRes owner (if status = .normal ∨ status = .cancelGrant then res.kick else res))
  /-- `dlmunlock` elsewhere, when nothing is to be sent. -/
  | unlockIdle {s : Cluster Lvb} {n : Node} {c : Cookie} {flags : LkmFlags}
      {res : DlmLockResource Lvb} {status : DlmStatus} (remote : n ≠ owner)
      (result : dlmunlockRemote (s.res n) c flags = some (.inl status, res)) :
      Step owner s (.call n c none) (s.setRes n res)
  /-- `dlmunlock` elsewhere. -/
  | unlock {s : Cluster Lvb} {n : Node} {c : Cookie} {flags : LkmFlags}
      {res : DlmLockResource Lvb} {call : Call Lvb} (remote : n ≠ owner)
      (client : flags.ByClient) (mine : ((s.res n).lock c).node = n)
      (staying : ((s.res n).lock c).unlockPending = false) (alone : ¬ CancelOpen s.calls c)
      (converts : flags.cancel = true → (s.res n).queues.find c = some .converting)
      (result : dlmunlockRemote (s.res n) c flags = some (.inr call, res)) :
      Step owner s (.call n c
        (published ((s.res n).lock c) (dlmunlockFlags ((s.res n).lock c) flags)))
        ((s.setRes n res).send call)
  /-- The client of an EX lock changes its value block. -/
  | write {s : Cluster Lvb} {n : Node} {c : Cookie} {lvb : Lvb} (usable : Usable (s.res n) n c)
      (top : ((s.res n).lock c).type = .ex) :
      Step owner s (.write n c)
        (s.setRes n ((s.res n).modifyLock c fun lock => { lock with lvb := lvb }))
  /-- A message reaches the owner. -/
  | handle {s : Cluster Lvb} {call : Call Lvb} {rest : Multiset (Call Lvb × Option DlmStatus)}
      {res : DlmLockResource Lvb} {status : DlmStatus} (sent : s.calls = (call, none) ::ₘ rest)
      (result : handleCall (s.res owner) call = some (status, res)) :
      Step owner s (.handle call.cookie)
        { s.setRes owner res with calls := (call, some status) ::ₘ rest }
  /-- A status reaches the caller. -/
  | return {s : Cluster Lvb} {call : Call Lvb} {rest : Multiset (Call Lvb × Option DlmStatus)}
      {res : DlmLockResource Lvb} {status : DlmStatus}
      (answered : s.calls = (call, some status) ::ₘ rest)
      (result : returnCall (s.res call.node) status call = some res) :
      Step owner s (.status call.cookie) { s.setRes call.node res with calls := rest }
  /-- The thread of the owner goes through the queues. -/
  | shuffle {s : Cluster Lvb} {res : DlmLockResource Lvb} (asts : s.telling = false)
      (result : dlmShuffleLists (s.res owner) = some res) :
      Step owner s .shuffle (s.setRes owner { res with dirty := false })
  /-- The thread delivers an ast at the owner. -/
  | flushLocal {s : Cluster Lvb} {c : Cookie} {res : DlmLockResource Lvb}
      (asts : s.telling = false) (first : (s.res owner).pendingAsts.head? = some c)
      (result : dlmFlushAst (s.res owner) owner = some (none, res)) :
      Step owner s (.ast owner c
        (if ((s.res owner).lock c).getLvb then some (res.lock c).lvb else none))
        (s.setRes owner res)
  /-- The thread sends an ast to another node. -/
  | flush {s : Cluster Lvb} {past : ProxyAst Lvb} {res : DlmLockResource Lvb}
      (asts : s.telling = false)
      (result : dlmFlushAst (s.res owner) owner = some (some past, res)) :
      Step owner s (.flush past.cookie) { s.setRes owner res with asts := past ::ₘ s.asts }
  /-- The thread is through with the asts. -/
  | turnBasts {s : Cluster Lvb} (asts : s.telling = false)
      (none : (s.res owner).pendingAsts = []) : Step owner s .turn { s with telling := true }
  /-- The thread tells a holder at the owner that it blocks somebody. -/
  | flushLocalBast {s : Cluster Lvb} {c : Cookie} {hi : Mode} {res : DlmLockResource Lvb}
      (basts : s.telling = true) (first : (s.res owner).pendingBasts.head? = some c)
      (result : dlmFlushBast (s.res owner) owner = some (hi, none, res)) :
      Step owner s (.bast c hi) (s.setRes owner res)
  /-- The thread sends a bast to another node. -/
  | flushBast {s : Cluster Lvb} {past : ProxyBast} {hi : Mode} {res : DlmLockResource Lvb}
      (basts : s.telling = true)
      (result : dlmFlushBast (s.res owner) owner = some (hi, some past, res)) :
      Step owner s (.bast past.cookie hi) { s.setRes owner res with basts := past ::ₘ s.basts }
  /-- The thread is through with the basts, and goes back to its queues. -/
  | turnQueues {s : Cluster Lvb} (basts : s.telling = true)
      (none : (s.res owner).pendingBasts = []) : Step owner s .turn { s with telling := false }
  /-- An ast reaches the node of its lock. -/
  | ast {s : Cluster Lvb} {past : ProxyAst Lvb} {rest : Multiset (ProxyAst Lvb)}
      {res : DlmLockResource Lvb} (sent : s.asts = past ::ₘ rest)
      (result : dlmProxyAstHandler (s.res past.node) owner past.node past.cookie past.lvb =
        some res) :
      Step owner s (.ast past.node past.cookie past.lvb)
        { s.setRes past.node res with asts := rest }
  /-- A bast reaches the node of its lock. -/
  | bast {s : Cluster Lvb} {past : ProxyBast} {rest : Multiset ProxyBast}
      {told : Option Mode} (sent : s.basts = past ::ₘ rest)
      (result : dlmProxyBastHandler (s.res past.node) owner past.node past.cookie
        past.blockedType = some told) :
      Step owner s (.told past.node past.cookie told) { s with basts := rest }

end

end Ocfs2Coverage.Dlm
