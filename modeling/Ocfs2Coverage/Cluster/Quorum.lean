import Mathlib.Data.Fintype.Card
import Mathlib.Data.Fin.Basic
import Ocfs2Coverage.Kernel
import Ocfs2Coverage.Majority
import Ocfs2Coverage.Runs

/-!
Contract: the quorum state of one node (`cluster/quorum.c`).

Owns: the two bitmaps with their counters, the holds that delay a decision, the
work that makes it, and what holds behind every sequence of calls.

Does not own: when heartbeat and network make the calls, what fencing does to the
node.
-/

namespace Ocfs2Coverage.Cluster

open Ocfs2Coverage.Kernel
open Ocfs2Coverage.Majority
open Ocfs2Coverage.Runs

/-- `o2quo_state`, with `O2NM_MAX_NODES` as a parameter; `work` says whether `qs_work`
is scheduled. -/
structure O2quoState (maxNodes : Nat) where
  work : Bool
  pending : Bool
  heartbeating : Int
  hbBm : Finset (Fin maxNodes)
  connected : Int
  connBm : Finset (Fin maxNodes)
  holds : Int
  holdBm : Finset (Fin maxNodes)
deriving DecidableEq

variable {maxNodes : Nat}

/-- `o2quo_init`. -/
def o2quoInit : O2quoState maxNodes := ⟨false, false, 0, ∅, 0, ∅, 0, ∅⟩

/-- `find_first_bit`; no bit is `O2NM_MAX_NODES` in C. -/
def findFirstBit (bm : Finset (Fin maxNodes)) : Option (Fin maxNodes) :=
  (List.finRange maxNodes).find? (· ∈ bm)

/-! ## The code -/

def o2quoSetHold (qs : O2quoState maxNodes) (node : Fin maxNodes) : Option (O2quoState maxNodes) :=
  if node ∈ qs.holdBm then some qs
  else
    let qs := { qs with holdBm := insert node qs.holdBm, holds := qs.holds + 1 }
    bugOn (qs.holds = (maxNodes : Int)) (some qs)

def o2quoClearHold (qs : O2quoState maxNodes) (node : Fin maxNodes) :
    Option (O2quoState maxNodes) :=
  if node ∈ qs.holdBm then
    let qs := { qs with holdBm := qs.holdBm.erase node, holds := qs.holds - 1 }
    let qs :=
      if qs.holds = 0 ∧ qs.pending then { qs with pending := false, work := true } else qs
    bugOn (qs.holds < 0) (some qs)
  else some qs

def o2quoHbUp (qs : O2quoState maxNodes) (node : Fin maxNodes) : Option (O2quoState maxNodes) :=
  let qs := { qs with heartbeating := qs.heartbeating + 1 }
  bugOn (qs.heartbeating = (maxNodes : Int)) <| bugOn (node ∈ qs.hbBm) <|
    let qs := { qs with hbBm := insert node qs.hbBm }
    if node ∉ qs.connBm then o2quoSetHold qs node else o2quoClearHold qs node

def o2quoHbDown (qs : O2quoState maxNodes) (node : Fin maxNodes) : Option (O2quoState maxNodes) :=
  let qs := { qs with heartbeating := qs.heartbeating - 1 }
  bugOn (qs.heartbeating < 0) <| bugOn (node ∉ qs.hbBm) <|
    o2quoClearHold { qs with hbBm := qs.hbBm.erase node } node

def o2quoHbStillUp (qs : O2quoState maxNodes) (node : Fin maxNodes) :
    Option (O2quoState maxNodes) :=
  o2quoClearHold { qs with pending := true } node

def o2quoConnUp (qs : O2quoState maxNodes) (node : Fin maxNodes) : Option (O2quoState maxNodes) :=
  let qs := { qs with connected := qs.connected + 1 }
  bugOn (qs.connected = (maxNodes : Int)) <| bugOn (node ∈ qs.connBm) <|
    let qs := { qs with connBm := insert node qs.connBm }
    if node ∉ qs.hbBm then o2quoSetHold qs node else o2quoClearHold qs node

def o2quoConnErr (qs : O2quoState maxNodes) (node : Fin maxNodes) : Option (O2quoState maxNodes) :=
  if node ∈ qs.connBm then
    let qs := { qs with connected := qs.connected - 1 }
    bugOn (qs.connected < 0) <|
      let qs := { qs with connBm := qs.connBm.erase node }
      if node ∈ qs.hbBm then o2quoSetHold qs node else some qs
  else some qs

/-- What `o2quo_make_decision` computes: whether the node fences itself. -/
def o2quoMakeDecision (thisNode : Fin maxNodes) (qs : O2quoState maxNodes) : Bool :=
  let lowestReachable := match findFirstBit qs.hbBm with
    | some lowest => decide (lowest ∈ qs.connBm)
    | none => false
  if thisNode ∉ qs.hbBm ∨ qs.heartbeating = 1 then false
  else if qs.heartbeating % 2 = 1 then
    let quorum := (qs.heartbeating + 1) / 2
    decide (qs.connected < quorum)
  else
    let quorum := qs.heartbeating / 2
    if qs.connected < quorum then true
    else decide (qs.connected = quorum) && !lowestReachable

/-! ## Runs -/

/-- What heartbeat, network and the work queue call. -/
inductive QuorumCall (maxNodes : Nat) where
  | hbUp (node : Fin maxNodes)
  | hbDown (node : Fin maxNodes)
  | hbStillUp (node : Fin maxNodes)
  | connUp (node : Fin maxNodes)
  | connErr (node : Fin maxNodes)
  | work
deriving DecidableEq, Repr

/-- A node that carries on, or one that fenced itself. -/
inductive Standing (maxNodes : Nat) where
  | running (qs : O2quoState maxNodes)
  | fenced
deriving DecidableEq

/-- One call; `none` for the calls that hit a `mlog_bug_on_msg`. -/
def quorumCall (thisNode : Fin maxNodes) (qs : O2quoState maxNodes) :
    QuorumCall maxNodes → Option (Standing maxNodes)
  | .hbUp node => (o2quoHbUp qs node).map .running
  | .hbDown node => (o2quoHbDown qs node).map .running
  | .hbStillUp node => (o2quoHbStillUp qs node).map .running
  | .connUp node => (o2quoConnUp qs node).map .running
  | .connErr node => (o2quoConnErr qs node).map .running
  | .work =>
      if qs.work then
        some (if o2quoMakeDecision thisNode qs then .fenced else .running { qs with work := false })
      else none

/-- The calls go on as long as the node runs. -/
def QuorumStep (thisNode : Fin maxNodes) (s : Standing maxNodes) (call : QuorumCall maxNodes)
    (t : Standing maxNodes) : Prop :=
  ∃ qs, s = .running qs ∧ quorumCall thisNode qs call = some t

/-! ## What a call keeps -/

/-- The counters count the bits, and no decision waits for a node that heartbeats and
is connected. -/
structure O2quoState.Sound (qs : O2quoState maxNodes) : Prop where
  heartbeating : qs.heartbeating = qs.hbBm.card
  connected : qs.connected = qs.connBm.card
  holds : qs.holds = qs.holdBm.card
  unsettled : ∀ node ∈ qs.holdBm, node ∉ qs.hbBm ∨ node ∉ qs.connBm

theorem sound_o2quoInit : (o2quoInit : O2quoState maxNodes).Sound := by
  refine ⟨rfl, rfl, rfl, fun node member => absurd member (Finset.notMem_empty node)⟩

/-- What a hold leaves of the state. -/
theorem o2quoSetHold_spec {qs t : O2quoState maxNodes} {node : Fin maxNodes}
    (count : qs.holds = qs.holdBm.card) (result : o2quoSetHold qs node = some t) :
    t.holds = t.holdBm.card ∧ t.holdBm = insert node qs.holdBm ∧
      t = { qs with holds := t.holds, holdBm := t.holdBm } := by
  simp only [o2quoSetHold] at result
  split at result
  · next held =>
      obtain rfl := Option.some.inj result
      exact ⟨count, (Finset.insert_eq_of_mem held).symm, rfl⟩
  · next free =>
      simp only [bugOn_eq_some, Option.some.injEq] at result
      obtain ⟨-, rfl⟩ := result
      refine ⟨?_, rfl, rfl⟩
      rw [Finset.card_insert_of_notMem free, count]
      rfl

/-- What dropping a hold leaves: the last one starts the decision that waits. -/
theorem o2quoClearHold_spec {qs t : O2quoState maxNodes} {node : Fin maxNodes}
    (count : qs.holds = qs.holdBm.card) (result : o2quoClearHold qs node = some t) :
    t.holds = t.holdBm.card ∧ t.holdBm = qs.holdBm.erase node ∧
      ((t.work = qs.work ∧ t.pending = qs.pending ∧
          (node ∈ qs.holdBm → t.holdBm = ∅ → qs.pending = false)) ∨
        (t.work = true ∧ t.pending = false ∧ t.holdBm = ∅)) ∧
      t.heartbeating = qs.heartbeating ∧ t.hbBm = qs.hbBm ∧ t.connected = qs.connected ∧
      t.connBm = qs.connBm := by
  simp only [o2quoClearHold] at result
  split at result
  · next held =>
      have fewer : qs.holds - 1 = (qs.holdBm.erase node).card := by
        have one : 0 < qs.holdBm.card := Finset.card_pos.2 ⟨node, held⟩
        rw [Finset.card_erase_of_mem held, count]
        omega
      simp only [bugOn_eq_some, Option.some.injEq] at result
      obtain ⟨-, rfl⟩ := result
      split
      · next last =>
          have empty : qs.holdBm.erase node = ∅ := by
            rw [← Finset.card_eq_zero]
            omega
          exact ⟨fewer, rfl, .inr ⟨rfl, rfl, empty⟩, rfl, rfl, rfl, rfl⟩
      · next more =>
          refine ⟨fewer, rfl, .inl ⟨rfl, rfl, fun _ empty => ?_⟩, rfl, rfl, rfl, rfl⟩
          by_contra asked
          have none : qs.holdBm.erase node = ∅ := empty
          refine more ⟨?_, by simpa using asked⟩
          rw [fewer, none]
          rfl
  · next free =>
      obtain rfl := Option.some.inj result
      exact ⟨count, (Finset.erase_eq_of_notMem free).symm,
        .inl ⟨rfl, rfl, fun held => absurd held free⟩, rfl, rfl, rfl, rfl⟩

section Holds

variable {qs t : O2quoState maxNodes} {node : Fin maxNodes}

/-- A hold on a node that is up in one way only. -/
theorem sound_o2quoSetHold (result : o2quoSetHold qs node = some t)
    (heartbeating : qs.heartbeating = qs.hbBm.card) (connected : qs.connected = qs.connBm.card)
    (holds : qs.holds = qs.holdBm.card)
    (others : ∀ other ∈ qs.holdBm, other ≠ node → other ∉ qs.hbBm ∨ other ∉ qs.connBm)
    (half : node ∉ qs.hbBm ∨ node ∉ qs.connBm) : t.Sound := by
  obtain ⟨count, bits, same⟩ := o2quoSetHold_spec holds result
  rw [same]
  refine ⟨heartbeating, connected, count, fun other member => ?_⟩
  rw [bits, Finset.mem_insert] at member
  rcases member with rfl | member
  · exact half
  · by_cases here : other = node
    · exact here ▸ half
    · exact others other member here

/-- No hold on a node whose fate is known. -/
theorem sound_o2quoClearHold (result : o2quoClearHold qs node = some t)
    (heartbeating : qs.heartbeating = qs.hbBm.card) (connected : qs.connected = qs.connBm.card)
    (holds : qs.holds = qs.holdBm.card)
    (others : ∀ other ∈ qs.holdBm, other ≠ node → other ∉ qs.hbBm ∨ other ∉ qs.connBm) :
    t.Sound := by
  obtain ⟨count, bits, -, hb, hbBm, conn, connBm⟩ := o2quoClearHold_spec holds result
  refine ⟨by rw [hb, hbBm, heartbeating], by rw [conn, connBm, connected], count, ?_⟩
  intro other member
  rw [bits, Finset.mem_erase] at member
  rw [hbBm, connBm]
  exact others other member.2 member.1

end Holds

theorem card_insert_int {bm : Finset (Fin maxNodes)} {node : Fin maxNodes} (free : node ∉ bm) :
    ((insert node bm).card : Int) = bm.card + 1 := by
  rw [Finset.card_insert_of_notMem free]
  rfl

theorem card_erase_int {bm : Finset (Fin maxNodes)} {node : Fin maxNodes} (held : node ∈ bm) :
    ((bm.erase node).card : Int) = bm.card - 1 := by
  have one : 0 < bm.card := Finset.card_pos.2 ⟨node, held⟩
  rw [Finset.card_erase_of_mem held]
  omega

theorem sound_o2quoHbUp {qs t : O2quoState maxNodes} {node : Fin maxNodes} (sound : qs.Sound)
    (result : o2quoHbUp qs node = some t) : t.Sound := by
  simp only [o2quoHbUp, bugOn_eq_some] at result
  obtain ⟨-, new, result⟩ := result
  have counts : qs.heartbeating + 1 = (insert node qs.hbBm).card := by
    rw [card_insert_int new, sound.heartbeating]
  have others : ∀ other ∈ qs.holdBm, other ≠ node →
      other ∉ insert node qs.hbBm ∨ other ∉ qs.connBm := by
    intro other member different
    rw [Finset.mem_insert, not_or]
    exact (sound.unsettled other member).imp_left fun down => ⟨different, down⟩
  split at result
  · next apart =>
      exact sound_o2quoSetHold result counts sound.connected sound.holds others (.inr apart)
  · exact sound_o2quoClearHold result counts sound.connected sound.holds others

theorem sound_o2quoConnUp {qs t : O2quoState maxNodes} {node : Fin maxNodes} (sound : qs.Sound)
    (result : o2quoConnUp qs node = some t) : t.Sound := by
  simp only [o2quoConnUp, bugOn_eq_some] at result
  obtain ⟨-, new, result⟩ := result
  have counts : qs.connected + 1 = (insert node qs.connBm).card := by
    rw [card_insert_int new, sound.connected]
  have others : ∀ other ∈ qs.holdBm, other ≠ node →
      other ∉ qs.hbBm ∨ other ∉ insert node qs.connBm := by
    intro other member different
    rw [Finset.mem_insert, not_or]
    exact (sound.unsettled other member).imp_right fun down => ⟨different, down⟩
  split at result
  · next apart =>
      exact sound_o2quoSetHold result sound.heartbeating counts sound.holds others (.inl apart)
  · exact sound_o2quoClearHold result sound.heartbeating counts sound.holds others

theorem sound_o2quoHbDown {qs t : O2quoState maxNodes} {node : Fin maxNodes} (sound : qs.Sound)
    (result : o2quoHbDown qs node = some t) : t.Sound := by
  simp only [o2quoHbDown, bugOn_eq_some, not_not] at result
  obtain ⟨-, up, result⟩ := result
  have counts : qs.heartbeating - 1 = (qs.hbBm.erase node).card := by
    rw [card_erase_int up, sound.heartbeating]
  refine sound_o2quoClearHold result counts sound.connected sound.holds fun other member _ => ?_
  exact (sound.unsettled other member).imp_left fun down both => down (Finset.mem_of_mem_erase both)

theorem sound_o2quoConnErr {qs t : O2quoState maxNodes} {node : Fin maxNodes} (sound : qs.Sound)
    (result : o2quoConnErr qs node = some t) : t.Sound := by
  simp only [o2quoConnErr] at result
  split at result
  · next up =>
      have counts : qs.connected - 1 = (qs.connBm.erase node).card := by
        rw [card_erase_int up, sound.connected]
      have fewer : ∀ other ∈ qs.holdBm, other ∉ qs.hbBm ∨ other ∉ qs.connBm.erase node :=
        fun other member => (sound.unsettled other member).imp_right
          fun down both => down (Finset.mem_of_mem_erase both)
      rw [bugOn_eq_some] at result
      obtain ⟨-, result⟩ := result
      split at result
      · exact sound_o2quoSetHold result sound.heartbeating counts sound.holds
          (fun other member _ => fewer other member) (.inr (Finset.notMem_erase node qs.connBm))
      · obtain rfl := Option.some.inj result
        exact ⟨sound.heartbeating, counts, sound.holds, fewer⟩
  · obtain rfl := Option.some.inj result
    exact sound

theorem sound_o2quoHbStillUp {qs t : O2quoState maxNodes} {node : Fin maxNodes} (sound : qs.Sound)
    (result : o2quoHbStillUp qs node = some t) : t.Sound :=
  sound_o2quoClearHold result sound.heartbeating sound.connected sound.holds
    fun other member _ => sound.unsettled other member

/-! ## Behind every run -/

/-- The node a call is about. -/
def QuorumCall.node : QuorumCall maxNodes → Option (Fin maxNodes)
  | .hbUp node => some node
  | .hbDown node => some node
  | .hbStillUp node => some node
  | .connUp node => some node
  | .connErr node => some node
  | .work => none

/-- The callers report changes only, and the work runs when it is scheduled. -/
def QuorumCall.Reports (qs : O2quoState maxNodes) : QuorumCall maxNodes → Prop
  | .hbUp node => node ∉ qs.hbBm
  | .hbDown node => node ∈ qs.hbBm
  | .hbStillUp _ => True
  | .connUp node => node ∉ qs.connBm
  | .connErr _ => True
  | .work => qs.work = true

theorem sound_quorumCall {thisNode : Fin maxNodes} {qs t : O2quoState maxNodes}
    {call : QuorumCall maxNodes} (sound : qs.Sound)
    (result : quorumCall thisNode qs call = some (.running t)) : t.Sound := by
  cases call with
  | hbUp node =>
      obtain ⟨u, result, same⟩ := Option.map_eq_some_iff.1 result
      cases same
      exact sound_o2quoHbUp sound result
  | hbDown node =>
      obtain ⟨u, result, same⟩ := Option.map_eq_some_iff.1 result
      cases same
      exact sound_o2quoHbDown sound result
  | hbStillUp node =>
      obtain ⟨u, result, same⟩ := Option.map_eq_some_iff.1 result
      cases same
      exact sound_o2quoHbStillUp sound result
  | connUp node =>
      obtain ⟨u, result, same⟩ := Option.map_eq_some_iff.1 result
      cases same
      exact sound_o2quoConnUp sound result
  | connErr node =>
      obtain ⟨u, result, same⟩ := Option.map_eq_some_iff.1 result
      cases same
      exact sound_o2quoConnErr sound result
  | work =>
      simp only [quorumCall] at result
      split at result
      · split at result
        · cases result
        · cases result
          exact ⟨sound.heartbeating, sound.connected, sound.holds, sound.unsettled⟩
      · cases result

/-- The bits of a cluster of these nodes. -/
structure O2quoState.Among (nodes : Finset (Fin maxNodes)) (qs : O2quoState maxNodes) : Prop where
  hb : qs.hbBm ⊆ nodes
  conn : qs.connBm ⊆ nodes
  hold : qs.holdBm ⊆ nodes

theorem among_quorumCall {thisNode : Fin maxNodes} {nodes : Finset (Fin maxNodes)}
    {qs t : O2quoState maxNodes} {call : QuorumCall maxNodes} (among : qs.Among nodes)
    (member : ∀ node, call.node = some node → node ∈ nodes)
    (result : quorumCall thisNode qs call = some (.running t)) : t.Among nodes := by
  obtain ⟨hb, conn, hold⟩ := among
  cases call <;>
    simp only [quorumCall, o2quoHbUp, o2quoHbDown, o2quoHbStillUp, o2quoConnUp, o2quoConnErr,
      o2quoSetHold, o2quoClearHold, Option.map_eq_some_iff, QuorumCall.node] at result member <;>
    grind [O2quoState.Among, bugOn_eq_some]

section Enabled

variable {nodes : Finset (Fin maxNodes)} (few : nodes.card < maxNodes) {qs : O2quoState maxNodes}
  {node : Fin maxNodes}

theorem lt_of_subset_insert {bm : Finset (Fin maxNodes)} (inside : bm ⊆ nodes)
    (member : node ∈ nodes) (few : nodes.card < maxNodes) (free : node ∉ bm) :
    (bm.card : Int) + 1 < maxNodes := by
  have more : (insert node bm).card ≤ nodes.card :=
    Finset.card_le_card (Finset.insert_subset member inside)
  rw [Finset.card_insert_of_notMem free] at more
  omega

include few in
theorem o2quoSetHold_isSome (count : qs.holds = qs.holdBm.card) (inside : qs.holdBm ⊆ nodes)
    (member : node ∈ nodes) : (o2quoSetHold qs node).isSome := by
  simp only [o2quoSetHold]
  split
  · rfl
  · next free =>
      have less := lt_of_subset_insert inside member few free
      rw [bugOn, if_neg (by omega)]
      rfl

theorem o2quoClearHold_isSome (count : qs.holds = qs.holdBm.card) :
    (o2quoClearHold qs node).isSome := by
  simp only [o2quoClearHold]
  split
  · next held =>
      have one : 0 < qs.holdBm.card := Finset.card_pos.2 ⟨node, held⟩
      rw [bugOn, if_neg (by split <;> simp only <;> omega)]
      rfl
  · rfl

include few in
/-- With fewer nodes than bits a call fails only where its caller broke the rules. -/
theorem quorumCall_isSome_iff {thisNode : Fin maxNodes} {call : QuorumCall maxNodes}
    (sound : qs.Sound) (among : qs.Among nodes)
    (member : ∀ node, call.node = some node → node ∈ nodes) :
    (quorumCall thisNode qs call).isSome ↔ call.Reports qs := by
  cases call with
  | hbUp node =>
      have here := member node rfl
      simp only [quorumCall, Option.isSome_map, QuorumCall.Reports, o2quoHbUp]
      by_cases up : node ∈ qs.hbBm
      · simp [bugOn, up]
      · have less := lt_of_subset_insert among.hb here few up
        rw [bugOn, if_neg (by rw [sound.heartbeating]; omega), bugOn, if_neg up]
        refine iff_of_true ?_ up
        split
        · exact o2quoSetHold_isSome few sound.holds among.hold here
        · exact o2quoClearHold_isSome sound.holds
  | hbDown node =>
      simp only [quorumCall, Option.isSome_map, QuorumCall.Reports, o2quoHbDown]
      by_cases up : node ∈ qs.hbBm
      · have one : 0 < qs.hbBm.card := Finset.card_pos.2 ⟨node, up⟩
        rw [bugOn, if_neg (by rw [sound.heartbeating]; omega), bugOn, if_neg (not_not.2 up)]
        exact iff_of_true (o2quoClearHold_isSome sound.holds) up
      · simp [bugOn, up]
  | hbStillUp node =>
      simp only [quorumCall, Option.isSome_map, QuorumCall.Reports, iff_true]
      exact o2quoClearHold_isSome sound.holds
  | connUp node =>
      have here := member node rfl
      simp only [quorumCall, Option.isSome_map, QuorumCall.Reports, o2quoConnUp]
      by_cases up : node ∈ qs.connBm
      · simp [bugOn, up]
      · have less := lt_of_subset_insert among.conn here few up
        rw [bugOn, if_neg (by rw [sound.connected]; omega), bugOn, if_neg up]
        refine iff_of_true ?_ up
        split
        · exact o2quoSetHold_isSome few sound.holds among.hold here
        · exact o2quoClearHold_isSome sound.holds
  | connErr node =>
      have here := member node rfl
      simp only [quorumCall, Option.isSome_map, QuorumCall.Reports, iff_true, o2quoConnErr]
      split
      · next up =>
          have one : 0 < qs.connBm.card := Finset.card_pos.2 ⟨node, up⟩
          rw [bugOn, if_neg (by rw [sound.connected]; omega)]
          split
          · exact o2quoSetHold_isSome few sound.holds among.hold here
          · rfl
      · rfl
  | work =>
      simp only [quorumCall, QuorumCall.Reports]
      split
      · next due => simp [due]
      · next idle => simp [idle]

end Enabled

/-- The calls behind a state, one after another. -/
def quorumCalls (thisNode : Fin maxNodes) :
    Standing maxNodes → List (QuorumCall maxNodes) → Option (Standing maxNodes)
  | s, [] => some s
  | .running qs, call :: calls => (quorumCall thisNode qs call).bind (quorumCalls thisNode · calls)
  | .fenced, _ :: _ => none

theorem run_of_quorumCalls {thisNode : Fin maxNodes} {start s t : Standing maxNodes}
    {before : List (QuorumCall maxNodes)} (calls : List (QuorumCall maxNodes))
    (run : Run (QuorumStep thisNode) start before s)
    (result : quorumCalls thisNode s calls = some t) :
    Run (QuorumStep thisNode) start (before ++ calls) t := by
  induction calls generalizing s before with
  | nil =>
      cases result
      rwa [List.append_nil]
  | cons call calls inductionHypothesis =>
      cases s with
      | fenced => cases result
      | running qs =>
          obtain ⟨u, first, rest⟩ := Option.bind_eq_some_iff.1 result
          have next := inductionHypothesis (run.snoc ⟨qs, rfl, first⟩) rest
          rwa [List.append_cons]

section Reached

variable {thisNode : Fin maxNodes} {calls : List (QuorumCall maxNodes)} {qs : O2quoState maxNodes}

/-- What holds of every state a node runs in. -/
theorem sound_of_run (run : Run (QuorumStep thisNode) (.running o2quoInit) calls (.running qs)) :
    qs.Sound := by
  have kept := run.invariant (fun s => ∀ qs, s = .running qs → qs.Sound)
    (fun qs same => by cases same; exact sound_o2quoInit)
    (fun s call t before step u same => by
      obtain ⟨qs, rfl, result⟩ := step
      subst same
      exact sound_quorumCall (before qs rfl) result)
  exact kept qs rfl

theorem among_of_run {nodes : Finset (Fin maxNodes)}
    (run : Run (QuorumStep thisNode) (.running o2quoInit) calls (.running qs))
    (members : ∀ call ∈ calls, ∀ node, call.node = some node → node ∈ nodes) :
    qs.Among nodes := by
  have kept := run.history
    (fun calls s => (∀ call ∈ calls, ∀ node, call.node = some node → node ∈ nodes) →
      ∀ qs, s = .running qs → qs.Among nodes)
    (fun _ qs same => by
      cases same
      exact ⟨Finset.empty_subset _, Finset.empty_subset _, Finset.empty_subset _⟩)
    (fun calls s call t before step members u same => by
      obtain ⟨qs, rfl, result⟩ := step
      subst same
      rw [List.forall_mem_append] at members
      exact among_quorumCall (before members.1 qs rfl) (members.2 call List.mem_cons_self) result)
  exact kept members qs rfl

/-- In a cluster of fewer nodes than `O2NM_MAX_NODES`, in any order of the calls, the
counters count the bits, a node that heartbeats and is connected delays no decision, and
no call hits a `mlog_bug_on_msg` except one that reports what is so already. -/
theorem quorumCalls_sound {nodes : Finset (Fin maxNodes)} (few : nodes.card < maxNodes)
    (run : Run (QuorumStep thisNode) (.running o2quoInit) calls (.running qs))
    (members : ∀ call ∈ calls, ∀ node, call.node = some node → node ∈ nodes) :
    qs.Sound ∧ ∀ call : QuorumCall maxNodes, (∀ node, call.node = some node → node ∈ nodes) →
      ((quorumCall thisNode qs call).isSome ↔ call.Reports qs) :=
  ⟨sound_of_run run, fun _ member =>
    quorumCall_isSome_iff few (sound_of_run run) (among_of_run run members) member⟩

end Reached

/-- Two nodes in a cluster that has room for four. -/
theorem quorumCalls_sound_pair :
    ∃ qs : O2quoState 4, Run (QuorumStep 0) (.running o2quoInit) [.connUp 0, .hbUp 0, .hbUp 1]
      (.running qs) ∧ qs.Sound ∧ (quorumCall 0 qs (.hbUp 1)).isSome = false := by
  have run : Run (QuorumStep (0 : Fin 4)) (.running o2quoInit) [.connUp 0, .hbUp 0, .hbUp 1]
      (.running ⟨false, false, 2, {1, 0}, 1, {0}, 1, {1}⟩) :=
    run_of_quorumCalls _ .nil (by decide +kernel)
  have sound := quorumCalls_sound (show ({0, 1} : Finset (Fin 4)).card < 4 by decide) run (by decide)
  refine ⟨_, run, sound.1, ?_⟩
  rw [Bool.eq_false_iff, ne_eq, sound.2 (.hbUp 1) (by decide)]
  exact fun new => new (by decide)

end Ocfs2Coverage.Cluster
