import Ocfs2Coverage.Cluster.Quorum

/-!
Contract: the quorum decision and what it means for a cluster that falls apart.

Owns: when a node carries on, that no two groups of a divided cluster both do, and
that no decision somebody asked for is lost.

Does not own: which calls the network makes as it falls apart.
-/

namespace Ocfs2Coverage.Cluster

open Ocfs2Coverage.Kernel
open Ocfs2Coverage.Majority
open Ocfs2Coverage.Runs

variable {maxNodes : Nat}

/-! ## The decision on sets -/

theorem findFirstBit_mem {bm : Finset (Fin maxNodes)} {lowest : Fin maxNodes}
    (found : findFirstBit bm = some lowest) : lowest ∈ bm := by
  simpa using List.find?_some found

theorem findFirstBit_isSome {bm : Finset (Fin maxNodes)} (some : bm.Nonempty) :
    ∃ lowest, findFirstBit bm = .some lowest := by
  obtain ⟨node, member⟩ := some
  rw [← Option.isSome_iff_exists]
  simp only [findFirstBit, List.find?_isSome, decide_eq_true_eq]
  exact ⟨node, List.mem_finRange node, member⟩

/-- A node that heartbeats with others carries on exactly when its connections outweigh
the rest, the lowest node breaking a tie. -/
theorem o2quoMakeDecision_iff {qs : O2quoState maxNodes} (sound : qs.Sound)
    {thisNode lowest : Fin maxNodes} (member : thisNode ∈ qs.hbBm) (several : 1 < qs.hbBm.card)
    (first : findFirstBit qs.hbBm = some lowest) :
    o2quoMakeDecision thisNode qs = false ↔ Outweighs qs.hbBm qs.connBm lowest := by
  have alone : ¬ (thisNode ∉ qs.hbBm ∨ qs.heartbeating = 1) := by
    rw [sound.heartbeating]
    rintro (outside | one)
    · exact outside member
    · omega
  simp only [o2quoMakeDecision, first, Outweighs]
  rw [if_neg alone, sound.heartbeating, sound.connected]
  split
  · next odd =>
      rw [decide_eq_false_iff_not]
      constructor
      · intro reached
        left
        omega
      · rintro (many | ⟨half, -⟩) <;> omega
  · next even =>
      split
      · next few =>
          refine iff_of_false (by simp) ?_
          rintro (many | ⟨half, -⟩) <;> omega
      · next enough =>
          rw [Bool.and_eq_false_iff, decide_eq_false_iff_not, Bool.not_eq_false',
            decide_eq_true_eq]
          constructor
          · rintro (more | reachable)
            · left
              omega
            · by_cases half : qs.hbBm.card = 2 * qs.connBm.card
              · exact .inr ⟨half, reachable⟩
              · left
                omega
          · rintro (many | ⟨-, reachable⟩)
            · left
              omega
            · exact .inr reachable

/-! ## A cluster that falls apart -/

/-- Nodes that all see the same heartbeats, each behind a run of its own, and connected
in groups: two nodes have the same connections or none in common. -/
structure Divided (whole : Finset (Fin maxNodes)) (state : Fin maxNodes → O2quoState maxNodes) :
    Prop where
  reached : ∀ node ∈ whole, ∃ calls,
    Run (QuorumStep node) (.running o2quoInit) calls (.running (state node))
  heartbeats : ∀ node ∈ whole, (state node).hbBm = whole
  inside : ∀ node ∈ whole, (state node).connBm ⊆ whole
  groups : ∀ node ∈ whole, ∀ other ∈ whole,
    (state node).connBm = (state other).connBm ∨ Disjoint (state node).connBm (state other).connBm

theorem Divided.decision_iff {whole : Finset (Fin maxNodes)}
    {state : Fin maxNodes → O2quoState maxNodes} (divided : Divided whole state)
    (several : 1 < whole.card) {lowest node : Fin maxNodes}
    (first : findFirstBit whole = some lowest) (member : node ∈ whole) :
    o2quoMakeDecision node (state node) = false ↔ Outweighs whole (state node).connBm lowest := by
  obtain ⟨calls, run⟩ := divided.reached node member
  have view := divided.heartbeats node member
  rw [← view] at member several first
  rw [o2quoMakeDecision_iff (sound_of_run run) member several first, view]

/-- The nodes that carry on are all in one group, and of two groups exactly one carries
on. -/
theorem divided_one_carries_on {whole : Finset (Fin maxNodes)}
    {state : Fin maxNodes → O2quoState maxNodes} (divided : Divided whole state)
    (several : 1 < whole.card) {node other : Fin maxNodes} (member : node ∈ whole)
    (member' : other ∈ whole) :
    (o2quoMakeDecision node (state node) = false → o2quoMakeDecision other (state other) = false →
        (state node).connBm = (state other).connBm) ∧
      ((state other).connBm = whole \ (state node).connBm →
        o2quoMakeDecision other (state other) = !o2quoMakeDecision node (state node)) := by
  obtain ⟨lowest, first⟩ := findFirstBit_isSome ⟨node, member⟩
  have decision := divided.decision_iff several first member
  have decision' := divided.decision_iff several first member'
  constructor
  · intro survives survives'
    refine (divided.groups node member other member').resolve_right fun apart => ?_
    have common := (decision.1 survives).meet (divided.inside node member)
      (decision'.1 survives') (divided.inside other member')
    rw [Finset.disjoint_iff_inter_eq_empty.1 apart] at common
    exact Finset.not_nonempty_empty common
  · intro rest
    rw [rest, outweighs_sdiff_iff (divided.inside node member) (findFirstBit_mem first),
      ← decision] at decision'
    cases fenced : o2quoMakeDecision node (state node) with
    | false =>
        rw [fenced] at decision'
        simpa using decision'
    | true =>
        rw [fenced] at decision'
        simpa using decision'

/-! ## Decisions that are asked for -/

/-- Somebody asked for a decision after the last one that was made. -/
def Asked (calls : List (QuorumCall maxNodes)) : Prop :=
  ∃ before node after, calls = before ++ QuorumCall.hbStillUp node :: after ∧
    QuorumCall.work ∉ after

theorem asked_snoc {calls : List (QuorumCall maxNodes)} {call : QuorumCall maxNodes}
    (asked : Asked (calls ++ [call])) :
    (∃ node, call = .hbStillUp node) ∨ call ≠ .work ∧ Asked calls := by
  obtain ⟨before, node, after, split, none⟩ := asked
  rcases List.eq_nil_or_concat after with rfl | ⟨earlier, last, rfl⟩
  · have same := (List.append_inj' split rfl).2
    exact .inl ⟨node, List.head_eq_of_cons_eq same⟩
  · rw [List.concat_eq_append, ← List.cons_append, ← List.append_assoc] at split
    have same := List.append_inj' split rfl
    have here : call = last := List.head_eq_of_cons_eq same.2
    rw [List.concat_eq_append, List.mem_append, not_or] at none
    refine .inr ⟨fun isWork => none.2 ?_, before, node, earlier, same.1, none.1⟩
    rw [← here, isWork]
    exact List.mem_cons_self

/-- As `o2quo_hb_still_up` is meant to be called: for a node that holds the decision up. -/
def OrderlyStep (thisNode : Fin maxNodes) (s : Standing maxNodes) (call : QuorumCall maxNodes)
    (t : Standing maxNodes) : Prop :=
  ∃ qs, s = .running qs ∧ quorumCall thisNode qs call = some t ∧
    ∀ node, call = .hbStillUp node → node ∈ qs.holdBm

/-- A decision is scheduled, or waits for a hold that is still there. -/
structure O2quoState.Awaits (qs : O2quoState maxNodes) : Prop where
  count : qs.holds = qs.holdBm.card
  waits : qs.pending = true → qs.holdBm.Nonempty

theorem awaits_o2quoSetHold {qs t : O2quoState maxNodes} {node : Fin maxNodes}
    (awaits : qs.Awaits) (result : o2quoSetHold qs node = some t) :
    t.Awaits ∧ t.work = qs.work ∧ t.pending = qs.pending := by
  obtain ⟨count, bits, same⟩ := o2quoSetHold_spec awaits.count result
  rw [same]
  refine ⟨⟨count, fun _ => ?_⟩, rfl, rfl⟩
  show t.holdBm.Nonempty
  rw [bits]
  exact Finset.insert_nonempty node qs.holdBm

/-- The last hold that is dropped takes the decision with it. -/
theorem awaits_o2quoClearHold {qs t : O2quoState maxNodes} {node : Fin maxNodes}
    (result : o2quoClearHold qs node = some t) (count : qs.holds = qs.holdBm.card)
    (waits : qs.pending = true → qs.holdBm.Nonempty) :
    t.Awaits ∧ (qs.work = true ∨ qs.pending = true → t.work = true ∨ t.pending = true) := by
  obtain ⟨count', bits, flags, -⟩ := o2quoClearHold_spec count result
  rcases flags with ⟨work, pending, last⟩ | ⟨work, pending, -⟩
  · refine ⟨⟨count', fun asked => ?_⟩, fun due => by rwa [work, pending]⟩
    rw [pending] at asked
    by_contra empty
    rw [Finset.not_nonempty_iff_eq_empty] at empty
    have before : qs.holdBm = {node} := by
      have some := waits asked
      rw [bits] at empty
      exact (Finset.erase_eq_empty_iff _ _).1 empty |>.resolve_left some.ne_empty
    have held : node ∈ qs.holdBm := by
      rw [before]
      exact Finset.mem_singleton_self node
    rw [last held empty] at asked
    cases asked
  · exact ⟨⟨count', fun asked => by rw [pending] at asked; cases asked⟩, fun _ => .inl work⟩

/-- A decision that is scheduled or waits. -/
def O2quoState.Due (qs : O2quoState maxNodes) : Prop := qs.work = true ∨ qs.pending = true

theorem due_of_hold {qs u t : O2quoState maxNodes} (node : Fin maxNodes)
    (result : o2quoSetHold u node = some t ∨ o2quoClearHold u node = some t ∨ some u = some t)
    (awaits : qs.Awaits) (same : u.holds = qs.holds ∧ u.holdBm = qs.holdBm ∧
      u.pending = qs.pending ∧ u.work = qs.work) :
    t.Awaits ∧ (qs.Due → t.Due) := by
  obtain ⟨holds, bits, pending, work⟩ := same
  have awaits' : u.Awaits := by
    refine ⟨by rw [holds, bits, awaits.count], fun asked => ?_⟩
    rw [bits]
    exact awaits.waits (pending ▸ asked)
  have due : qs.Due → u.Due := fun due => by rwa [O2quoState.Due, work, pending]
  rcases result with set | clear | none
  · obtain ⟨awaits'', work', pending'⟩ := awaits_o2quoSetHold awaits' set
    refine ⟨awaits'', fun before => ?_⟩
    rw [O2quoState.Due, work', pending']
    exact due before
  · obtain ⟨awaits'', kept⟩ := awaits_o2quoClearHold clear awaits'.count awaits'.waits
    exact ⟨awaits'', fun before => kept (due before)⟩
  · cases none
    exact ⟨awaits', due⟩

theorem due_quorumCall {thisNode : Fin maxNodes} {qs t : O2quoState maxNodes}
    {call : QuorumCall maxNodes} (awaits : qs.Awaits)
    (orderly : ∀ node, call = .hbStillUp node → node ∈ qs.holdBm)
    (result : quorumCall thisNode qs call = some (.running t)) :
    t.Awaits ∧ ((∃ node, call = .hbStillUp node) → t.Due) ∧ (call ≠ .work → qs.Due → t.Due) := by
  cases call with
  | hbUp node =>
      obtain ⟨u, result, same⟩ := Option.map_eq_some_iff.1 result
      cases same
      simp only [o2quoHbUp, bugOn_eq_some] at result
      obtain ⟨-, -, result⟩ := result
      have kept : t.Awaits ∧ (qs.Due → t.Due) := by
        split at result
        · exact due_of_hold node (.inl result) awaits ⟨rfl, rfl, rfl, rfl⟩
        · exact due_of_hold node (.inr (.inl result)) awaits ⟨rfl, rfl, rfl, rfl⟩
      exact ⟨kept.1, fun still => by simp at still, fun _ => kept.2⟩
  | hbDown node =>
      obtain ⟨u, result, same⟩ := Option.map_eq_some_iff.1 result
      cases same
      simp only [o2quoHbDown, bugOn_eq_some] at result
      have kept := due_of_hold node (.inr (.inl result.2.2)) awaits ⟨rfl, rfl, rfl, rfl⟩
      exact ⟨kept.1, fun still => by simp at still, fun _ => kept.2⟩
  | hbStillUp node =>
      obtain ⟨u, result, same⟩ := Option.map_eq_some_iff.1 result
      cases same
      obtain ⟨awaits', kept⟩ := awaits_o2quoClearHold result awaits.count
        fun _ => ⟨node, orderly node rfl⟩
      exact ⟨awaits', fun _ => kept (.inr rfl), fun _ _ => kept (.inr rfl)⟩
  | connUp node =>
      obtain ⟨u, result, same⟩ := Option.map_eq_some_iff.1 result
      cases same
      simp only [o2quoConnUp, bugOn_eq_some] at result
      obtain ⟨-, -, result⟩ := result
      have kept : t.Awaits ∧ (qs.Due → t.Due) := by
        split at result
        · exact due_of_hold node (.inl result) awaits ⟨rfl, rfl, rfl, rfl⟩
        · exact due_of_hold node (.inr (.inl result)) awaits ⟨rfl, rfl, rfl, rfl⟩
      exact ⟨kept.1, fun still => by simp at still, fun _ => kept.2⟩
  | connErr node =>
      obtain ⟨u, result, same⟩ := Option.map_eq_some_iff.1 result
      cases same
      simp only [o2quoConnErr] at result
      split at result
      · rw [bugOn_eq_some] at result
        obtain ⟨-, result⟩ := result
        have kept : t.Awaits ∧ (qs.Due → t.Due) := by
          split at result
          · exact due_of_hold node (.inl result) awaits ⟨rfl, rfl, rfl, rfl⟩
          · exact due_of_hold node (.inr (.inr result)) awaits ⟨rfl, rfl, rfl, rfl⟩
        exact ⟨kept.1, fun still => by simp at still, fun _ => kept.2⟩
      · cases result
        exact ⟨awaits, fun still => by simp at still, fun _ due => due⟩
  | work =>
      simp only [quorumCall] at result
      split at result
      · split at result
        · cases result
        · cases result
          exact ⟨⟨awaits.count, awaits.waits⟩, fun still => by simp at still,
            fun notWork => absurd rfl notWork⟩
      · cases result

/-- No decision is lost: once somebody asked for one, it is scheduled as soon as no node
holds it up, whatever was called in between. -/
theorem asked_decision_is_made {thisNode : Fin maxNodes} {calls : List (QuorumCall maxNodes)}
    {qs : O2quoState maxNodes}
    (run : Run (OrderlyStep thisNode) (.running o2quoInit) calls (.running qs))
    (asked : Asked calls) (drained : qs.holdBm = ∅) : qs.work = true := by
  have kept := run.history
    (fun calls s => ∀ qs, s = .running qs → qs.Awaits ∧ (Asked calls → qs.Due))
    (fun qs same => by
      cases same
      refine ⟨⟨rfl, fun pending => by cases pending⟩, ?_⟩
      rintro ⟨before, node, after, split, -⟩
      simp at split)
    (fun calls s call t before step u same => by
      obtain ⟨qs, rfl, result, orderly⟩ := step
      subst same
      obtain ⟨awaits, due⟩ := before qs rfl
      obtain ⟨awaits', still, other⟩ := due_quorumCall awaits orderly result
      refine ⟨awaits', fun asked => ?_⟩
      rcases asked_snoc asked with here | ⟨notWork, earlier⟩
      · exact still here
      · exact other notWork (due earlier))
  obtain ⟨awaits, due⟩ := kept qs rfl
  refine (due asked).resolve_right fun pending => ?_
  exact (awaits.waits pending).ne_empty drained

section Sample

/-- Three nodes; the third one loses its connections to the others. -/
def splitCalls (thisNode : Fin 4) : List (QuorumCall 4) :=
  [.connUp thisNode, .hbUp 0, .hbUp 1, .hbUp 2] ++
    (if thisNode = 2 then
      [.connUp 0, .connUp 1, .connErr 0, .connErr 1, .hbStillUp 0, .hbStillUp 1]
    else [.connUp (1 - thisNode), .connUp 2, .connErr 2, .hbStillUp 2])

def splitState (thisNode : Fin 4) : O2quoState 4 :=
  let conn := if thisNode = 2 then {2} else {1 - thisNode, thisNode}
  ⟨true, false, 3, {2, 1, 0}, conn.card, conn, 0, ∅⟩

theorem divided_splitState : Divided {0, 1, 2} splitState := by
  refine ⟨fun node member => ⟨splitCalls node, ?_⟩, by decide, by decide, by decide⟩
  apply run_of_quorumCalls (splitCalls node) .nil
  revert node
  decide +kernel

theorem divided_one_carries_on_splitState :
    o2quoMakeDecision 0 (splitState 0) = false ∧ o2quoMakeDecision 1 (splitState 1) = false ∧
      (splitState 0).connBm = (splitState 1).connBm ∧ o2quoMakeDecision 2 (splitState 2) = true :=
  have survives : o2quoMakeDecision 0 (splitState 0) = false := by decide
  have survives' : o2quoMakeDecision 1 (splitState 1) = false := by decide
  have together := divided_one_carries_on divided_splitState (by decide)
    (show (0 : Fin 4) ∈ {0, 1, 2} by decide) (show (1 : Fin 4) ∈ {0, 1, 2} by decide)
  have apart := divided_one_carries_on divided_splitState (by decide)
    (show (0 : Fin 4) ∈ {0, 1, 2} by decide) (show (2 : Fin 4) ∈ {0, 1, 2} by decide)
  ⟨survives, survives', together.1 survives survives', by rw [apart.2 (by decide), survives]; rfl⟩

/-- Calls that ask for no decision are orderly. -/
theorem orderly_of_run {thisNode : Fin maxNodes} {calls : List (QuorumCall maxNodes)}
    {start s : Standing maxNodes} (run : Run (QuorumStep thisNode) start calls s)
    (none : ∀ node, QuorumCall.hbStillUp node ∉ calls) :
    Run (OrderlyStep thisNode) start calls s := by
  induction run with
  | nil => exact .nil
  | snoc _ last inductionHypothesis =>
      obtain ⟨qs, rfl, result⟩ := last
      refine (inductionHypothesis fun node member => ?_).snoc ⟨qs, rfl, result, fun node here => ?_⟩
      · exact none node (List.mem_append_left _ member)
      · exact absurd (List.mem_append_right _ (here ▸ List.mem_cons_self)) (none node)

theorem asked_decision_is_made_connErr :
    ∃ qs : O2quoState 4, Run (OrderlyStep 0) (.running o2quoInit)
      ([.connUp 0, .hbUp 0, .hbUp 1, .connUp 1, .connErr 1] ++ [.hbStillUp 1]) (.running qs) ∧
      qs.work = true := by
  have before : Run (QuorumStep (0 : Fin 4)) (.running o2quoInit)
      [.connUp 0, .hbUp 0, .hbUp 1, .connUp 1, .connErr 1]
      (.running ⟨false, false, 2, {1, 0}, 1, {0}, 1, {1}⟩) :=
    run_of_quorumCalls _ .nil (by decide +kernel)
  have run := (orderly_of_run before (by decide)).snoc
    (show OrderlyStep 0 _ (.hbStillUp 1) (.running ⟨true, false, 2, {1, 0}, 1, {0}, 0, ∅⟩) from
      ⟨_, rfl, by decide +kernel, by decide⟩)
  exact ⟨_, run, asked_decision_is_made run ⟨_, 1, [], rfl, List.not_mem_nil⟩ rfl⟩

end Sample

end Ocfs2Coverage.Cluster
