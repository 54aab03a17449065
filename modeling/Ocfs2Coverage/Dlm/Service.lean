import Ocfs2Coverage.Dlm.Exclusion

/-!
Contract: the order in which the thread serves what waits for a lock resource.

Owns: that it takes both queues from their heads, conversions before new locks, gives each
lock what it waits for, and stops only where something is really in the way.

Does not own: when the thread runs.
-/

namespace Ocfs2Coverage.Dlm

variable {Lvb : Type} {res t u : DlmLockResource Lvb} {c target : Cookie}

/-- The conversions and the new locks that are served, in order. -/
structure Serves (res t : DlmLockResource Lvb) (converted unblocked : List Cookie) : Prop where
  converting : res.queues.converting = converted ++ t.queues.converting
  blocked : res.queues.blocked = unblocked ++ t.queues.blocked
  granted : t.queues.granted = res.queues.granted ++ converted ++ unblocked
  before : unblocked ≠ [] → t.queues.converting = []
  convert : ∀ c ∈ converted, ∃ mode, (res.copy c).lock.convertType = some mode ∧
    t.copy c = ⟨some .granted, { (res.copy c).lock with type := mode, convertType := none },
      (res.copy c).asts + 1⟩
  unblock : ∀ c ∈ unblocked,
    t.copy c = ⟨some .granted, (res.copy c).lock, (res.copy c).asts + 1⟩
  others : ∀ c, c ∉ converted → c ∉ unblocked → t.copy c = res.copy c
  lvb : t.lvb = res.lvb

theorem Serves.of_noted (noted : Noted res t) : Serves res t [] [] where
  converting := by rw [noted.queues, List.nil_append]
  blocked := by rw [noted.queues, List.nil_append]
  granted := by rw [noted.queues, List.append_nil, List.append_nil]
  before some := absurd rfl some
  convert _ member := by cases member
  unblock _ member := by cases member
  others d _ _ := noted.copy d
  lvb := noted.lvb

theorem filter_cons_self {l : List Cookie} (nodup : (c :: l).Nodup) :
    (c :: l).filter (· ≠ c) = l := by
  have apart := (List.nodup_cons.1 nodup).1
  rw [List.filter_cons_of_neg (by simp), List.filter_eq_self]
  intro d member
  simpa using fun same : d = c => apart (same ▸ member)

theorem filter_of_notMem {l : List Cookie} (absent : c ∉ l) : l.filter (· ≠ c) = l := by
  rw [List.filter_eq_self]
  intro d member
  simpa using fun same : d = c => absent (same ▸ member)

section

variable [DlmLockCompatible]

/-- A grant before other ones. -/
theorem Grant.serves (grant : Grant res t target) {converted unblocked : List Cookie}
    (rest : Serves t u converted unblocked) :
    Serves res u (target :: converted) unblocked ∨ Serves res u converted (target :: unblocked) := by
  have nodup := res.queues.nodup
  rw [List.append_assoc, List.nodup_append', List.nodup_append'] at nodup
  obtain ⟨-, ⟨converting, blocked, -⟩, -⟩ := nodup
  have queues := grant.queues
  -- What was served later stands in the queues still.
  have served : target ∉ converted ∧ target ∉ unblocked := by
    have here : t.queues.find target = some .granted := by
      rw [queues, Queues.find_moveTail, if_pos rfl]
    obtain ⟨early, -⟩ := t.queues.apart target
    obtain ⟨noConvert, noBlock⟩ := early (Queues.mem_granted.2 here)
    rw [rest.converting] at noConvert
    rw [rest.blocked] at noBlock
    exact ⟨fun member => noConvert (List.mem_append_left _ member),
      fun member => noBlock (List.mem_append_left _ member)⟩
  have copy : u.copy target = t.copy target := rest.others target served.1 served.2
  have granted : t.queues.granted = res.queues.granted.filter (· ≠ target) ++ [target] := by
    rw [queues]
    rfl
  have left : t.queues.converting = res.queues.converting.filter (· ≠ target) ∧
      t.queues.blocked = res.queues.blocked.filter (· ≠ target) := by
    rw [queues]
    simp [Queues.moveTail, Queues.del]
  have convert : ∀ d ∈ converted, d ≠ target → ∃ mode,
      (res.copy d).lock.convertType = some mode ∧
        u.copy d = ⟨some .granted, { (res.copy d).lock with type := mode, convertType := none },
          (res.copy d).asts + 1⟩ := by
    intro d member other
    rw [← grant.others d other]
    exact rest.convert d member
  have unblock : ∀ d ∈ unblocked, d ≠ target →
      u.copy d = ⟨some .granted, (res.copy d).lock, (res.copy d).asts + 1⟩ := by
    intro d member other
    rw [← grant.others d other]
    exact rest.unblock d member
  rcases grant.served with ⟨mode, head, wants, free, given⟩ | ⟨idle, head, free, given⟩
  · obtain ⟨waits, here⟩ := List.head?_eq_some_iff.1 head
    have absent : target ∉ res.queues.granted ∧ target ∉ res.queues.blocked := by
      have stands : target ∈ res.queues.converting := List.mem_of_mem_head? head
      obtain ⟨early, late⟩ := res.queues.apart target
      exact ⟨fun member => (early member).1 stands, late stands⟩
    rw [here] at converting
    rw [here, filter_cons_self converting, filter_of_notMem absent.2] at left
    rw [filter_of_notMem absent.1] at granted
    refine .inl ⟨?_, ?_, ?_, rest.before, ?_, fun d member => ?_, fun d none none' => ?_, ?_⟩
    · rw [here, ← left.1, rest.converting, List.cons_append]
    · rw [← left.2, rest.blocked]
    · rw [rest.granted, granted, List.append_assoc res.queues.granted, List.singleton_append]
    · rw [List.forall_mem_cons]
      refine ⟨⟨mode, wants, copy.trans given⟩, fun d member => convert d member ?_⟩
      rintro rfl
      exact served.1 member
    · exact unblock d member fun same => served.2 (same ▸ member)
    · rw [List.mem_cons, not_or] at none
      rw [rest.others d none.2 none', grant.others d none.1]
    · rw [rest.lvb, grant.lvb]
  · obtain ⟨waits, here⟩ := List.head?_eq_some_iff.1 head
    have absent : target ∉ res.queues.granted := by
      have stands : target ∈ res.queues.blocked := List.mem_of_mem_head? head
      obtain ⟨early, -⟩ := res.queues.apart target
      exact fun member => (early member).2 stands
    rw [here] at blocked
    rw [idle, here, filter_cons_self blocked, List.filter_nil, rest.converting] at left
    rw [filter_of_notMem absent] at granted
    obtain ⟨rfl, none⟩ := List.append_eq_nil_iff.1 left.1
    refine .inr ⟨?_, ?_, ?_, fun _ => none, by simp, ?_, fun d _ none' => ?_, ?_⟩
    · rw [idle, none, List.nil_append]
    · rw [here, ← left.2, rest.blocked, List.cons_append]
    · rw [rest.granted, granted, List.append_nil, List.append_nil, List.append_assoc,
        List.singleton_append]
    · rw [List.forall_mem_cons]
      refine ⟨copy.trans given, fun d member => unblock d member ?_⟩
      rintro rfl
      exact served.2 member
    · rw [List.mem_cons, not_or] at none'
      rw [rest.others d List.not_mem_nil none'.2, grant.others d none'.1]
    · rw [rest.lvb, grant.lvb]

theorem Shuffled.serves (shuffled : Shuffled res t) :
    (∃ converted unblocked, Serves res t converted unblocked) ∧ Settled t := by
  induction shuffled with
  | settled noted settled => exact ⟨⟨[], [], .of_noted noted⟩, settled⟩
  | grant grant _ inductionHypothesis =>
      obtain ⟨⟨converted, unblocked, rest⟩, settled⟩ := inductionHypothesis
      rcases grant.serves rest with serves | serves
      · exact ⟨⟨_, _, serves⟩, settled⟩
      · exact ⟨⟨_, _, serves⟩, settled⟩

/-- `dlm_shuffle_lists` grants from the heads of the queues and in their order, new locks only
once nothing converts, changes nothing about any other lock, and stops where the next one has
something in its way that is told. -/
theorem dlmShuffleLists_serves (result : dlmShuffleLists res = some t) :
    (∃ converted unblocked, Serves res t converted unblocked) ∧ Settled t :=
  (dlmShuffleLists_spec result).serves

end

/-- Three readers behind a writer that is gone, the first one converting to EX. -/
def waiters : DlmLockResource Nat where
  queues := ⟨[], [1], [2, 3], by decide⟩
  lock c := { dlmInitLock .pr 0 7 with convertType := if c = 1 then some .ex else none }
  lvb := 7
  dirty := true
  pendingAsts := []
  pendingBasts := []

/-- Only the conversion is served, and it is told about the first new lock. -/
theorem dlmShuffleLists_serves_waiters : ∃ t,
    @dlmShuffleLists _ modesCompatible waiters = some t ∧ @Settled _ modesCompatible t ∧
      t.queues.granted = [1] ∧ t.queues.blocked = [2, 3] ∧
      (t.lock 1).highestBlocked = some .pr := by
  let compatible := modesCompatible
  have result : dlmShuffleLists waiters = some _ := rfl
  exact ⟨_, result, (dlmShuffleLists_serves result).2, rfl, rfl, rfl⟩

end Ocfs2Coverage.Dlm
