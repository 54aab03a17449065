import Mathlib.Data.List.Induction
import Mathlib.Data.Set.Finite.Lemmas
import Mathlib.Data.Set.Finite.List
import Mathlib.Tactic.Common

/-!
Contract: tables that are written by several writers in turn, the last one winning.

Owns: the table left by a list of writers, the condition under which it does not
depend on their order, and the one under which entries survive new names.

Does not own: what the writers, the keys or the values are.
-/

namespace Ocfs2Coverage.Overwriting

variable {ω κ ν : Type*} (writes : ω → κ → Option ν)

/-- What stands at the key after all writers. -/
def final (ws : List ω) (k : κ) : Option ν :=
  ws.foldl (fun value w => (writes w k).or value) none

/-- Writers that write to one key write the same there. -/
def Agree (ws : List ω) : Prop :=
  ∀ w ∈ ws, ∀ w' ∈ ws, ∀ k v v', writes w k = some v → writes w' k = some v' → v = v'

@[simp] theorem final_nil (k : κ) : final writes [] k = none := rfl

theorem final_concat (ws : List ω) (w : ω) (k : κ) :
    final writes (ws ++ [w]) k = (writes w k).or (final writes ws k) := by
  simp only [final]
  rw [List.foldl_append]
  rfl

/-- The later writers come first. -/
theorem final_append (ws ws' : List ω) (k : κ) :
    final writes (ws ++ ws') k = (final writes ws' k).or (final writes ws k) := by
  induction ws' using List.reverseRecOn with
  | nil => rw [List.append_nil, final_nil, Option.none_or]
  | append_singleton front last inductionHypothesis =>
      rw [← List.append_assoc, final_concat, inductionHypothesis, final_concat, Option.or_assoc]

variable {writes}

/-- What stands at a key was written there. -/
theorem exists_of_final {ws : List ω} {k : κ} {v : ν} (stands : final writes ws k = some v) :
    ∃ w ∈ ws, writes w k = some v := by
  induction ws using List.reverseRecOn with
  | nil => cases stands
  | append_singleton front last inductionHypothesis =>
      rw [final_concat] at stands
      cases written : writes last k with
      | none =>
          rw [written, Option.none_or] at stands
          obtain ⟨w, member, here⟩ := inductionHypothesis stands
          exact ⟨w, List.mem_append_left [last] member, here⟩
      | some u =>
          rw [written, Option.some_or] at stands
          exact ⟨last, by simp, written.trans stands⟩

/-- A key that is written keeps a value. -/
theorem isSome_final_iff {ws : List ω} {k : κ} :
    (final writes ws k).isSome = true ↔ ∃ w ∈ ws, (writes w k).isSome = true := by
  induction ws using List.reverseRecOn with
  | nil => simp
  | append_singleton front last inductionHypothesis =>
      rw [final_concat, Option.isSome_or, Bool.or_eq_true, inductionHypothesis]
      simp only [List.mem_append, List.mem_singleton, or_and_right, exists_or, exists_eq_left]
      exact or_comm

/-- Writers that agree leave what any of them writes. -/
theorem final_of_agree {ws : List ω} (agree : Agree writes ws) {w : ω} (member : w ∈ ws) {k : κ}
    {v : ν} (written : writes w k = some v) : final writes ws k = some v := by
  have some_ : (final writes ws k).isSome = true :=
    isSome_final_iff.2 ⟨w, member, by rw [written]; rfl⟩
  obtain ⟨u, stands⟩ := Option.isSome_iff_exists.1 some_
  obtain ⟨w', member', written'⟩ := exists_of_final stands
  rw [stands, agree w' member' w member k u v written' written]

/-- The last writer decides. -/
theorem final_of_last {ws : List ω} {w : ω} {k : κ} {v : ν} (written : writes w k = some v) :
    final writes (ws ++ [w]) k = some v := by
  rw [final_concat, written, Option.some_or]

/-- The table does not depend on the order of the writers exactly when they agree. -/
theorem orderFree_iff {ws : List ω} :
    (∀ ws', ws'.Perm ws → ∀ k, final writes ws' k = final writes ws k) ↔ Agree writes ws := by
  constructor
  · intro free w member w' member' k v v' written written'
    -- Each of the two writers can be the last one.
    have lastly : ∀ u ∈ ws, ∀ x, writes u k = some x → final writes ws k = some x := by
      intro u member x written
      obtain ⟨front, back, rfl⟩ := List.append_of_mem member
      have moved : ((front ++ back) ++ [u]).Perm (front ++ u :: back) := by
        rw [List.append_assoc]
        exact List.perm_append_comm.append_left front
      rw [← free _ moved k, final_of_last written]
    have first := lastly w member v written
    rw [lastly w' member' v' written'] at first
    exact (Option.some.inj first).symm
  · intro agree ws' perm k
    have agree' : Agree writes ws' := fun w member w' member' =>
      agree w (perm.mem_iff.1 member) w' (perm.mem_iff.1 member')
    cases stands : final writes ws' k with
    | none =>
        symm
        rw [← Option.not_isSome_iff_eq_none, isSome_final_iff] at stands ⊢
        rintro ⟨w, member, written⟩
        exact stands ⟨w, perm.mem_iff.2 member, written⟩
    | some v =>
        obtain ⟨w, member, written⟩ := exists_of_final stands
        exact (final_of_agree agree (perm.mem_iff.1 member) written).symm

/-! ## Entries under other names -/

section Renaming

variable [DecidableEq κ] (rename : κ → κ)

/-- An entry written under its new name. -/
def renamed (item : κ × ν) (k : κ) : Option ν := if rename item.1 = k then some item.2 else none

/-- The value at a key, where a missing one counts as `blank`. -/
def valueAt (blank : ν) (items : List (κ × ν)) (k : κ) : ν :=
  (final (renamed rename) items k).getD blank

variable {rename}

theorem renamed_eq_some {item : κ × ν} {k : κ} {v : ν} :
    renamed rename item k = some v ↔ rename item.1 = k ∧ item.2 = v := by
  simp only [renamed, Option.ite_none_right_eq_some, Option.some.injEq]

/-- The entry after which none has the name `k`. -/
theorem final_renamed {pre post : List (κ × ν)} {item : κ × ν}
    (last : ∀ later ∈ post, rename later.1 ≠ rename item.1) :
    final (renamed rename) (pre ++ item :: post) (rename item.1) = some item.2 := by
  have none : final (renamed rename) post (rename item.1) = none := by
    rw [← Option.not_isSome_iff_eq_none, isSome_final_iff]
    rintro ⟨later, member, written⟩
    obtain ⟨v, here⟩ := Option.isSome_iff_exists.1 written
    exact last later member (renamed_eq_some.1 here).1
  have here : renamed rename item (rename item.1) = some item.2 := renamed_eq_some.2 ⟨rfl, rfl⟩
  have front : final (renamed rename) (pre ++ [item]) (rename item.1) = some item.2 :=
    final_of_last here
  rw [List.append_cons, final_append, none, Option.none_or, front]

/-- A value stands under the name of its last entry. -/
theorem exists_last_renamed {items : List (κ × ν)} {k : κ} {v : ν}
    (stands : final (renamed rename) items k = some v) :
    ∃ pre item post, items = pre ++ item :: post ∧ rename item.1 = k ∧ item.2 = v ∧
      ∀ later ∈ post, rename later.1 ≠ k := by
  induction items using List.reverseRecOn with
  | nil => cases stands
  | append_singleton front last inductionHypothesis =>
      rw [final_concat] at stands
      by_cases here : rename last.1 = k
      · rw [renamed_eq_some.2 ⟨here, rfl⟩, Option.some_or] at stands
        exact ⟨front, last, [], rfl, here, Option.some.inj stands, fun _ later => by cases later⟩
      · have none : renamed rename last k = Option.none := if_neg here
        rw [none, Option.none_or] at stands
        obtain ⟨pre, item, post, rfl, name, value, others⟩ := inductionHypothesis stands
        refine ⟨pre, item, post ++ [last], by simp, name, value, ?_⟩
        rw [List.forall_mem_append, List.forall_mem_singleton]
        exact ⟨others, here⟩

theorem valueAt_of_last {blank : ν} {pre post : List (κ × ν)} {item : κ × ν}
    (last : ∀ later ∈ post, rename later.1 ≠ rename item.1) :
    valueAt rename blank (pre ++ item :: post) (rename item.1) = item.2 := by
  simp only [valueAt]
  rw [final_renamed last, Option.getD_some]

/-- Under their own, distinct names all entries are found. -/
theorem valueAt_id {blank : ν} {items : List (κ × ν)} (distinct : (items.map Prod.fst).Nodup)
    {item : κ × ν} (member : item ∈ items) : valueAt id blank items item.1 = item.2 := by
  obtain ⟨pre, post, rfl⟩ := List.append_of_mem member
  apply @valueAt_of_last _ _ _ id
  intro later inPost equal
  rw [List.map_append, List.map_cons, List.nodup_append, List.nodup_cons] at distinct
  exact distinct.2.1.1 (List.mem_map.2 ⟨later, inPost, equal⟩)

theorem valueAt_id_of_notMem {blank : ν} {items : List (κ × ν)} {k : κ}
    (absent : k ∉ items.map Prod.fst) : valueAt id blank items k = blank := by
  simp only [valueAt]
  cases stands : final (renamed id) items k with
  | none => rfl
  | some v =>
      obtain ⟨item, member, written⟩ := exists_of_final stands
      exact absurd (List.mem_map.2 ⟨item, member, (renamed_eq_some.1 written).1⟩) absent

/-- Blank entries do not matter. -/
theorem valueAt_id_sublist {blank : ν} {small items : List (κ × ν)} (sub : small.Sublist items)
    (distinct : (items.map Prod.fst).Nodup)
    (rest : ∀ item ∈ items, item ∉ small → item.2 = blank) (k : κ) :
    valueAt id blank small k = valueAt id blank items k := by
  have distinct' := distinct.sublist (sub.map Prod.fst)
  by_cases listed : k ∈ items.map Prod.fst
  · obtain ⟨item, member, rfl⟩ := List.mem_map.1 listed
    rw [valueAt_id distinct member]
    by_cases inside : item ∈ small
    · exact valueAt_id distinct' inside
    · rw [rest item member inside]
      apply valueAt_id_of_notMem
      intro found
      obtain ⟨other, inSmall, same⟩ := List.mem_map.1 found
      have equal := List.inj_on_of_nodup_map distinct (sub.mem inSmall) member same
      rw [equal] at inSmall
      exact inside inSmall
  · have absent : k ∉ small.map Prod.fst := fun found => listed ((sub.map Prod.fst).mem found)
    rw [valueAt_id_of_notMem listed, valueAt_id_of_notMem absent]

/-- A value that is not blank is that of an entry. -/
theorem valueAt_cases (blank : ν) (items : List (κ × ν)) (k : κ) :
    valueAt rename blank items k = blank ∨ ∃ pre item post, items = pre ++ item :: post ∧
      rename item.1 = k ∧ valueAt rename blank items k = item.2 ∧
        ∀ later ∈ post, rename later.1 ≠ k := by
  simp only [valueAt]
  cases stands : final (renamed rename) items k with
  | none => exact Or.inl rfl
  | some v =>
      obtain ⟨pre, item, post, shape, name, value, others⟩ := exists_last_renamed stands
      exact Or.inr ⟨pre, item, post, shape, name, value.symm, others⟩

variable (rename) in
/-- Every entry that is not blank keeps its name, which no later entry takes. -/
def Kept (blank : ν) (items : List (κ × ν)) : Prop :=
  ∀ pre item post, items = pre ++ item :: post → item.2 ≠ blank →
    rename item.1 = item.1 ∧ ∀ later ∈ post, rename later.1 ≠ item.1

theorem valueAt_of_kept {blank : ν} {items : List (κ × ν)} (distinct : (items.map Prod.fst).Nodup)
    (kept : Kept rename blank items) (k : κ) :
    valueAt rename blank items k = valueAt id blank items k := by
  by_cases blank_ : valueAt rename blank items k = blank
  · -- An entry of this name that is not blank would be found.
    rw [blank_]
    rcases @valueAt_cases _ _ _ id blank items k with same | ⟨pre, item, post, shape, rfl, value, -⟩
    · exact same.symm
    · by_contra different
      rw [value] at different
      obtain ⟨name, others⟩ := kept pre item post shape (Ne.symm different)
      have found := @valueAt_of_last _ _ _ rename blank pre post item (by rwa [name])
      rw [name, ← shape] at found
      exact different (blank_.symm.trans found)
  · rcases @valueAt_cases _ _ _ rename blank items k with none | ⟨pre, item, post, shape, rfl, value, -⟩
    · exact absurd none blank_
    · rw [value] at blank_
      have member : item ∈ items := by
        rw [shape]
        simp
      rw [value, (kept pre item post shape blank_).1, valueAt_id distinct member]

/-- Where renaming has no cycles, the values survive it exactly when every entry that is
not blank does. -/
theorem valueAt_renamed_iff {blank : ν} {items : List (κ × ν)}
    (distinct : (items.map Prod.fst).Nodup) {rank : κ → Int}
    (descends : ∀ k, rename k ≠ k → rank (rename k) < rank k) :
    (∀ k, valueAt rename blank items k = valueAt id blank items k) ↔ Kept rename blank items := by
  refine ⟨fun same => ?_, valueAt_of_kept distinct⟩
  -- The entry found under the name of an entry that is not blank.
  have found : ∀ item ∈ items, item.2 ≠ blank → ∃ pre other post, items = pre ++ other :: post ∧
      rename other.1 = item.1 ∧ other.2 = item.2 ∧ ∀ later ∈ post, rename later.1 ≠ item.1 := by
    intro item member solid
    have value := (same item.1).trans (valueAt_id distinct member)
    rcases @valueAt_cases _ _ _ rename blank items item.1 with none |
      ⟨pre, other, post, shape, name, here, others⟩
    · exact absurd (value.symm.trans none) solid
    · exact ⟨pre, other, post, shape, name, here.symm.trans value, others⟩
  have name : ∀ item ∈ items, item.2 ≠ blank → rename item.1 = item.1 := by
    intro item member solid
    by_contra moved
    -- Of the entries that lose their name, one of the highest rank is found as another.
    obtain ⟨top, ⟨inside, solid, moved⟩, highest⟩ := Set.exists_max_image
      {item | item ∈ items ∧ item.2 ≠ blank ∧ rename item.1 ≠ item.1} (fun item => rank item.1)
      (items.finite_toSet.subset fun item lost => lost.1) ⟨item, member, solid, moved⟩
    obtain ⟨pre, other, post, shape, taken, value, -⟩ := found top inside solid
    have different : rename other.1 ≠ other.1 := by
      intro own
      rw [own] at taken
      rw [taken] at own
      exact moved own
    have lower := descends other.1 different
    rw [taken] at lower
    have listed : other ∈ items := by
      rw [shape]
      simp
    have bound := highest other ⟨listed, by rwa [value], different⟩
    change rank other.1 ≤ rank top.1 at bound
    omega
  intro pre item post shape solid
  have member : item ∈ items := by
    rw [shape]
    simp
  refine ⟨name item member solid, ?_⟩
  obtain ⟨pre', other, post', shape', taken, value, others⟩ := found item member solid
  have listed : other ∈ items := by
    rw [shape']
    simp
  have same : other = item := by
    apply List.inj_on_of_nodup_map distinct listed member
    rw [← taken, name other listed (by rwa [value])]
  rw [same, shape] at shape'
  have nodup := distinct.of_map
  rw [shape, List.nodup_append, List.nodup_cons] at nodup
  have early : item ∉ pre := fun inside => nodup.2.2 item inside item (by simp) rfl
  obtain ⟨-, -, rfl⟩ := (List.append_cons_inj_of_notMem early nodup.2.1.1).1 shape'
  exact others

end Renaming

end Ocfs2Coverage.Overwriting
