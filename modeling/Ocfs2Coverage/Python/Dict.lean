import Mathlib.Data.List.Induction
import Mathlib.Data.List.Nodup
import Mathlib.Data.List.Perm.Basic
import Mathlib.Tactic.Common

/-!
Contract: Python's insertion-ordered dictionary.

Owns: lookup, assignment, construction from pairs, and the laws that say what
each key holds afterwards. A dictionary carries the proof that its keys are
distinct, so no later proof treats a repeated key.

Does not own: mutation. An assignment returns the new dictionary.
-/

namespace Ocfs2Coverage.Python

/-- Items in insertion order, one for each key. -/
@[ext] structure Dict (κ ν : Type) where
  items : List (κ × ν)
  nodup : (items.map Prod.fst).Nodup

namespace Dict

variable {κ ν : Type}

def empty : Dict κ ν := ⟨[], List.nodup_nil⟩

instance : EmptyCollection (Dict κ ν) := ⟨empty⟩

def keys (d : Dict κ ν) : List κ := d.items.map Prod.fst

def values (d : Dict κ ν) : List ν := d.items.map Prod.snd

/-- `not d`. -/
def isEmpty (d : Dict κ ν) : Bool := d.items.isEmpty

theorem nodup_keys (d : Dict κ ν) : d.keys.Nodup := d.nodup

@[simp] theorem keys_empty : (∅ : Dict κ ν).keys = [] := rfl

variable [DecidableEq κ]

instance [DecidableEq ν] : DecidableEq (Dict κ ν) := fun left right =>
  decidable_of_iff (left.items = right.items) Dict.ext_iff.symm

/-- The value of the item with this key. -/
def lookup (k : κ) : List (κ × ν) → Option ν
  | [] => none
  | item :: rest => if k = item.1 then some item.2 else lookup k rest

/-- `d.get(k)`. -/
def get? (d : Dict κ ν) (k : κ) : Option ν := lookup k d.items

/-- `d.get(k, default)`. -/
def get (d : Dict κ ν) (k : κ) (default : ν) : ν := (d.get? k).getD default

/-- The item of `k` is overwritten in place, or appended. -/
def setItems (k : κ) (v : ν) : List (κ × ν) → List (κ × ν)
  | [] => [(k, v)]
  | item :: rest => if item.1 = k then (k, v) :: rest else item :: setItems k v rest

omit [DecidableEq κ] in
theorem keys_setItems [DecidableEq κ] (k : κ) (v : ν) (items : List (κ × ν)) :
    (setItems k v items).map Prod.fst =
      if k ∈ items.map Prod.fst then items.map Prod.fst else items.map Prod.fst ++ [k] := by
  induction items with
  | nil => simp [setItems]
  | cons item rest inductionHypothesis =>
      by_cases same : item.1 = k
      · simp [setItems, same]
      · have notSame : ¬ k = item.1 := fun equal => same equal.symm
        by_cases later : k ∈ rest.map Prod.fst
        · rw [if_pos later] at inductionHypothesis
          rw [setItems, if_neg same, List.map_cons, List.map_cons, inductionHypothesis,
            if_pos (List.mem_cons_of_mem _ later)]
        · rw [if_neg later] at inductionHypothesis
          rw [setItems, if_neg same, List.map_cons, List.map_cons, inductionHypothesis, if_neg]
          · rfl
          · exact fun member => (List.mem_cons.1 member).elim notSame later

/-- `d[k] = v`. -/
def set (d : Dict κ ν) (k : κ) (v : ν) : Dict κ ν where
  items := setItems k v d.items
  nodup := by
    rw [keys_setItems]
    split
    · exact d.nodup
    · next absent =>
        rw [List.nodup_append]
        exact ⟨d.nodup, List.nodup_singleton k, fun a member b single => by
          rw [List.mem_singleton] at single
          rintro rfl
          exact absent (single ▸ member)⟩

theorem keys_set (d : Dict κ ν) (k : κ) (v : ν) :
    (d.set k v).keys = if k ∈ d.keys then d.keys else d.keys ++ [k] :=
  keys_setItems k v d.items

theorem mem_keys_set {d : Dict κ ν} {k k' : κ} {v : ν} :
    k' ∈ (d.set k v).keys ↔ k' = k ∨ k' ∈ d.keys := by
  rw [keys_set]
  split
  · next present =>
      exact ⟨Or.inr, fun either => either.elim (fun equal => equal ▸ present) id⟩
  · rw [List.mem_append, List.mem_singleton, or_comm]

@[simp] theorem get?_empty (k : κ) : (∅ : Dict κ ν).get? k = none := rfl

theorem get?_set (d : Dict κ ν) (k k' : κ) (v : ν) :
    (d.set k v).get? k' = if k' = k then some v else d.get? k' := by
  change lookup k' (setItems k v d.items) = if k' = k then some v else lookup k' d.items
  induction d.items with
  | nil => simp [setItems, lookup]
  | cons item rest inductionHypothesis =>
      by_cases here : item.1 = k
      · rw [setItems, if_pos here, lookup, lookup, here]
        by_cases same : k' = k <;> simp [same]
      · rw [setItems, if_neg here, lookup, lookup, inductionHypothesis]
        by_cases same : k' = item.1
        · have other : k' ≠ k := fun equal => here (same ▸ equal)
          simp [same, here]
        · simp [same]

@[simp] theorem get?_set_self (d : Dict κ ν) (k : κ) (v : ν) : (d.set k v).get? k = some v := by
  simp [get?_set]

theorem get_set (d : Dict κ ν) (k k' : κ) (v default : ν) :
    (d.set k v).get k' default = if k' = k then v else d.get k' default := by
  simp only [get]
  rw [get?_set]
  split <;> rfl

theorem get?_eq_none_iff {d : Dict κ ν} {k : κ} : d.get? k = none ↔ k ∉ d.keys := by
  change lookup k d.items = none ↔ k ∉ d.items.map Prod.fst
  induction d.items with
  | nil => simp [lookup]
  | cons item rest inductionHypothesis =>
      rw [lookup, List.map_cons, List.mem_cons, not_or]
      by_cases same : k = item.1
      · simp [same]
      · simp [same, inductionHypothesis]

theorem isSome_get?_iff {d : Dict κ ν} {k : κ} : (d.get? k).isSome = true ↔ k ∈ d.keys := by
  rw [Option.isSome_iff_ne_none, ne_eq, get?_eq_none_iff, not_not]

theorem get?_eq_some_iff {d : Dict κ ν} {k : κ} {v : ν} :
    d.get? k = some v ↔ (k, v) ∈ d.items := by
  have distinct := d.nodup
  change lookup k d.items = some v ↔ (k, v) ∈ d.items
  revert distinct
  induction d.items with
  | nil => simp [lookup]
  | cons item rest inductionHypothesis =>
      intro distinct
      rw [List.map_cons, List.nodup_cons] at distinct
      rw [lookup, List.mem_cons]
      by_cases same : k = item.1
      · have absent : (k, v) ∉ rest := fun member =>
          distinct.1 (List.mem_map.2 ⟨(k, v), member, same⟩)
        rw [if_pos same, Option.some.injEq, or_iff_left absent, Prod.ext_iff]
        exact ⟨fun equal => ⟨same, equal.symm⟩, fun both => both.2.symm⟩
      · have notHead : (k, v) ≠ item := fun equal => same (congrArg Prod.fst equal)
        simp [same, notHead, inductionHypothesis distinct.2]

/-- A new key is stored last. -/
theorem items_set_of_notMem {d : Dict κ ν} {k : κ} (v : ν) (fresh : k ∉ d.keys) :
    (d.set k v).items = d.items ++ [(k, v)] := by
  change k ∉ d.items.map Prod.fst at fresh
  change setItems k v d.items = d.items ++ [(k, v)]
  generalize d.items = items at fresh
  induction items with
  | nil => rfl
  | cons item rest inductionHypothesis =>
      rw [List.map_cons, List.mem_cons, not_or] at fresh
      rw [setItems, if_neg (fun equal => fresh.1 equal.symm), inductionHypothesis fresh.2]
      rfl

/-- The last value stored for a key counts. -/
theorem set_set (d : Dict κ ν) (k : κ) (v w : ν) : (d.set k v).set k w = d.set k w := by
  have same : setItems k w (setItems k v d.items) = setItems k w d.items := by
    induction d.items with
    | nil => simp [setItems]
    | cons item rest inductionHypothesis =>
        by_cases here : item.1 = k
        · simp [setItems, here]
        · simp [setItems, here, inductionHypothesis]
  exact Dict.ext same

/-- Storing the value a key already has changes nothing. -/
theorem set_eq_self {d : Dict κ ν} {k : κ} {v : ν} (stored : d.get? k = some v) :
    d.set k v = d := by
  have same : setItems k v d.items = d.items := by
    change lookup k d.items = some v at stored
    generalize d.items = items at stored
    induction items with
    | nil => cases stored
    | cons item rest inductionHypothesis =>
        rw [lookup] at stored
        rw [setItems]
        by_cases here : k = item.1
        · rw [if_pos here, Option.some.injEq] at stored
          rw [if_pos here.symm, ← stored, here]
        · rw [if_neg here] at stored
          rw [if_neg fun equal => here equal.symm, inductionHypothesis stored]
  exact Dict.ext same

/-! ## Assigning one key after another -/

/-- `for k in ks: d[k] = f(k)`. -/
def setAll (d : Dict κ ν) (ks : List κ) (f : κ → ν) : Dict κ ν :=
  ks.foldl (fun current k => current.set k (f k)) d

theorem get?_setAll (d : Dict κ ν) (ks : List κ) (f : κ → ν) (k : κ) :
    (d.setAll ks f).get? k = if k ∈ ks then some (f k) else d.get? k := by
  simp only [setAll]
  induction ks generalizing d with
  | nil => simp
  | cons head rest inductionHypothesis =>
      rw [List.foldl_cons, inductionHypothesis, get?_set]
      by_cases later : k ∈ rest
      · simp [later]
      · by_cases same : k = head <;> simp [later, same]

theorem get_setAll (d : Dict κ ν) (ks : List κ) (f : κ → ν) (k : κ) (default : ν) :
    (d.setAll ks f).get k default = if k ∈ ks then f k else d.get k default := by
  simp only [get]
  rw [get?_setAll]
  split <;> rfl

theorem mem_keys_setAll {d : Dict κ ν} {ks : List κ} {f : κ → ν} {k : κ} :
    k ∈ (d.setAll ks f).keys ↔ k ∈ ks ∨ k ∈ d.keys := by
  rw [← isSome_get?_iff, get?_setAll]
  split
  · next member => simp [member]
  · next absent => simp [absent, isSome_get?_iff]

theorem setAll_eq_self {d : Dict κ ν} {ks : List κ} {f : κ → ν}
    (stored : ∀ k ∈ ks, d.get? k = some (f k)) : d.setAll ks f = d := by
  simp only [setAll]
  induction ks with
  | nil => rfl
  | cons k rest inductionHypothesis =>
      rw [List.foldl_cons, set_eq_self (stored k (by simp))]
      exact inductionHypothesis fun other member => stored other (by simp [member])

/-- `{k: v for k, v in pairs}`: a repeated key keeps its place and its last value. -/
def ofItems (pairs : List (κ × ν)) : Dict κ ν :=
  pairs.foldl (fun current pair => current.set pair.1 pair.2) ∅

/-- Distinct pairs are stored as they come. -/
theorem items_foldl_set (d : Dict κ ν) (pairs : List (κ × ν))
    (distinct : ((d.items ++ pairs).map Prod.fst).Nodup) :
    (pairs.foldl (fun current pair => current.set pair.1 pair.2) d).items = d.items ++ pairs := by
  induction pairs generalizing d with
  | nil => simp
  | cons pair rest inductionHypothesis =>
      have fresh : pair.1 ∉ d.keys := by
        rw [List.map_append, List.map_cons, List.nodup_append] at distinct
        exact fun member => distinct.2.2 _ member _ (by simp) rfl
      have appended := items_set_of_notMem pair.2 fresh
      rw [List.foldl_cons, inductionHypothesis]
      · rw [appended, List.append_assoc]; rfl
      · rw [appended, List.append_assoc]; exact distinct

theorem items_ofItems {pairs : List (κ × ν)} (distinct : (pairs.map Prod.fst).Nodup) :
    (ofItems pairs).items = pairs := by
  exact items_foldl_set (∅ : Dict κ ν) pairs distinct

/-- A key that comes with one value only has that value, whatever else is stored. -/
theorem get?_ofItems {pairs : List (κ × ν)} {k : κ} {v : ν} (member : (k, v) ∈ pairs)
    (only : ∀ w, (k, w) ∈ pairs → w = v) : (ofItems pairs).get? k = some v := by
  have fold : ∀ (pairs : List (κ × ν)) (d : Dict κ ν),
      (∀ w, (k, w) ∈ pairs → w = v) → ((k, v) ∈ pairs ∨ d.get? k = some v) →
      (pairs.foldl (fun current pair => current.set pair.1 pair.2) d).get? k = some v := by
    intro pairs
    induction pairs with
    | nil => exact fun d _ either => either.resolve_left (by simp)
    | cons pair rest inductionHypothesis =>
        intro d only either
        rw [List.foldl_cons]
        apply inductionHypothesis _ fun w later => only w (by simp [later])
        by_cases here : k = pair.1
        · subst here
          right
          rw [get?_set_self, only pair.2 (by simp)]
        · refine either.imp (fun listed => ?_) fun stored => ?_
          · rcases List.mem_cons.1 listed with rfl | later
            · exact absurd rfl here
            · exact later
          · rw [get?_set, if_neg here, stored]
  exact fold pairs ∅ only (Or.inl member)

/-! ## Grouping -/

section Grouping

variable {α : Type} (key : α → κ)

/-- `groups = defaultdict(list)`, then `groups[key(x)].append(x)` for each `x`. -/
def groupBy (xs : List α) : Dict κ (List α) :=
  xs.foldl (fun groups x => groups.set (key x) (groups.get (key x) [] ++ [x])) ∅

theorem groupBy_concat (xs : List α) (x : α) :
    groupBy key (xs ++ [x]) =
      (groupBy key xs).set (key x) ((groupBy key xs).get (key x) [] ++ [x]) := by
  simp [groupBy]

/-- Every key holds the elements that have it, in their order. -/
theorem get_groupBy (xs : List α) (k : κ) :
    (groupBy key xs).get k [] = xs.filter fun x => key x = k := by
  induction xs using List.reverseRecOn with
  | nil => rfl
  | append_singleton xs x inductionHypothesis =>
      rw [groupBy_concat, get_set, List.filter_append]
      by_cases same : k = key x
      · rw [← same, if_pos rfl, inductionHypothesis]
        simp [same]
      · have other : ¬ key x = k := fun equal => same equal.symm
        rw [if_neg same, inductionHypothesis]
        simp [other]

theorem mem_keys_groupBy {xs : List α} {k : κ} :
    k ∈ (groupBy key xs).keys ↔ ∃ x ∈ xs, key x = k := by
  induction xs using List.reverseRecOn with
  | nil => simp [groupBy]
  | append_singleton xs x inductionHypothesis =>
      rw [groupBy_concat, mem_keys_set, inductionHypothesis]
      simp only [List.mem_append, List.mem_singleton]
      refine ⟨fun member => ?_, fun ⟨y, place, equal⟩ => ?_⟩
      · cases member with
        | inl equal => exact ⟨x, Or.inr rfl, equal.symm⟩
        | inr earlier => exact earlier.imp fun y found => ⟨Or.inl found.1, found.2⟩
      · cases place with
        | inl earlier => exact Or.inr ⟨y, earlier, equal⟩
        | inr last => exact Or.inl (by rw [← equal, last])

theorem mem_items_groupBy {xs : List α} {k : κ} {group : List α}
    (member : (k, group) ∈ (groupBy key xs).items) :
    group = (xs.filter fun x => key x = k) ∧ ∃ x ∈ xs, key x = k := by
  have stored := get?_eq_some_iff.2 member
  refine ⟨?_, (mem_keys_groupBy key).1 (List.mem_map.2 ⟨_, member, rfl⟩)⟩
  rw [← get_groupBy key xs k]
  simp [get, stored]

end Grouping

end Dict

end Ocfs2Coverage.Python
