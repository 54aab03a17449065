import Ocfs2Coverage.Trace.Lcov

/-!
Contract: whose counts `match_lcov_file` returns.

Owns: the traces of a source tree below one root, the exact condition under
which the suffix lookup attributes every record to its own file, and its
agreement with `_rel_from_sf`.
-/

namespace Ocfs2Coverage.Trace

open Ocfs2Coverage.Python
open Ocfs2Coverage.Hits

/-- The SF path of a file below `root`. -/
def sfPath (root rel : Str) : Str := root ++ "/fs/ocfs2/".toList ++ rel

theorem sfPath_injective (root : Str) : Function.Injective (sfPath root) := by
  intro left right equal
  exact List.append_cancel_left equal

/-- The trace whose records are those of the relative paths `order`, in this order. -/
def traceOf (root : Str) (order : List Str) (distinct : order.Nodup) (counts : Str → LineHits) :
    Dict Str LineHits where
  items := order.map fun rel => (sfPath root rel, counts rel)
  nodup := by
    rw [List.map_map]
    exact distinct.map (sfPath_injective root)

/-- The first path in `order` whose SF path ends with `rel`. -/
theorem matchLcovFile_traceOf (root : Str) (order : List Str) (distinct : order.Nodup)
    (counts : Str → LineHits) (rel : Str) :
    matchLcovFile rel (traceOf root order distinct counts) =
      (order.find? fun r => endswith (sfPath root r) rel).map counts := by
  change ((order.map fun r => (sfPath root r, counts r)).find? fun item =>
    keyMatches rel item.1).map Prod.snd = _
  rw [List.find?_map, Option.map_map]
  simp only [Function.comp_def, keyMatches_eq]

theorem endswith_sfPath (root rel : Str) : endswith (sfPath root rel) rel = true :=
  endswith_iff.2 (List.suffix_append _ rel)

/-- `rel` occurs in `order` before every `r` it is confused with. -/
def Precedes (order : List Str) (rel r : Str) : Prop := rel ∈ order.takeWhile (· ≠ r)

/-- The lookup returns the record of `rel` itself exactly when every other record
whose path ends with `rel` comes after it. -/
theorem find?_own_iff {path : Str → Str} (own : ∀ r, endswith (path r) r = true)
    (order : List Str) (rel : Str) :
    (order.find? fun r => endswith (path r) rel) =
        (if rel ∈ order then some rel else none) ↔
      ∀ r ∈ order, r ≠ rel → endswith (path r) rel = true → Precedes order rel r := by
  induction order with
  | nil => simp
  | cons head rest inductionHypothesis =>
      by_cases here : head = rel
      · subst here
        constructor
        · intro _ r _ different _
          simp only [Precedes]
          rw [List.takeWhile_cons_of_pos (by simpa using different.symm)]
          simp
        · intro _
          simp [own head]
      · by_cases confused : endswith (path head) rel = true
        · constructor
          · intro equal
            simp only [List.find?_cons, confused] at equal
            split at equal
            · exact absurd (Option.some.inj equal) here
            · cases equal
          · intro later
            have first := later head (by simp) here confused
            simp only [Precedes] at first
            rw [List.takeWhile_cons_of_neg (by simp)] at first
            cases first
        · have skip : ((head :: rest).find? fun r => endswith (path r) rel) =
              rest.find? fun r => endswith (path r) rel :=
            List.find?_cons_of_neg confused
          have member : rel ∈ head :: rest ↔ rel ∈ rest := by
            rw [List.mem_cons, or_iff_right fun equal => here equal.symm]
          rw [skip, if_congr member rfl rfl, inductionHypothesis]
          constructor
          · intro all r listed different suffix
            have notHead : head ≠ r := fun equal => confused (equal ▸ suffix)
            have inRest : r ∈ rest := (List.mem_cons.1 listed).resolve_left (Ne.symm notHead)
            simp only [Precedes]
            rw [List.takeWhile_cons_of_pos (by simpa using notHead)]
            exact List.mem_cons_of_mem _ (all r inRest different suffix)
          · intro all r listed different suffix
            have notHead : head ≠ r := fun equal => confused (equal ▸ suffix)
            have found := all r (by simp [listed]) different suffix
            simp only [Precedes] at found
            rw [List.takeWhile_cons_of_pos (by simpa using notHead), List.mem_cons] at found
            exact found.resolve_left fun equal => here equal.symm

/-- Every file of the tree gets the counts recorded for it, and nothing else. -/
def Attributes (root : Str) (tree order : List Str) (distinct : order.Nodup) : Prop :=
  ∀ counts : Str → LineHits, ∀ rel ∈ tree,
    matchLcovFile rel (traceOf root order distinct counts) =
      if rel ∈ order then some (counts rel) else none

/-- The lookup through `_rel_from_sf`: the record whose recovered path is `rel`. -/
def findByRelFromSf (rel : Str) (lcov : Dict Str LineHits) : Option LineHits :=
  (lcov.items.find? fun item => relFromSf item.1 == rel).map Prod.snd

private theorem find?_only {order : List Str} {rel : Str} {test : Str → Bool}
    (only : ∀ r ∈ order, test r = true ↔ r = rel) :
    order.find? test = if rel ∈ order then some rel else none := by
  induction order with
  | nil => rfl
  | cons head rest inductionHypothesis =>
      have tail := inductionHypothesis fun r member => only r (by simp [member])
      rw [List.find?_cons]
      by_cases here : head = rel
      · have hit := (only head (by simp)).2 here
        rw [hit, here]
        simp
      · have miss : test head = false := by
          rw [← Bool.not_eq_true, only head (by simp)]
          exact here
        have other : ¬ rel = head := fun equal => here equal.symm
        rw [miss, tail]
        simp [other]

/-- Counts that tell the records apart. -/
private def markedCounts (order : List Str) (rel : Str) : LineHits :=
  (∅ : LineHits).set (order.idxOf rel) 1

private theorem markedCounts_injOn {order : List Str} {left right : Str} (member : left ∈ order)
    (equal : markedCounts order left = markedCounts order right) : left = right := by
  have index := congrArg Dict.items equal
  simp only [markedCounts, Dict.set] at index
  have same : order.idxOf left = order.idxOf right := by
    simpa [Dict.setItems, EmptyCollection.emptyCollection, Dict.empty] using index
  exact (List.idxOf_inj member).1 same

/-- The suffix lookup attributes every record to its own file exactly when no
record of another file whose path ends with `rel` comes before that of `rel`.
Where `_rel_from_sf` recovers the relative paths, agreement of the two lookups is
the same condition. -/
theorem matchLcovFile_attributes_iff (root : Str) (tree order : List Str)
    (distinct : order.Nodup) :
    (Attributes root tree order distinct ↔
      ∀ rel ∈ tree, ∀ r ∈ order, r ≠ rel → endswith (sfPath root r) rel = true →
        Precedes order rel r) ∧
    ((∀ r ∈ order, relFromSf (sfPath root r) = r) →
      ((∀ counts : Str → LineHits, ∀ rel ∈ tree,
          matchLcovFile rel (traceOf root order distinct counts) =
            findByRelFromSf rel (traceOf root order distinct counts)) ↔
        Attributes root tree order distinct)) := by
  constructor
  · simp only [Attributes]
    constructor
    · intro attributes rel inTree
      rw [← find?_own_iff (endswith_sfPath root)]
      have own := attributes (markedCounts order) rel inTree
      rw [matchLcovFile_traceOf] at own
      split at own
      · next present =>
          obtain ⟨r, found, equal⟩ := Option.map_eq_some_iff.1 own
          rw [if_pos present, found]
          exact congrArg some (markedCounts_injOn (List.mem_of_find?_eq_some found) equal)
      · next absent =>
          rw [if_neg absent]
          exact Option.map_eq_none_iff.1 own
    · intro condition counts rel inTree
      rw [matchLcovFile_traceOf, (find?_own_iff (endswith_sfPath root) order rel).2 (condition rel inTree)]
      split <;> rfl
  · intro recovers
    have lookup : ∀ counts rel, findByRelFromSf rel (traceOf root order distinct counts) =
        if rel ∈ order then some (counts rel) else none := by
      intro counts rel
      show ((order.map fun r => (sfPath root r, counts r)).find? fun item =>
        relFromSf item.1 == rel).map Prod.snd = _
      rw [List.find?_map, Option.map_map]
      have found := find?_only fun r member =>
        show (relFromSf (sfPath root r) == rel) = true ↔ r = rel by rw [recovers r member, beq_iff_eq]
      simp only [Function.comp_def, found]
      split <;> rfl
    simp only [Attributes]
    simp only [lookup]

/-- Two files of the source tree, in the order `lcov` records them. -/
def heartbeatTree : List Str := ["cluster/heartbeat.c".toList, "heartbeat.c".toList]

/-- One executed line in each, with different counts. -/
def heartbeatCounts (rel : Str) : LineHits := (∅ : LineHits).set 5 rel.length

theorem matchLcovFile_attributes_iff_sample :
    Attributes "/usr/src/linux".toList heartbeatTree heartbeatTree (by decide) ↔
      ∀ rel ∈ heartbeatTree, ∀ r ∈ heartbeatTree, r ≠ rel →
        endswith (sfPath "/usr/src/linux".toList r) rel = true → Precedes heartbeatTree rel r :=
  (matchLcovFile_attributes_iff "/usr/src/linux".toList heartbeatTree heartbeatTree (by decide)).1

/-- The file `heartbeat.c` gets the counts of `cluster/heartbeat.c`. -/
theorem matchLcovFile_heartbeat :
    matchLcovFile "heartbeat.c".toList
        (traceOf "/usr/src/linux".toList heartbeatTree (by decide) heartbeatCounts) =
      some (heartbeatCounts "cluster/heartbeat.c".toList) ∧
    ¬ Attributes "/usr/src/linux".toList heartbeatTree heartbeatTree (by decide) := by
  constructor
  · decide
  · intro attributes
    have own := attributes heartbeatCounts "heartbeat.c".toList (by decide)
    exact absurd own (by decide)

end Ocfs2Coverage.Trace
