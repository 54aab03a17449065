import Mathlib.Data.List.Sort
import Ocfs2Coverage.Source.BlockLaws
import Ocfs2Coverage.Source.Kinds

/-!
Contract: the two smoothing passes over the line hits of one file.

Owns: the file record, `file_block_groups`, `cohere_block_hits` and
`cohere_forward_hits`, and what each pass leaves at every line.

Does not own: lists of files, where the hits come from.
-/

namespace Ocfs2Coverage.Hits

open Ocfs2Coverage.Python
open Ocfs2Coverage.Source

/-- Line number to hit count. A tracefile may name any integer as a line. -/
abbrev LineHits := Dict Int Int

/-- `int(hits.get(ln, 0))`. -/
def hitsAt (hits : LineHits) (ln : Nat) : Int := hits.get ln 0

/-- A parsed source file. Its executable lines are increasing line numbers of the
file, and its blocks are those of `exec_line_blocks`. -/
structure SourceFile [UnicodeData] where
  rel : Str
  raw : List Str
  execKinds : Dict Nat LineKind
  blocks : Dict Nat Nat
  increasing : execKinds.keys.Pairwise (· < ·)
  inRange : ∀ ln ∈ execKinds.keys, 1 ≤ ln ∧ ln ≤ raw.length
  blocks_eq : blocks = execLineBlocks raw execKinds.keys

variable [UnicodeData]

namespace SourceFile

/-- `sorted(f["exec_kinds"])`. -/
def sortedLines (f : SourceFile) : List Nat := f.execKinds.keys.insertionSort (· ≤ ·)

/-- The executable lines. -/
def lines (f : SourceFile) : List Nat := f.execKinds.keys

theorem sortedLines_eq (f : SourceFile) : f.sortedLines = f.lines :=
  List.Pairwise.insertionSort_eq (f.increasing.imp Nat.le_of_lt)

theorem nodup_lines (f : SourceFile) : f.lines.Nodup := f.increasing.imp Nat.ne_of_lt

/-- `f["blocks"][ln]`. -/
def blockOf (f : SourceFile) (ln : Nat) : Nat := f.blocks.get ln 0

theorem blockOf_eq (f : SourceFile) (ln : Nat) :
    f.blockOf ln = Source.blockOf f.raw f.lines ln := by
  simp only [blockOf]
  rw [f.blocks_eq]
  rfl

/-- The lines of one block. -/
def blockLines (f : SourceFile) (bid : Nat) : List Nat :=
  f.lines.filter fun ln => f.blockOf ln = bid

theorem mem_blockLines {f : SourceFile} {bid ln : Nat} :
    ln ∈ f.blockLines bid ↔ ln ∈ f.lines ∧ f.blockOf ln = bid := by
  simp [blockLines]

/-- `b` follows `a` in a straight line. -/
def follows (f : SourceFile) (a b : Nat) : Prop :=
  Adjacent f.lines a b ∧ straightLine f.raw a b = true

theorem adjacent_mem {f : SourceFile} {a b : Nat} (adjacent : Adjacent f.lines a b) :
    a ∈ f.lines ∧ b ∈ f.lines := by
  obtain ⟨pre, post, shape⟩ := adjacent_iff.1 adjacent
  rw [shape]
  simp

/-- The pair goes on into another block. -/
def crosses (f : SourceFile) (a b : Nat) : Prop := f.follows a b ∧ f.blockOf a ≠ f.blockOf b

theorem entry {f : SourceFile} {a b c d : Nat} (first : f.crosses a b) (second : f.crosses c d)
    (shared : f.blockOf b = f.blockOf d) : b = d := by
  obtain ⟨⟨adjacentAB, straightAB⟩, apartAB⟩ := first
  obtain ⟨⟨adjacentCD, straightCD⟩, apartCD⟩ := second
  rw [f.blockOf_eq, f.blockOf_eq] at apartAB apartCD shared
  exact straightLine_entry f.nodup_lines adjacentAB straightAB apartAB adjacentCD straightCD
    apartCD shared

theorem noChain {f : SourceFile} {a b c d : Nat} (first : f.crosses a b)
    (shared : f.blockOf b = f.blockOf c) (second : f.crosses c d) : False := by
  obtain ⟨⟨adjacentAB, straightAB⟩, apartAB⟩ := first
  obtain ⟨⟨adjacentCD, straightCD⟩, apartCD⟩ := second
  rw [f.blockOf_eq, f.blockOf_eq] at apartAB apartCD shared
  exact straightLine_noChain f.nodup_lines adjacentAB straightAB apartAB shared adjacentCD
    straightCD apartCD

end SourceFile

/-! ## The passes -/

/-- `file_block_groups`. -/
def fileBlockGroups (f : SourceFile) : Dict Nat (List Nat) :=
  Dict.groupBy f.blockOf f.sortedLines

/-- `max(vals)`. -/
def maxOf : List Int → Int
  | [] => 0
  | value :: rest => rest.foldl max value

/-- The hits one round of `cohere_block_hits` gives every line of a block. -/
def groupHits (hits : LineHits) (lns : List Nat) : Int :=
  let vals := lns.map (hitsAt hits)
  if vals.any (0 < ·) then maxOf vals else 0

/-- `hits[ln] = h` for every line of a block. -/
def setLines (hits : LineHits) (lns : List Nat) (h : Int) : LineHits :=
  hits.setAll (lns.map Nat.cast) fun _ => h

/-- `cohere_block_hits`. -/
def cohereBlockHits (f : SourceFile) (hits : LineHits) : LineHits :=
  (fileBlockGroups f).items.foldl
    (fun current group => setLines current group.2 (groupHits current group.2)) hits

/-- One pair of `cohere_forward_hits`; `orig` is the snapshot. -/
def forwardStep (f : SourceFile) (orig current : LineHits) (pair : Nat × Nat) : LineHits :=
  if straightLine f.raw pair.1 pair.2 && decide (0 < hitsAt orig pair.1) &&
      decide (hitsAt current pair.2 ≤ 0) then
    current.set pair.2 (hitsAt orig pair.1)
  else current

/-- `cohere_forward_hits`. -/
def cohereForwardHits (f : SourceFile) (hits : LineHits) : LineHits :=
  (f.sortedLines.zip f.sortedLines.tail).foldl (forwardStep f hits) hits

/-! ## The block pass -/

omit [UnicodeData] in
theorem hitsAt_setLines (hits : LineHits) (lns : List Nat) (h : Int) (ln : Nat) :
    hitsAt (setLines hits lns h) ln = if ln ∈ lns then h else hitsAt hits ln := by
  simp only [hitsAt, setLines]
  rw [Dict.get_setAll]
  simp

omit [UnicodeData] in
theorem le_foldl_max_iff {x start : Int} {values : List Int} :
    x ≤ values.foldl max start ↔ x ≤ start ∨ ∃ value ∈ values, x ≤ value := by
  induction values generalizing start with
  | nil => simp
  | cons value rest inductionHypothesis =>
      rw [List.foldl_cons, inductionHypothesis, le_max_iff]
      simp [or_assoc]

omit [UnicodeData] in
/-- The maximum of the hits of a block, or zero when none is positive. -/
theorem groupHits_eq (hits : LineHits) (lns : List Nat) :
    groupHits hits lns = (lns.map (hitsAt hits)).foldl max 0 := by
  unfold groupHits
  generalize lns.map (hitsAt hits) = values
  refine eq_of_forall_le_iff fun x => ?_
  dsimp only
  rw [le_foldl_max_iff]
  split
  · next positive =>
      obtain ⟨witness, member, large⟩ := List.any_eq_true.1 positive
      have above : 0 < witness := of_decide_eq_true large
      cases values with
      | nil => cases member
      | cons value rest =>
          rw [maxOf, le_foldl_max_iff]
          simp only [List.mem_cons, exists_eq_or_imp]
          constructor
          · exact Or.inr
          · intro either
            cases either with
            | inl small =>
                rcases List.mem_cons.1 member with rfl | later
                · exact Or.inl (by omega)
                · exact Or.inr ⟨witness, later, by omega⟩
            | inr found => exact found
  · next nonpositive =>
      constructor
      · exact Or.inl
      · intro either
        cases either with
        | inl small => exact small
        | inr found =>
            obtain ⟨value, member, small⟩ := found
            have notPositive : ¬ 0 < value := fun large =>
              nonpositive (List.any_eq_true.2 ⟨value, member, decide_eq_true large⟩)
            omega

omit [UnicodeData] in
theorem groupHits_nonneg (hits : LineHits) (lns : List Nat) : 0 ≤ groupHits hits lns := by
  rw [groupHits_eq, le_foldl_max_iff]
  exact Or.inl (Int.le_refl 0)

omit [UnicodeData] in
theorem le_groupHits {hits : LineHits} {lns : List Nat} {ln : Nat} (member : ln ∈ lns) :
    hitsAt hits ln ≤ groupHits hits lns := by
  rw [groupHits_eq, le_foldl_max_iff]
  exact Or.inr ⟨_, List.mem_map.2 ⟨ln, member, rfl⟩, Int.le_refl _⟩

omit [UnicodeData] in
theorem groupHits_pos_iff {hits : LineHits} {lns : List Nat} :
    0 < groupHits hits lns ↔ ∃ ln ∈ lns, 0 < hitsAt hits ln := by
  rw [groupHits_eq, Int.lt_iff_add_one_le, le_foldl_max_iff]
  simp only [List.mem_map, exists_exists_and_eq_and]
  constructor
  · intro either
    cases either with
    | inl absurdity => omega
    | inr found => exact found.imp fun ln both => ⟨both.1, by omega⟩
  · exact fun found => Or.inr (found.imp fun ln both => ⟨both.1, by omega⟩)

omit [UnicodeData] in
theorem groupHits_congr {hits other : LineHits} {lns : List Nat}
    (agree : ∀ ln ∈ lns, hitsAt hits ln = hitsAt other ln) :
    groupHits hits lns = groupHits other lns := by
  rw [groupHits_eq, groupHits_eq, List.map_congr_left agree]

omit [UnicodeData] in
/-- A block whose lines all have one nonnegative count keeps it. -/
theorem groupHits_const {hits : LineHits} {lns : List Nat} {h : Int} (nonempty : lns ≠ [])
    (nonneg : 0 ≤ h) (const : ∀ ln ∈ lns, hitsAt hits ln = h) : groupHits hits lns = h := by
  refine eq_of_forall_le_iff fun x => ?_
  rw [groupHits_eq, le_foldl_max_iff]
  constructor
  · intro either
    cases either with
    | inl small => omega
    | inr found =>
        obtain ⟨value, member, below⟩ := found
        obtain ⟨ln, listed, rfl⟩ := List.mem_map.1 member
        rwa [const ln listed] at below
  · intro below
    obtain ⟨ln, rest, rfl⟩ := List.exists_cons_of_ne_nil nonempty
    refine Or.inr ⟨hitsAt hits ln, by simp, ?_⟩
    rwa [const ln (by simp)]

/-- What the block pass leaves at the lines of a file. -/
def blockHits (f : SourceFile) (hits : LineHits) (ln : Nat) : Int :=
  groupHits hits (f.blockLines (f.blockOf ln))

theorem mem_items_fileBlockGroups {f : SourceFile} {bid : Nat} {lns : List Nat}
    (member : (bid, lns) ∈ (fileBlockGroups f).items) : lns = f.blockLines bid ∧ lns ≠ [] := by
  obtain ⟨shape, ln, listed, rfl⟩ := Dict.mem_items_groupBy f.blockOf member
  rw [f.sortedLines_eq] at shape listed
  have present : ln ∈ lns := by
    rw [shape]
    simp [listed]
  exact ⟨shape, List.ne_nil_of_mem present⟩

theorem exists_group {f : SourceFile} {ln : Nat} (member : ln ∈ f.lines) :
    (f.blockOf ln, f.blockLines (f.blockOf ln)) ∈ (fileBlockGroups f).items := by
  have present : f.blockOf ln ∈ (fileBlockGroups f).keys :=
    (Dict.mem_keys_groupBy f.blockOf).2 ⟨ln, by rwa [f.sortedLines_eq], rfl⟩
  obtain ⟨item, listed, bid⟩ := List.mem_map.1 present
  have shape : item.2 = f.blockLines item.1 := (mem_items_fileBlockGroups listed).1
  rw [← bid, ← shape]
  exact listed

/-- Assigning whole groups leaves at each line the value of its group, when a value
depends on the lines of its own group only. -/
theorem hitsAt_foldl_setLines (f : SourceFile) (value : LineHits → Nat × List Nat → Int)
    (ownLines : ∀ hits other group, (∀ ln ∈ group.2, hitsAt hits ln = hitsAt other ln) →
      value hits group = value other group)
    (groups : List (Nat × List Nat)) (distinct : (groups.map Prod.fst).Nodup)
    (shape : ∀ group ∈ groups, group.2 = f.blockLines group.1) (hits : LineHits) (ln : Nat) :
    hitsAt (groups.foldl
        (fun current group => setLines current group.2 (value current group)) hits) ln =
      if ln ∈ f.lines ∧ f.blockOf ln ∈ groups.map Prod.fst then
        value hits (f.blockOf ln, f.blockLines (f.blockOf ln))
      else hitsAt hits ln := by
  induction groups generalizing hits with
  | nil => simp
  | cons group rest inductionHypothesis =>
      rw [List.map_cons, List.nodup_cons] at distinct
      have here := shape group (by simp)
      rw [List.foldl_cons, inductionHypothesis distinct.2
        (fun other member => shape other (by simp [member]))]
      by_cases later : ln ∈ f.lines ∧ f.blockOf ln ∈ rest.map Prod.fst
      · rw [if_pos later, if_pos ⟨later.1, by simp [later.2]⟩]
        apply ownLines
        intro other member
        rw [hitsAt_setLines, if_neg]
        intro inside
        rw [here, SourceFile.mem_blockLines] at inside
        rw [SourceFile.mem_blockLines] at member
        apply distinct.1
        rw [← inside.2, member.2]
        exact later.2
      · rw [if_neg later, hitsAt_setLines, here]
        by_cases now : ln ∈ f.blockLines group.1
        · have both := SourceFile.mem_blockLines.1 now
          rw [if_pos now, if_pos ⟨both.1, by simp [both.2]⟩, both.2, ← here]
        · rw [if_neg now, if_neg]
          intro both
          rw [List.map_cons, List.mem_cons] at both
          rcases both.2 with equal | member
          · exact now (SourceFile.mem_blockLines.2 ⟨both.1, equal⟩)
          · exact later ⟨both.1, member⟩

/-- All groups of a file. -/
theorem hitsAt_foldl_fileBlockGroups {f : SourceFile} (value : LineHits → Nat × List Nat → Int)
    (ownLines : ∀ hits other group, (∀ ln ∈ group.2, hitsAt hits ln = hitsAt other ln) →
      value hits group = value other group) (hits : LineHits) {ln : Nat} (member : ln ∈ f.lines) :
    hitsAt ((fileBlockGroups f).items.foldl
        (fun current group => setLines current group.2 (value current group)) hits) ln =
      value hits (f.blockOf ln, f.blockLines (f.blockOf ln)) := by
  rw [hitsAt_foldl_setLines f value ownLines _ (fileBlockGroups f).nodup
    fun group listed => (mem_items_fileBlockGroups listed).1]
  rw [if_pos ⟨member, List.mem_map.2 ⟨_, exists_group member, rfl⟩⟩]

/-- The block pass gives every executable line the maximum of its block. -/
theorem hitsAt_cohereBlockHits {f : SourceFile} {hits : LineHits} {ln : Nat}
    (member : ln ∈ f.lines) : hitsAt (cohereBlockHits f hits) ln = blockHits f hits ln :=
  hitsAt_foldl_fileBlockGroups (fun current group => groupHits current group.2)
    (fun _ _ _ agree => groupHits_congr agree) hits member

theorem blockHits_nonneg (f : SourceFile) (hits : LineHits) (ln : Nat) :
    0 ≤ blockHits f hits ln :=
  groupHits_nonneg hits _

theorem le_blockHits {f : SourceFile} {hits : LineHits} {ln : Nat} (member : ln ∈ f.lines) :
    hitsAt hits ln ≤ blockHits f hits ln :=
  le_groupHits (SourceFile.mem_blockLines.2 ⟨member, rfl⟩)

theorem blockHits_pos_iff {f : SourceFile} {hits : LineHits} {ln : Nat} :
    0 < blockHits f hits ln ↔
      ∃ other ∈ f.lines, f.blockOf other = f.blockOf ln ∧ 0 < hitsAt hits other := by
  simp only [blockHits]
  rw [groupHits_pos_iff]
  simp only [SourceFile.mem_blockLines, and_assoc]

omit [UnicodeData] in
theorem mem_keys_setLines {hits : LineHits} {lns : List Nat} {h k : Int} :
    k ∈ (setLines hits lns h).keys ↔ (∃ ln ∈ lns, (ln : Int) = k) ∨ k ∈ hits.keys := by
  simp only [setLines]
  rw [Dict.mem_keys_setAll, List.mem_map]

/-- The block pass defines exactly the executable lines, besides what was defined. -/
theorem mem_keys_cohereBlockHits {f : SourceFile} {hits : LineHits} {k : Int} :
    k ∈ (cohereBlockHits f hits).keys ↔ (∃ ln ∈ f.lines, (ln : Int) = k) ∨ k ∈ hits.keys := by
  have run : ∀ (groups : List (Nat × List Nat)) (start : LineHits),
      k ∈ (groups.foldl (fun current group =>
          setLines current group.2 (groupHits current group.2)) start).keys ↔
        (∃ group ∈ groups, ∃ ln ∈ group.2, (ln : Int) = k) ∨ k ∈ start.keys := by
    intro groups
    induction groups with
    | nil => simp
    | cons group rest inductionHypothesis =>
        intro start
        rw [List.foldl_cons, inductionHypothesis, mem_keys_setLines]
        simp only [List.mem_cons, exists_eq_or_imp]
        rw [or_left_comm, or_assoc]
  simp only [cohereBlockHits]
  rw [run]
  refine or_congr_left ⟨?_, ?_⟩
  · intro ⟨group, listed, ln, member, equal⟩
    rw [(mem_items_fileBlockGroups listed).1, SourceFile.mem_blockLines] at member
    exact ⟨ln, member.1, equal⟩
  · intro ⟨ln, member, equal⟩
    exact ⟨_, exists_group member, ln, SourceFile.mem_blockLines.2 ⟨member, rfl⟩, equal⟩

/-- Hits that are nonnegative and equal within each block. -/
structure Uniform (f : SourceFile) (hits : LineHits) : Prop where
  nonneg : ∀ ln ∈ f.lines, 0 ≤ hitsAt hits ln
  sameBlock : ∀ ln ∈ f.lines, ∀ other ∈ f.lines, f.blockOf ln = f.blockOf other →
    hitsAt hits ln = hitsAt hits other

theorem uniform_cohereBlockHits (f : SourceFile) (hits : LineHits) :
    Uniform f (cohereBlockHits f hits) where
  nonneg := by
    intro ln member
    rw [hitsAt_cohereBlockHits member]
    exact blockHits_nonneg f hits ln
  sameBlock := by
    intro ln member other otherMember same
    rw [hitsAt_cohereBlockHits member, hitsAt_cohereBlockHits otherMember]
    simp only [blockHits]
    rw [same]

theorem Uniform.blockHits_eq {f : SourceFile} {hits : LineHits} (uniform : Uniform f hits)
    {ln : Nat} (member : ln ∈ f.lines) : blockHits f hits ln = hitsAt hits ln := by
  apply groupHits_const
  · exact List.ne_nil_of_mem (SourceFile.mem_blockLines.2 ⟨member, rfl⟩)
  · exact uniform.nonneg ln member
  · intro other inside
    have both := SourceFile.mem_blockLines.1 inside
    exact uniform.sameBlock other both.1 ln member both.2

/-- The block pass leaves the hits of every line where they are exactly on
uniform hits. -/
theorem cohereBlockHits_fixed_iff {f : SourceFile} {hits : LineHits} :
    (∀ ln ∈ f.lines, hitsAt (cohereBlockHits f hits) ln = hitsAt hits ln) ↔ Uniform f hits := by
  constructor
  · intro fixed
    have uniform := uniform_cohereBlockHits f hits
    refine ⟨fun ln member => ?_, fun ln member other otherMember same => ?_⟩
    · rw [← fixed ln member]
      exact uniform.nonneg ln member
    · rw [← fixed ln member, ← fixed other otherMember]
      exact uniform.sameBlock ln member other otherMember same
  · intro uniform ln member
    rw [hitsAt_cohereBlockHits member, uniform.blockHits_eq member]

/-! ## The forward pass -/

/-- The second lines of the pairs are distinct, so each is written at most once. -/
theorem hitsAt_foldl_forward (f : SourceFile) (orig : LineHits) (pairs : List (Nat × Nat))
    (distinct : (pairs.map Prod.snd).Nodup) (current : LineHits) (b : Nat) :
    (b ∉ pairs.map Prod.snd →
      hitsAt (pairs.foldl (forwardStep f orig) current) b = hitsAt current b) ∧
    ∀ a, (a, b) ∈ pairs →
      hitsAt (pairs.foldl (forwardStep f orig) current) b =
        if straightLine f.raw a b = true ∧ 0 < hitsAt orig a ∧ hitsAt current b ≤ 0 then
          hitsAt orig a
        else hitsAt current b := by
  induction pairs generalizing current with
  | nil => simp
  | cons pair rest inductionHypothesis =>
      rw [List.map_cons, List.nodup_cons] at distinct
      have step := inductionHypothesis distinct.2 (forwardStep f orig current pair)
      have other : ∀ c : Nat, c ≠ pair.2 →
          hitsAt (forwardStep f orig current pair) c = hitsAt current c := by
        intro c different
        simp only [forwardStep]
        split
        · have apart : (c : Int) ≠ (pair.2 : Int) := by exact_mod_cast different
          simp only [hitsAt]
          rw [Dict.get_set, if_neg apart]
        · rfl
      rw [List.foldl_cons]
      constructor
      · intro absent
        rw [List.map_cons, List.mem_cons, not_or] at absent
        rw [step.1 absent.2, other b absent.1]
      · intro a member
        rcases List.mem_cons.1 member with rfl | later
        · rw [step.1 distinct.1]
          simp only [forwardStep, Bool.and_eq_true, decide_eq_true_eq, and_assoc]
          split
          · simp only [hitsAt]
            rw [Dict.get_set, if_pos rfl]
          · rfl
        · have different : b ≠ pair.2 := by
            intro equal
            apply distinct.1
            rw [← equal]
            exact List.mem_map.2 ⟨(a, b), later, rfl⟩
          rw [step.2 a later, other b different]

omit [UnicodeData] in
theorem map_snd_pairs (lines : List Nat) :
    (lines.zip lines.tail).map Prod.snd = lines.tail :=
  List.map_snd_zip (by simp)

theorem nodup_pairs (f : SourceFile) :
    ((f.lines.zip f.lines.tail).map Prod.snd).Nodup := by
  rw [map_snd_pairs]
  exact f.nodup_lines.sublist (List.tail_sublist f.lines)

/-- A line after `a` takes over the hits of `a` when it has none. -/
theorem hitsAt_cohereForwardHits {f : SourceFile} {hits : LineHits} {a b : Nat}
    (adjacent : Adjacent f.lines a b) :
    hitsAt (cohereForwardHits f hits) b =
      if straightLine f.raw a b = true ∧ 0 < hitsAt hits a ∧ hitsAt hits b ≤ 0 then
        hitsAt hits a
      else hitsAt hits b := by
  simp only [cohereForwardHits]
  rw [f.sortedLines_eq]
  exact (hitsAt_foldl_forward f hits _ (nodup_pairs f) hits b).2 a adjacent

/-- A line without a straight-line predecessor keeps its hits. -/
theorem hitsAt_cohereForwardHits_of_not {f : SourceFile} {hits : LineHits} {b : Nat}
    (alone : ∀ a, ¬ f.follows a b) : hitsAt (cohereForwardHits f hits) b = hitsAt hits b := by
  by_cases second : ∃ a, Adjacent f.lines a b
  · obtain ⟨a, adjacent⟩ := second
    rw [hitsAt_cohereForwardHits adjacent, if_neg]
    exact fun both => alone a ⟨adjacent, both.1⟩
  · simp only [cohereForwardHits]
    rw [f.sortedLines_eq]
    apply (hitsAt_foldl_forward f hits _ (nodup_pairs f) hits b).1
    intro member
    obtain ⟨pair, listed, equal⟩ := List.mem_map.1 member
    subst equal
    exact second ⟨pair.1, listed⟩

theorem le_cohereForwardHits (f : SourceFile) (hits : LineHits) (b : Nat) :
    hitsAt hits b ≤ hitsAt (cohereForwardHits f hits) b := by
  by_cases follower : ∃ a, f.follows a b
  · obtain ⟨a, adjacent, -⟩ := follower
    rw [hitsAt_cohereForwardHits adjacent]
    split <;> omega
  · rw [hitsAt_cohereForwardHits_of_not fun a found => follower ⟨a, found⟩]

theorem cohereForwardHits_pos_iff {f : SourceFile} {hits : LineHits} {b : Nat} :
    0 < hitsAt (cohereForwardHits f hits) b ↔
      0 < hitsAt hits b ∨ ∃ a, f.follows a b ∧ 0 < hitsAt hits a := by
  by_cases covered : 0 < hitsAt hits b
  · have kept := le_cohereForwardHits f hits b
    exact ⟨fun _ => Or.inl covered, fun _ => by omega⟩
  · rw [or_iff_right covered]
    constructor
    · intro positive
      by_contra none
      by_cases follower : ∃ a, f.follows a b
      · obtain ⟨a, adjacent, straight⟩ := follower
        rw [hitsAt_cohereForwardHits adjacent, if_neg] at positive
        · exact covered positive
        · exact fun both => none ⟨a, ⟨adjacent, straight⟩, both.2.1⟩
      · rw [hitsAt_cohereForwardHits_of_not fun a found => follower ⟨a, found⟩] at positive
        exact covered positive
    · intro ⟨a, ⟨adjacent, straight⟩, positive⟩
      rw [hitsAt_cohereForwardHits adjacent, if_pos ⟨straight, positive, by omega⟩]
      exact positive

/-- Both passes look at the hits of executable lines only. -/
theorem smoothed_congr {f : SourceFile} {hits other : LineHits}
    (agree : ∀ ln ∈ f.lines, hitsAt hits ln = hitsAt other ln) {ln : Nat} (member : ln ∈ f.lines) :
    hitsAt (cohereForwardHits f (cohereBlockHits f hits)) ln =
      hitsAt (cohereForwardHits f (cohereBlockHits f other)) ln := by
  have blocks : ∀ line ∈ f.lines,
      hitsAt (cohereBlockHits f hits) line = hitsAt (cohereBlockHits f other) line := by
    intro line listed
    rw [hitsAt_cohereBlockHits listed, hitsAt_cohereBlockHits listed]
    exact groupHits_congr fun x inside => agree x (SourceFile.mem_blockLines.1 inside).1
  by_cases second : ∃ a, Adjacent f.lines a ln
  · obtain ⟨a, adjacent⟩ := second
    rw [hitsAt_cohereForwardHits adjacent, hitsAt_cohereForwardHits adjacent, blocks ln member,
      blocks a (SourceFile.adjacent_mem adjacent).1]
  · rw [hitsAt_cohereForwardHits_of_not fun a follows => second ⟨a, follows.1⟩,
      hitsAt_cohereForwardHits_of_not fun a follows => second ⟨a, follows.1⟩, blocks ln member]

theorem mem_keys_cohereForwardHits {f : SourceFile} {hits : LineHits} {k : Int}
    (defined : ∀ ln ∈ f.lines, (ln : Int) ∈ hits.keys) :
    k ∈ (cohereForwardHits f hits).keys ↔ k ∈ hits.keys := by
  have run : ∀ (pairs : List (Nat × Nat)) (current : LineHits),
      (∀ pair ∈ pairs, (pair.2 : Int) ∈ current.keys) →
        (k ∈ (pairs.foldl (forwardStep f hits) current).keys ↔ k ∈ current.keys) := by
    intro pairs
    induction pairs with
    | nil => exact fun _ _ => Iff.rfl
    | cons pair rest inductionHypothesis =>
        intro current present
        have same : ∀ j, j ∈ (forwardStep f hits current pair).keys ↔ j ∈ current.keys := by
          intro j
          simp only [forwardStep]
          split
          · rw [Dict.keys_set, if_pos (present pair (by simp))]
          · rfl
        rw [List.foldl_cons, inductionHypothesis, same]
        exact fun other member => (same _).2 (present other (by simp [member]))
  simp only [cohereForwardHits]
  rw [f.sortedLines_eq]
  refine run _ hits fun pair member => defined pair.2 ?_
  exact List.mem_of_mem_tail (List.of_mem_zip member).2

end Ocfs2Coverage.Hits
