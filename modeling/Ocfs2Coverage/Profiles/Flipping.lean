import Ocfs2Coverage.Profiles.Synthetic

/-!
Contract: the loop that flips whole blocks until enough lines are on one side.

Owns: the two correction loops of `adjust_hits_to_target` as one loop, with the
side it flips to as a parameter, the invariant of that loop and what it reaches.

Does not own: the first choice of blocks, the order in which blocks are tried.
-/

namespace Ocfs2Coverage.Profiles

open Ocfs2Coverage.Python
open Ocfs2Coverage.Source
open Ocfs2Coverage.Hits

/-- Changing one element of a list changes the sum by that element's change. -/
theorem sum_map_modify {α : Type} (score : α → Nat) (change : α → α) {xs : List α} {i : Nat} {x : α}
    (found : xs[i]? = some x) :
    ((xs.modify i change).map score).sum + score x = (xs.map score).sum + score (change x) := by
  induction xs generalizing i with
  | nil => cases found
  | cons head rest inductionHypothesis =>
      cases i with
      | zero =>
          rw [List.getElem?_cons_zero, Option.some.injEq] at found
          subst found
          simp only [List.modify_zero_cons, List.map_cons, List.sum_cons]
          omega
      | succ i =>
          rw [List.getElem?_cons_succ] at found
          have tail := inductionHypothesis found
          simp only [List.modify_succ_cons, List.map_cons, List.sum_cons]
          omega

/-- Counting after the lines of `group` joined. -/
theorem countP_join {lines group : List Nat} {before after : Nat → Bool} (inside : Nat → Bool)
    (shape : group = lines.filter inside)
    (joined : ∀ ln ∈ lines, after ln = (before ln || inside ln))
    (fresh : ∀ ln ∈ lines, inside ln = true → before ln = false) :
    lines.countP after = lines.countP before + group.length := by
  subst shape
  induction lines with
  | nil => rfl
  | cons ln rest inductionHypothesis =>
      have tail := inductionHypothesis (fun other member => joined other (by simp [member]))
        fun other member => fresh other (by simp [member])
      have here := joined ln (by simp)
      have new := fresh ln (by simp)
      rw [List.countP_cons, List.countP_cons, List.filter_cons, tail, here]
      by_cases placed : inside ln = true
      · rw [placed, new placed]
        simp
        omega
      · simp [placed]
        omega

variable [Runtime]

/-! ## Lines on one side -/

/-- The line is covered when `side` is true, uncovered when it is false. -/
def onSide (side : Bool) (hits : LineHits) (ln : Nat) : Bool := decide (0 < hitsAt hits ln) == side

def fileSide (side : Bool) (f : CoverageFile) : Nat := f.source.lines.countP (onSide side f.hits)

def sideCount (side : Bool) (files : List CoverageFile) : Nat := (files.map (fileSide side)).sum

theorem sideCount_true (files : List CoverageFile) : sideCount true files = scoreHit files := by
  have here : fileSide true = fileHit := by
    funext f
    unfold fileSide fileHit onSide
    simp
  rw [sideCount, scoreHit, here]

theorem sideCount_false (files : List CoverageFile) :
    sideCount false files + scoreHit files = scoreTotal files := by
  have here : ∀ f : CoverageFile, fileSide false f + fileHit f = fileTotal f := by
    intro f
    have split := List.length_eq_countP_add_countP (fun ln => decide (0 < hitsAt f.hits ln))
      (l := f.source.lines)
    have other : fileSide false f = f.source.lines.countP fun ln =>
        decide ¬ (decide (0 < hitsAt f.hits ln) = true) := by
      unfold fileSide onSide
      apply List.countP_congr
      simp
    unfold fileHit fileTotal
    omega
  unfold sideCount scoreHit scoreTotal
  induction files with
  | nil => rfl
  | cons f rest inductionHypothesis =>
      have first := here f
      simp only [List.map_cons, List.sum_cons]
      omega

/-- Files all of whose lines are on the side count fully. -/
theorem sideCount_eq_total {side : Bool} {files : List CoverageFile}
    (all : ∀ f ∈ files, ∀ ln ∈ f.source.lines, onSide side f.hits ln = true) :
    sideCount side files = scoreTotal files := by
  unfold sideCount scoreTotal
  congr 1
  apply List.map_congr_left
  intro f member
  exact List.countP_eq_length.2 (all f member)

/-! ## Flipping one block -/

/-- Flipping a block that is on the other side moves all its lines. -/
theorem fileSide_setLines {side : Bool} {f : CoverageFile} {bid : Nat} {h : Int}
    (flips : decide (0 < h) = side)
    (fresh : ∀ ln ∈ f.source.blockLines bid, onSide side f.hits ln = false) :
    fileSide side { f with hits := setLines f.hits (f.source.blockLines bid) h } =
      fileSide side f + (f.source.blockLines bid).length := by
  apply countP_join (fun ln => decide (f.source.blockOf ln = bid)) rfl
  · intro ln member
    have inside : ln ∈ f.source.blockLines bid ↔ f.source.blockOf ln = bid := by
      rw [SourceFile.mem_blockLines, and_iff_right member]
    simp only [onSide, hitsAt_setLines, inside]
    by_cases here : f.source.blockOf ln = bid <;> simp [here, flips]
  · intro ln member here
    have inside := SourceFile.mem_blockLines.2 ⟨member, of_decide_eq_true here⟩
    exact fresh ln inside

/-! ## The loop -/

/-- One round of either correction loop: flip the block to `side` unless enough
lines are there already or the block was there from the start. -/
def flipStep (side : Bool) (count : List CoverageFile → RankedBlock → Int)
    (st : List CoverageFile × Int) (b : RankedBlock) : List CoverageFile × Int :=
  if st.2 ≤ 0 then st
  else if b.covered = side then st
  else (setBlock st.1 b.file b.lns (count st.1 b), st.2 - b.lns.length)

/-- `b` is a block of the files, with its covered flag as it stands. -/
structure BlockOf (files : List CoverageFile) (b : RankedBlock) : Prop where
  isBlock : ∃ f, files[b.file]? = some f ∧ b.lns = f.source.blockLines b.bid
  current : ∀ f, files[b.file]? = some f → ∀ ln ∈ b.lns, decide (0 < hitsAt f.hits ln) = b.covered

/-- The second files have the sources of the first, and every line of the first
that is on the side is on it still. -/
structure Stays (side : Bool) (before after : List CoverageFile) : Prop where
  sources : after.map CoverageFile.source = before.map CoverageFile.source
  lines : ∀ (i : Nat) f g, before[i]? = some f → after[i]? = some g → ∀ ln ∈ f.source.lines,
    onSide side f.hits ln = true → onSide side g.hits ln = true

/-- What holds between two rounds: `todo` are the blocks still to be tried, `largest`
bounds their size and `goal` is the number of lines wanted on the side. -/
structure Flipping (side : Bool) (largest : Nat) (goal : Int) (start : List CoverageFile)
    (todo : List RankedBlock) (st : List CoverageFile × Int) : Prop where
  stays : Stays side start st.1
  coherent : ∀ f ∈ st.1, Coherent f
  missing : st.2 = goal - sideCount side st.1
  overshoot : -(largest : Int) < st.2
  blocks : ∀ b ∈ todo, BlockOf st.1 b
  finished : 0 < st.2 → ∀ i f, st.1[i]? = some f → ∀ ln ∈ f.source.lines,
    onSide side f.hits ln = true ∨ ∃ b ∈ todo, b.file = i ∧ ln ∈ b.lns

theorem getElem?_source {before after : List CoverageFile}
    (sources : after.map CoverageFile.source = before.map CoverageFile.source) {i : Nat}
    {f : CoverageFile} (found : before[i]? = some f) :
    ∃ g, after[i]? = some g ∧ g.source = f.source := by
  have same := congrArg (fun xs => xs[i]?) sources
  simp only [List.getElem?_map, found, Option.map_some] at same
  exact Option.map_eq_some_iff.1 same

theorem Stays.refl (side : Bool) (files : List CoverageFile) : Stays side files files where
  sources := rfl
  lines := by
    intro i f g found found' ln _ on
    rw [found, Option.some.injEq] at found'
    rw [← found']
    exact on

theorem Stays.trans {side : Bool} {first second third : List CoverageFile}
    (left : Stays side first second) (right : Stays side second third) :
    Stays side first third where
  sources := right.sources.trans left.sources
  lines := by
    intro i f h found found' ln member on
    obtain ⟨g, middle, same⟩ := getElem?_source left.sources found
    have onMiddle := left.lines i f g found middle ln member on
    rw [← same] at member
    exact right.lines i g h middle found' ln member onMiddle

/-! ## One flip -/

section Flip

variable {files : List CoverageFile} {f : CoverageFile} {b : RankedBlock} {h : Int} {side : Bool}

/-- The files after a block of `f` got the count `h`. -/
theorem getElem?_setBlock (found : files[b.file]? = some f) (i : Nat) :
    (setBlock files b.file b.lns h)[i]? =
      if b.file = i then some { f with hits := setLines f.hits b.lns h } else files[i]? := by
  unfold setBlock
  rw [List.getElem?_modify]
  split
  · next equal => rw [← equal, found]; rfl
  · simp

theorem sources_setBlock (files : List CoverageFile) (index : Nat) (lns : List Nat) (h : Int) :
    (setBlock files index lns h).map CoverageFile.source = files.map CoverageFile.source := by
  apply List.ext_getElem?
  intro i
  simp only [setBlock, List.getElem?_map, List.getElem?_modify]
  cases files[i]? with
  | none => simp
  | some g => by_cases here : index = i <;> simp [here]

theorem stays_setBlock (found : files[b.file]? = some f) (flips : decide (0 < h) = side) :
    Stays side files (setBlock files b.file b.lns h) where
  sources := sources_setBlock files b.file b.lns h
  lines := by
    intro i g g' before after ln _ on
    rw [getElem?_setBlock found] at after
    split at after
    · next equal =>
        rw [← equal, found, Option.some.injEq] at before
        rw [Option.some.injEq] at after
        rw [← before] at on
        rw [← after]
        unfold onSide at on ⊢
        rw [hitsAt_setLines]
        split
        · simp [flips]
        · exact on
    · rw [before, Option.some.injEq] at after
      rw [← after]
      exact on

theorem sideCount_setBlock (found : files[b.file]? = some f)
    (shape : b.lns = f.source.blockLines b.bid) (flips : decide (0 < h) = side)
    (fresh : ∀ ln ∈ b.lns, onSide side f.hits ln = false) :
    sideCount side (setBlock files b.file b.lns h) = sideCount side files + b.lns.length := by
  have changed := sum_map_modify (fileSide side)
    (fun g => { g with hits := setLines g.hits b.lns h }) found
  have moved : fileSide side { f with hits := setLines f.hits b.lns h } =
      fileSide side f + b.lns.length := by
    rw [shape] at fresh ⊢
    exact fileSide_setLines flips fresh
  unfold sideCount setBlock
  rw [moved] at changed
  omega

/-- Other blocks keep their flag. -/
theorem blockOf_setBlock {o : RankedBlock} (found : files[b.file]? = some f)
    (shape : b.lns = f.source.blockLines b.bid) (apart : (o.file, o.bid) ≠ (b.file, b.bid))
    (block : BlockOf files o) : BlockOf (setBlock files b.file b.lns h) o where
  isBlock := by
    obtain ⟨g, place, lns⟩ := block.isBlock
    obtain ⟨g', place', same⟩ := getElem?_source (sources_setBlock files b.file b.lns h) place
    exact ⟨g', place', by rw [lns, same]⟩
  current := by
    intro g place ln member
    rw [getElem?_setBlock found] at place
    split at place
    · next equal =>
        have otherBid : o.bid ≠ b.bid := fun same => apart (by rw [same, equal])
        obtain ⟨g', place', lns⟩ := block.isBlock
        rw [← equal, found, Option.some.injEq] at place'
        have outside : ln ∉ b.lns := by
          intro inside
          rw [shape, SourceFile.mem_blockLines] at inside
          rw [lns, ← place', SourceFile.mem_blockLines] at member
          exact otherBid (member.2.symm.trans inside.2)
        rw [Option.some.injEq] at place
        rw [← place, hitsAt_setLines, if_neg outside]
        exact block.current f (by rw [← equal]; exact found) ln member
    · exact block.current g place ln member

end Flip

/-! ## The step and the run -/

section Run

variable {side : Bool} {largest : Nat} {goal : Int} {start : List CoverageFile}
  {count : List CoverageFile → RankedBlock → Int}

theorem flipping_step {b : RankedBlock} {todo : List RankedBlock} {st : List CoverageFile × Int}
    (flips : ∀ files, decide (0 < count files b) = side) (nonneg : ∀ files, 0 ≤ count files b)
    (size : b.lns.length ≤ largest) (apart : ∀ o ∈ todo, (o.file, o.bid) ≠ (b.file, b.bid))
    (inv : Flipping side largest goal start (b :: todo) st) :
    Flipping side largest goal start todo (flipStep side count st b) := by
  have rest : ∀ o ∈ todo, BlockOf st.1 o := fun o member => inv.blocks o (by simp [member])
  have block := inv.blocks b (by simp)
  unfold flipStep
  split
  · next enough =>
      exact ⟨inv.stays, inv.coherent, inv.missing, inv.overshoot, rest, fun short => by omega⟩
  · next short =>
      split
      · next there =>
          refine ⟨inv.stays, inv.coherent, inv.missing, inv.overshoot, rest, ?_⟩
          intro _ i f place ln member
          rcases inv.finished (by omega) i f place ln member with on | ⟨o, listed, index, inside⟩
          · exact Or.inl on
          · rcases List.mem_cons.1 listed with rfl | later
            · left
              unfold onSide
              rw [block.current f (by rw [index]; exact place) ln inside, there]
              simp
            · exact Or.inr ⟨o, later, index, inside⟩
      · next away =>
          obtain ⟨f, found, shape⟩ := block.isBlock
          have fresh : ∀ ln ∈ b.lns, onSide side f.hits ln = false := by
            intro ln member
            unfold onSide
            rw [block.current f found ln member]
            simpa using away
          refine ⟨inv.stays.trans (stays_setBlock found (flips st.1)), ?_, ?_, ?_, ?_, ?_⟩
          · intro g member
            obtain ⟨i, place⟩ := List.mem_iff_getElem?.1 member
            rw [getElem?_setBlock found] at place
            split at place
            · rw [Option.some.injEq] at place
              rw [← place, shape]
              exact (inv.coherent f (List.mem_of_getElem? found)).setLines b.bid (nonneg st.1)
            · exact inv.coherent g (List.mem_of_getElem? place)
          · show st.2 - b.lns.length = _
            rw [sideCount_setBlock found shape (flips st.1) fresh, inv.missing]
            omega
          · show -(largest : Int) < st.2 - b.lns.length
            omega
          · intro o member
            exact blockOf_setBlock found shape (apart o member) (rest o member)
          · intro _ i g place ln member
            rw [getElem?_setBlock found] at place
            split at place
            · next equal =>
                rw [Option.some.injEq] at place
                rw [← place] at member ⊢
                unfold onSide
                rw [hitsAt_setLines]
                split
                · left
                  simp [flips st.1]
                · next outside =>
                    rcases inv.finished (by omega) b.file f found ln member with
                      on | ⟨o, listed, index, inside⟩
                    · exact Or.inl on
                    · rcases List.mem_cons.1 listed with rfl | later
                      · exact absurd inside outside
                      · exact Or.inr ⟨o, later, index.trans equal, inside⟩
            · next other =>
                rcases inv.finished (by omega) i g place ln member with
                  on | ⟨o, listed, index, inside⟩
                · exact Or.inl on
                · rcases List.mem_cons.1 listed with rfl | later
                  · exact absurd index other
                  · exact Or.inr ⟨o, later, index, inside⟩

/-- The whole loop. -/
theorem flipping_run {blocks : List RankedBlock} {st : List CoverageFile × Int}
    (flips : ∀ files b, decide (0 < count files b) = side) (nonneg : ∀ files b, 0 ≤ count files b)
    (size : ∀ b ∈ blocks, b.lns.length ≤ largest)
    (distinct : (blocks.map fun b => (b.file, b.bid)).Nodup)
    (inv : Flipping side largest goal start blocks st) :
    Flipping side largest goal start [] (blocks.foldl (flipStep side count) st) := by
  induction blocks generalizing st with
  | nil => exact inv
  | cons b todo inductionHypothesis =>
      rw [List.map_cons, List.nodup_cons] at distinct
      rw [List.foldl_cons]
      apply inductionHypothesis (fun o member => size o (by simp [member])) distinct.2
      apply flipping_step (fun files => flips files b) (fun files => nonneg files b)
        (size b (by simp)) ?_ inv
      intro o member equal
      apply distinct.1
      rw [← equal]
      exact List.mem_map.2 ⟨o, member, rfl⟩

/-- At the end the goal is reached, by less than one block. -/
theorem Flipping.reached {st : List CoverageFile × Int}
    (inv : Flipping side largest goal start [] st) (possible : goal ≤ scoreTotal start) :
    goal ≤ sideCount side st.1 ∧ (sideCount side st.1 : Int) < goal + largest := by
  have missing := inv.missing
  have overshoot := inv.overshoot
  refine ⟨?_, by omega⟩
  by_contra short
  have all : ∀ f ∈ st.1, ∀ ln ∈ f.source.lines, onSide side f.hits ln = true := by
    intro f member ln listed
    obtain ⟨i, place⟩ := List.mem_iff_getElem?.1 member
    rcases inv.finished (by omega) i f place ln listed with on | ⟨o, listed, -⟩
    · exact on
    · cases listed
  rw [sideCount_eq_total all, scoreTotal_congr inv.stays.sources] at short
  omega

end Run

end Ocfs2Coverage.Profiles
