import Ocfs2Coverage.Profiles.Flipping

/-!
Contract: `apply_line_hits` lands within one block of its target.

Owns: the list of ranked blocks as a partition of the executable lines, the
connection of both correction loops with the flipping loop, and what the whole
function leaves.
-/

namespace Ocfs2Coverage.Profiles

open Ocfs2Coverage.Python
open Ocfs2Coverage.Source
open Ocfs2Coverage.Hits

theorem le_foldr_max {x : Nat} {xs : List Nat} (member : x ∈ xs) : x ≤ xs.foldr max 0 := by
  induction xs with
  | nil => cases member
  | cons y rest inductionHypothesis =>
      rw [List.foldr_cons]
      rcases List.mem_cons.1 member with rfl | later
      · omega
      · have tail := inductionHypothesis later
        omega

theorem length_quotaStep (slack : List Int) (st : QuotaState) (i : Nat) :
    (quotaStep slack st i).quotas.length = st.quotas.length := by
  unfold quotaStep
  dsimp only
  split
  · rfl
  · split
    · simp
    · split <;> simp

section Landing

variable [Runtime]

/-- The size of the largest block. -/
def largestBlock (files : List CoverageFile) : Nat :=
  ((files.map CoverageFile.source).flatMap fun f =>
    (fileBlockGroups f).items.map fun group => group.2.length).foldr max 0

/-! ## The ranked blocks -/

theorem mem_rankedBlocks {profile : Profile} {index : Nat} {f : CoverageFile} {b : RankedBlock}
    (member : b ∈ rankedBlocks profile index f) :
    b.file = index ∧ (b.bid, b.lns) ∈ (fileBlockGroups f.source).items ∧
      b.covered = decide (0 < hitsAt f.hits (b.lns.headD 0)) := by
  obtain ⟨group, listed, rfl⟩ := List.mem_map.1 member
  exact ⟨rfl, listed, rfl⟩

theorem mem_allBlocks {profile : Profile} {files : List CoverageFile} {b : RankedBlock} :
    b ∈ allBlocks profile files ↔
      ∃ f, files[b.file]? = some f ∧ b ∈ rankedBlocks profile b.file f := by
  unfold allBlocks
  rw [List.mem_flatMap]
  refine ⟨fun ⟨item, listed, member⟩ => ?_, fun ⟨f, place, member⟩ => ?_⟩
  · have place := List.mem_zipIdx_iff_getElem?.1 listed
    rw [(mem_rankedBlocks member).1]
    exact ⟨item.1, place, member⟩
  · exact ⟨(f, b.file), List.mem_zipIdx_iff_getElem?.2 place, member⟩

theorem distinct_allBlocks (profile : Profile) (files : List CoverageFile) :
    ((allBlocks profile files).map fun b => (b.file, b.bid)).Nodup := by
  unfold allBlocks
  rw [List.map_flatMap, List.nodup_flatMap]
  constructor
  · intro item _
    unfold rankedBlocks
    rw [List.map_map]
    have bids : ((fileBlockGroups item.1.source).items.map Prod.fst).Nodup :=
      (fileBlockGroups item.1.source).nodup
    have pairs := bids.map (f := fun bid => (item.2, bid)) fun x y equal => (Prod.mk.inj equal).2
    rw [List.map_map] at pairs
    exact pairs
  · have indices : (files.zipIdx.map Prod.snd).Nodup := by
      rw [List.zipIdx_map_snd]
      exact List.nodup_range'
    have apart := List.pairwise_map.1 indices
    apply apart.imp
    intro x y different key left right
    obtain ⟨b, member, rfl⟩ := List.mem_map.1 left
    obtain ⟨o, other, equal⟩ := List.mem_map.1 right
    apply different
    calc x.2 = b.file := (mem_rankedBlocks member).1.symm
      _ = o.file := (Prod.mk.inj equal).1.symm
      _ = y.2 := (mem_rankedBlocks other).1

theorem blockOf_allBlocks {profile : Profile} {files : List CoverageFile}
    (coherent : ∀ f ∈ files, Coherent f) {b : RankedBlock} (member : b ∈ allBlocks profile files) :
    BlockOf files b := by
  obtain ⟨f, place, ranked⟩ := mem_allBlocks.1 member
  obtain ⟨-, group, covered⟩ := mem_rankedBlocks ranked
  obtain ⟨shape, nonempty⟩ := mem_items_fileBlockGroups group
  refine ⟨⟨f, place, shape⟩, ?_⟩
  intro g place' ln inside
  rw [place, Option.some.injEq] at place'
  rw [← place', covered]
  -- The first line of a block stands for all of them.
  have first : b.lns.headD 0 ∈ b.lns := by
    rw [List.headD_eq_head?_getD, List.head?_eq_some_head nonempty]
    exact List.head_mem nonempty
  rw [shape] at inside first
  have lineMember := SourceFile.mem_blockLines.1 inside
  have firstMember := SourceFile.mem_blockLines.1 first
  rw [← shape] at firstMember
  rw [(coherent f (List.mem_of_getElem? place)).uniform.sameBlock ln lineMember.1 _ firstMember.1
    (lineMember.2.trans firstMember.2.symm)]

theorem exists_block (profile : Profile) {files : List CoverageFile} {i : Nat} {f : CoverageFile}
    (place : files[i]? = some f) {ln : Nat} (member : ln ∈ f.source.lines) :
    ∃ b ∈ allBlocks profile files, b.file = i ∧ ln ∈ b.lns := by
  have group := exists_group member
  have ranked := List.mem_map_of_mem (f := fun group : Nat × List Nat =>
    ({ rank := groupRank profile f.source group, file := i, bid := group.1, lns := group.2,
       covered := decide (0 < hitsAt f.hits (group.2.headD 0)) } : RankedBlock)) group
  refine ⟨_, mem_allBlocks.2 ⟨f, place, ranked⟩, rfl, ?_⟩
  exact SourceFile.mem_blockLines.2 ⟨member, rfl⟩

theorem length_le_largestBlock {profile : Profile} {files : List CoverageFile} {b : RankedBlock}
    (member : b ∈ allBlocks profile files) : b.lns.length ≤ largestBlock files := by
  obtain ⟨f, place, ranked⟩ := mem_allBlocks.1 member
  apply le_foldr_max
  rw [List.mem_flatMap]
  exact ⟨f.source, List.mem_map_of_mem (List.mem_of_getElem? place),
    List.mem_map.2 ⟨_, (mem_rankedBlocks ranked).2.1, rfl⟩⟩

theorem largestBlock_pos {files : List CoverageFile} (some : 0 < scoreTotal files) :
    0 < largestBlock files := by
  have found : ∃ f ∈ files, ∃ ln, ln ∈ f.source.lines := by
    by_contra none
    have zero : scoreTotal files = 0 := by
      apply List.sum_eq_zero
      intro n member
      obtain ⟨f, listed, rfl⟩ := List.mem_map.1 member
      apply List.length_eq_zero_iff.2
      apply List.eq_nil_iff_forall_not_mem.2
      exact fun ln inside => none ⟨f, listed, ln, inside⟩
    omega
  obtain ⟨f, listed, ln, member⟩ := found
  have block : 0 < (f.source.blockLines (f.source.blockOf ln)).length :=
    List.length_pos_of_mem (SourceFile.mem_blockLines.2 ⟨member, rfl⟩)
  apply Nat.lt_of_lt_of_le block
  apply le_foldr_max
  rw [List.mem_flatMap]
  exact ⟨f.source, List.mem_map_of_mem listed, List.mem_map.2 ⟨_, exists_group member, rfl⟩⟩

/-! ## `adjust_hits_to_target` -/

theorem raiseStep_eq (profile : Profile) (st : List CoverageFile × Int) (b : RankedBlock) :
    raiseStep profile st b = flipStep true (fun files b => hitsForBlock profile
      ((files[b.file]?.map fun f => f.source.rel).getD []) b.bid) st b := by
  unfold raiseStep flipStep
  rfl

/-- The second loop counts the lines still to be uncovered downwards. -/
theorem lowerStep_eq (files : List CoverageFile) (diff : Int) (b : RankedBlock) :
    lowerStep (files, diff) b = ((flipStep false (fun _ _ => 0) (files, -diff) b).1,
      -(flipStep false (fun _ _ => 0) (files, -diff) b).2) := by
  unfold lowerStep flipStep
  by_cases done : 0 ≤ diff
  · have enough : -diff ≤ 0 := by omega
    simp [done, enough]
  · have short : ¬ -diff ≤ 0 := by omega
    cases away : b.covered with
    | false => simp [done, short]
    | true =>
        have shifted : diff + (b.lns.length : Int) = -(-diff - b.lns.length) := by omega
        simp only [done, short, if_false, Bool.not_true, Bool.true_eq_false, Bool.false_eq_true,
          shifted]

theorem foldl_lowerStep (blocks : List RankedBlock) (files : List CoverageFile) (diff : Int) :
    (blocks.foldl lowerStep (files, diff)).1 =
      (blocks.foldl (flipStep false fun _ _ => 0) (files, -diff)).1 := by
  induction blocks generalizing files diff with
  | nil => rfl
  | cons b rest inductionHypothesis =>
      rw [List.foldl_cons, List.foldl_cons, lowerStep_eq, inductionHypothesis, Int.neg_neg]

section Adjust

variable {files : List CoverageFile} (profile : Profile)

/-- Before the first round. -/
theorem flipping_start {side : Bool} {goal : Int} (coherent : ∀ f ∈ files, Coherent f)
    (some : 0 < scoreTotal files) {blocks : List RankedBlock}
    (perm : blocks.Perm (allBlocks profile files)) (short : (sideCount side files : Int) ≤ goal) :
    Flipping side (largestBlock files) goal files blocks (files, goal - sideCount side files) where
  stays := Stays.refl side files
  coherent := coherent
  missing := rfl
  overshoot := by
    have positive := largestBlock_pos some
    show -(largestBlock files : Int) < goal - sideCount side files
    omega
  blocks := fun b member => blockOf_allBlocks coherent (perm.mem_iff.1 member)
  finished := by
    intro _ i f place ln member
    obtain ⟨b, listed, index, inside⟩ := exists_block profile place member
    exact Or.inr ⟨b, perm.mem_iff.2 listed, index, inside⟩

/-- Either loop, over the ranked blocks in any order. -/
theorem flipping_end {side : Bool} {goal : Int} (count : List CoverageFile → RankedBlock → Int)
    (flips : ∀ files b, decide (0 < count files b) = side) (nonneg : ∀ files b, 0 ≤ count files b)
    (coherent : ∀ f ∈ files, Coherent f) (some : 0 < scoreTotal files)
    (possible : goal ≤ scoreTotal files) {blocks : List RankedBlock}
    (perm : blocks.Perm (allBlocks profile files)) (short : (sideCount side files : Int) ≤ goal)
    {after : List CoverageFile}
    (result : after = (blocks.foldl (flipStep side count) (files, goal - sideCount side files)).1) :
    (∀ f ∈ after, Coherent f) ∧ Stays side files after ∧ goal ≤ sideCount side after ∧
      (sideCount side after : Int) < goal + largestBlock files := by
  have distinct : (blocks.map fun b => (b.file, b.bid)).Nodup :=
    (perm.map _).nodup_iff.2 (distinct_allBlocks profile files)
  have done := flipping_run flips nonneg
    (fun b member => length_le_largestBlock (perm.mem_iff.1 member)) distinct
    (flipping_start profile coherent some perm short)
  rw [result]
  exact ⟨done.coherent, done.stays, done.reached possible⟩

variable (targetPct : Runtime.Float)

theorem adjustHitsToTarget_raises (coherent : ∀ f ∈ files, Coherent f)
    (some : 0 < scoreTotal files)
    (below : (scoreHit files : Int) ≤ wantedLines (scoreTotal files) targetPct) :
    (∀ f ∈ adjustHitsToTarget files targetPct profile, Coherent f) ∧
      Stays true files (adjustHitsToTarget files targetPct profile) ∧
      wantedLines (scoreTotal files) targetPct ≤
        scoreHit (adjustHitsToTarget files targetPct profile) ∧
      (scoreHit (adjustHitsToTarget files targetPct profile) : Int) <
        wantedLines (scoreTotal files) targetPct + largestBlock files := by
  have bounds := wantedLines_bounds (scoreTotal files) targetPct
  have positive := largestBlock_pos some
  unfold adjustHitsToTarget
  simp only [if_neg (Nat.ne_of_gt some)]
  split
  · rw [← sideCount_true] at below ⊢
    rw [← sideCount_true]
    exact flipping_end profile _ (fun _ _ => decide_eq_true (hitsForBlock_pos _ _ _))
      (fun _ _ => Int.le_of_lt (hitsForBlock_pos _ _ _)) coherent some bounds.2
      (sortByKey_perm _ _) below (by rw [funext₂ (raiseStep_eq profile)])
  · next notBelow =>
      rw [if_neg (by omega)]
      exact ⟨coherent, Stays.refl true files, by omega, by omega⟩

theorem adjustHitsToTarget_lowers (coherent : ∀ f ∈ files, Coherent f)
    (some : 0 < scoreTotal files)
    (above : wantedLines (scoreTotal files) targetPct < scoreHit files) :
    (∀ f ∈ adjustHitsToTarget files targetPct profile, Coherent f) ∧
      Stays false files (adjustHitsToTarget files targetPct profile) ∧
      (scoreHit (adjustHitsToTarget files targetPct profile) : Int) ≤
        wantedLines (scoreTotal files) targetPct ∧
      wantedLines (scoreTotal files) targetPct <
        scoreHit (adjustHitsToTarget files targetPct profile) + largestBlock files := by
  have bounds := wantedLines_bounds (scoreTotal files) targetPct
  have before := sideCount_false files
  have short : (sideCount false files : Int) ≤
      scoreTotal files - wantedLines (scoreTotal files) targetPct := by omega
  have spec := flipping_end profile (fun _ _ => 0) (by simp) (by simp) coherent some
    (by omega) (sortByKey_perm (fun b : RankedBlock => (b.rank, [(b.file : Int), b.bid])) _)
    short rfl
  have result : adjustHitsToTarget files targetPct profile =
      ((sortByKey (fun b : RankedBlock => (b.rank, [(b.file : Int), b.bid]))
        (allBlocks profile files)).foldl (flipStep false fun _ _ => 0)
          (files, scoreTotal files - wantedLines (scoreTotal files) targetPct -
            sideCount false files)).1 := by
    unfold adjustHitsToTarget
    simp only [if_neg (Nat.ne_of_gt some)]
    rw [if_neg (by omega), if_pos (by omega), foldl_lowerStep]
    congr 3
    omega
  rw [← result] at spec
  have after := sideCount_false (adjustHitsToTarget files targetPct profile)
  rw [scoreTotal_congr spec.2.1.sources] at after
  exact ⟨spec.1, spec.2.1, by omega, by omega⟩

end Adjust

/-! ## The first choice -/

theorem length_splitQuotas {sizes : List Nat} {weights : List Runtime.Float} {nCover : Int}
    (same : sizes.length = weights.length) :
    (splitQuotas sizes weights nCover).length = sizes.length := by
  have run : ∀ (slack : List Int) (order : List Nat) (st : QuotaState),
      (order.foldl (quotaStep slack) st).quotas.length = st.quotas.length := by
    intro slack order
    induction order with
    | nil => exact fun _ => rfl
    | cons i rest inductionHypothesis =>
        intro st
        rw [List.foldl_cons, inductionHypothesis, length_quotaStep]
  unfold splitQuotas
  rw [run]
  simp [initialQuotas, same]

theorem coherent_selectHits (profile : Profile) (f : CoverageFile) (q : Int) :
    Coherent (blockPass (forwardPass (selectHits profile f q))) := by
  apply coherent_blockPass
  apply Defined.cohereForwardHits
  apply Defined.cohereBlockHits
  exact defined_hitsOf f.source _

theorem coherent_selectAll (files : List CoverageFile) (targetPct : Runtime.Float)
    (profile : Profile) : ∀ f ∈ selectAll files targetPct profile, Coherent f := by
  intro f member
  obtain ⟨g, listed, rfl⟩ := List.mem_map.1 member
  rw [← List.map_uncurry_zip_eq_zipWith] at listed
  obtain ⟨pair, -, rfl⟩ := List.mem_map.1 listed
  exact coherent_selectHits profile pair.1 pair.2

theorem sources_selectAll (files : List CoverageFile) (targetPct : Runtime.Float)
    (profile : Profile) :
    (selectAll files targetPct profile).map CoverageFile.source =
      files.map CoverageFile.source := by
  unfold selectAll
  have lengths : (splitQuotas (files.map fileTotal) (files.map fun f => weightOf profile f.source.rel)
      (wantedLines (scoreTotal files) targetPct)).length = files.length := by
    rw [length_splitQuotas (by simp), List.length_map]
  rw [List.map_map, ← List.map_uncurry_zip_eq_zipWith, List.map_map]
  calc List.map (fun pair => pair.1.source) (files.zip _)
      = (List.map Prod.fst (files.zip _)).map CoverageFile.source := by rw [List.map_map]; rfl
    _ = files.map CoverageFile.source := by rw [List.map_fst_zip (by rw [lengths])]

/-! ## The whole function -/

section Whole

variable {files : List CoverageFile} (targetPct : Runtime.Float) (profile : Profile)

/-- The adjustment works on the chosen hits, whose sources are those of the files. -/
theorem selectAll_spec (some : 0 < scoreTotal files) :
    (∀ f ∈ selectAll files targetPct profile, Coherent f) ∧
      0 < scoreTotal (selectAll files targetPct profile) ∧
      scoreTotal (selectAll files targetPct profile) = scoreTotal files ∧
      largestBlock (selectAll files targetPct profile) = largestBlock files := by
  have sources := sources_selectAll files targetPct profile
  have total := scoreTotal_congr sources
  refine ⟨coherent_selectAll files targetPct profile, by rwa [total], total, ?_⟩
  unfold largestBlock
  rw [sources]

theorem adjusted_spec (some : 0 < scoreTotal files) :
    (∀ f ∈ adjustHitsToTarget (selectAll files targetPct profile) targetPct profile,
        Coherent f) ∧
      (adjustHitsToTarget (selectAll files targetPct profile) targetPct profile).map
        CoverageFile.source = files.map CoverageFile.source := by
  obtain ⟨coherent, some', total, -⟩ := selectAll_spec targetPct profile some
  have sources := sources_selectAll files targetPct profile
  by_cases below : (scoreHit (selectAll files targetPct profile) : Int) ≤
      wantedLines (scoreTotal (selectAll files targetPct profile)) targetPct
  · have spec := adjustHitsToTarget_raises profile targetPct coherent some' below
    exact ⟨spec.1, spec.2.1.sources.trans sources⟩
  · have spec := adjustHitsToTarget_lowers profile targetPct coherent some' (by omega)
    exact ⟨spec.1, spec.2.1.sources.trans sources⟩

/-- The last block pass finds coherent hits, so the adjustment decides. -/
theorem applyLineHits_eq (some : 0 < scoreTotal files) :
    applyLineHits files targetPct profile =
      adjustHitsToTarget (selectAll files targetPct profile) targetPct profile := by
  have adjusted := (adjusted_spec targetPct profile some).1
  unfold applyLineHits
  rw [if_neg (Nat.ne_of_gt some)]
  calc List.map blockPass _ = List.map id _ :=
        List.map_congr_left fun f member => (adjusted f member).blockPass_eq
    _ = _ := List.map_id _

theorem coherent_applyLineHits (some : 0 < scoreTotal files) :
    ∀ f ∈ applyLineHits files targetPct profile, Coherent f := by
  rw [applyLineHits_eq targetPct profile some]
  exact (adjusted_spec targetPct profile some).1

theorem sources_applyLineHits (files : List CoverageFile) :
    (applyLineHits files targetPct profile).map CoverageFile.source =
      files.map CoverageFile.source := by
  by_cases some : 0 < scoreTotal files
  · rw [applyLineHits_eq targetPct profile some]
    exact (adjusted_spec targetPct profile some).2
  · unfold applyLineHits
    rw [if_pos (by omega)]

/-- The hits the files had before do not matter. -/
theorem applyLineHits_congr {others : List CoverageFile}
    (sources : files.map CoverageFile.source = others.map CoverageFile.source)
    (some : 0 < scoreTotal files) :
    applyLineHits files targetPct profile = applyLineHits others targetPct profile := by
  have reset : ∀ xs : List CoverageFile,
      selectAll ((xs.map CoverageFile.source).map fun source => ⟨source, ∅⟩) targetPct profile =
        selectAll xs targetPct profile := by
    intro xs
    unfold selectAll scoreTotal
    simp only [List.map_map, List.zipWith_map_left]
    rfl
  have chosen : selectAll files targetPct profile = selectAll others targetPct profile := by
    rw [← reset files, ← reset others, sources]
  have some' : 0 < scoreTotal others := by rwa [← scoreTotal_congr sources]
  rw [applyLineHits_eq targetPct profile some, applyLineHits_eq targetPct profile some', chosen]

end Whole

/-- After `apply_line_hits` the hits are defined on exactly the executable lines and
equal within each block, the number of covered lines differs from the wanted one by
less than the largest block, and the adjustment moved towards it only. -/
theorem applyLineHits_lands (files : List CoverageFile) (targetPct : Runtime.Float)
    (profile : Profile) (some : 0 < scoreTotal files) :
    (applyLineHits files targetPct profile).map CoverageFile.source =
        files.map CoverageFile.source ∧
      (∀ f ∈ applyLineHits files targetPct profile,
        Defined f.source f.hits ∧ Uniform f.source f.hits) ∧
      |(scoreHit (applyLineHits files targetPct profile) : Int) -
          wantedLines (scoreTotal files) targetPct| < largestBlock files ∧
      ((scoreHit (selectAll files targetPct profile) : Int) ≤
          wantedLines (scoreTotal files) targetPct →
        Stays true (selectAll files targetPct profile) (applyLineHits files targetPct profile) ∧
          wantedLines (scoreTotal files) targetPct ≤
            scoreHit (applyLineHits files targetPct profile)) ∧
      (wantedLines (scoreTotal files) targetPct <
          (scoreHit (selectAll files targetPct profile) : Int) →
        Stays false (selectAll files targetPct profile) (applyLineHits files targetPct profile) ∧
          (scoreHit (applyLineHits files targetPct profile) : Int) ≤
            wantedLines (scoreTotal files) targetPct) := by
  have sources := sources_applyLineHits targetPct profile files
  have defined := coherent_applyLineHits targetPct profile some
  obtain ⟨coherent, some', total, largest⟩ := selectAll_spec targetPct profile some
  have whole := applyLineHits_eq targetPct profile some
  refine ⟨sources, fun f member => ⟨(defined f member).defined, (defined f member).uniform⟩, ?_⟩
  rw [whole, abs_lt]
  by_cases below : (scoreHit (selectAll files targetPct profile) : Int) ≤
      wantedLines (scoreTotal files) targetPct
  · have spec := adjustHitsToTarget_raises profile targetPct coherent some' (by rwa [total])
    rw [total, largest] at spec
    exact ⟨by omega, fun _ => ⟨spec.2.1, spec.2.2.1⟩, fun above => by omega⟩
  · have spec := adjustHitsToTarget_lowers profile targetPct coherent some' (by rw [total]; omega)
    rw [total, largest] at spec
    exact ⟨by omega, fun under => absurd under below, fun _ => ⟨spec.2.1, spec.2.2.1⟩⟩

end Landing

section Sample

attribute [local instance] sampleRuntime

/-- Twelve executable lines in four blocks. -/
def dlmastFile : CoverageFile where
  source := parsedFile "dlm/dlmast.c".toList
    ("int f(int a)\n\x7b\n\tint r;\n\tr = a;\n\tr++;\n\tr++;\n\tif (a) \x7b\n\t\tr = 0;\n\t\tg(r);\n" ++
      "\t\tg(r);\n\t\tg(r);\n\t\x7d\n\tr = 1;\n\tr = 2;\n\treturn r;\n\x7d\n").toList
  hits := ∅

/-- Nine executable lines in six blocks. -/
def quorumFile : CoverageFile where
  source := parsedFile "cluster/quorum.c".toList
    ("int f(int a)\n\x7b\n\tint r;\n\tr = a;\n\tr++;\n\tif (a)\n\t\tr = 0;\n\twhile (r < a) \x7b\n" ++
      "\t\tr++;\n\t\tg(r);\n\t\x7d\n\treturn r;\n\x7d\n").toList
  hits := ∅

def twoFiles : List CoverageFile := [dlmastFile, quorumFile]

/-- At 63 percent the adjustment covers a block, at 20 percent it uncovers one. -/
theorem applyLineHits_lands_twoFiles :
    0 < scoreTotal twoFiles ∧
      (scoreHit (selectAll twoFiles (63 : ℚ) .default) : Int) <
        wantedLines (scoreTotal twoFiles) (63 : ℚ) ∧
      Stays true (selectAll twoFiles (63 : ℚ) .default)
        (applyLineHits twoFiles (63 : ℚ) .default) ∧
      |(scoreHit (applyLineHits twoFiles (63 : ℚ) .default) : Int) -
        wantedLines (scoreTotal twoFiles) (63 : ℚ)| < largestBlock twoFiles ∧
      wantedLines (scoreTotal twoFiles) (20 : ℚ) <
        (scoreHit (selectAll twoFiles (20 : ℚ) .default) : Int) ∧
      Stays false (selectAll twoFiles (20 : ℚ) .default)
        (applyLineHits twoFiles (20 : ℚ) .default) ∧
      |(scoreHit (applyLineHits twoFiles (20 : ℚ) .default) : Int) -
        wantedLines (scoreTotal twoFiles) (20 : ℚ)| < largestBlock twoFiles := by
  have facts : 0 < scoreTotal twoFiles ∧
      (scoreHit (selectAll twoFiles (63 : ℚ) .default) : Int) <
        wantedLines (scoreTotal twoFiles) (63 : ℚ) ∧
      wantedLines (scoreTotal twoFiles) (20 : ℚ) <
        (scoreHit (selectAll twoFiles (20 : ℚ) .default) : Int) := by decide +kernel
  obtain ⟨some, under, above⟩ := facts
  have raised := (applyLineHits_lands twoFiles (63 : ℚ) .default some).2.2
  have lowered := (applyLineHits_lands twoFiles (20 : ℚ) .default some).2.2
  exact ⟨some, under, (raised.2.1 under.le).1, raised.1, above, (lowered.2.2 above).1, lowered.1⟩

end Sample

end Ocfs2Coverage.Profiles
