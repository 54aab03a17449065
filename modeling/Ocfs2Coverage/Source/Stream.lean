import Ocfs2Coverage.Source.BlockLaws

/-!
Contract: `parse_c_file` and `exec_line_blocks` as one pass over the lines.

Owns: the state after the first lines of a file, in which the lines between two
executable ones leave a single flag, and the block of a line read off that state.

Does not own: the syntax of the lines.
-/

namespace Ocfs2Coverage.Source

open Ocfs2Coverage.Python

section Stream

variable [UnicodeData]

/-! ## The lines between two executable ones -/

/-- The line closes a construct. -/
def closesGap (s : Str) : Bool := contains s "\x7d".toList || elseRe.search s

theorem else_word : ∀ w ∈ ["else".toList], IsWord w := by
  intro w member
  rw [List.mem_singleton.1 member]
  exact ⟨by decide, by simp [isWordChar]⟩

theorem closesGap_iff {s : Str} : closesGap s = true ↔ '\x7d' ∈ s ∨ HasWord "else".toList s := by
  simp only [closesGap, elseRe]
  rw [Bool.or_eq_true, search_wholeWord_iff else_word]
  exact or_congr contains_singleton_iff (by simp)

/-- Some line of a gap closes a construct. -/
theorem gapCloses_iff {raw : List Str} {a b : Nat} :
    gapCloses raw a b = true ↔
      ∃ i ∈ List.range' a (b - 1 - a), closesGap (strip (raw.getD i [])) = true := by
  have whole : gapCloses raw a b = closesGap (gapText raw a b) := rfl
  rw [whole, closesGap_iff]
  simp only [gapText]
  have blank : isWordChar ' ' = false := isWordChar_of_isSpace (by decide)
  have word := else_word "else".toList (by simp)
  show '\x7d' ∈ join [' '] _ ∨ HasWord _ (join [' '] _) ↔ _
  rw [mem_join (by decide), hasWord_join word blank]
  simp only [List.mem_map, exists_exists_and_eq_and, closesGap_iff, ← exists_or, ← and_or_left]

theorem gapCloses_self (raw : List Str) (a : Nat) : gapCloses raw a (a + 1) = false := by
  rw [← Bool.not_eq_true, gapCloses_iff]
  rintro ⟨i, member, -⟩
  rw [List.mem_range'_1] at member
  omega

theorem gapCloses_succ {raw : List Str} {a k : Nat} (inside : a ≤ k) :
    gapCloses raw a (k + 2) = (gapCloses raw a (k + 1) || closesGap (strip (raw.getD k []))) := by
  rw [Bool.eq_iff_iff, Bool.or_eq_true, gapCloses_iff, gapCloses_iff]
  constructor
  · rintro ⟨i, member, closes⟩
    rw [List.mem_range'_1] at member
    rcases Nat.lt_or_ge i k with before | last
    · exact Or.inl ⟨i, List.mem_range'_1.2 ⟨member.1, by omega⟩, closes⟩
    · have here : i = k := by omega
      rw [here] at closes
      exact Or.inr closes
  · rintro (⟨i, member, closes⟩ | closes)
    · rw [List.mem_range'_1] at member
      exact ⟨i, List.mem_range'_1.2 ⟨member.1, by omega⟩, closes⟩
    · exact ⟨k, List.mem_range'_1.2 ⟨inside, by omega⟩, closes⟩

/-! ## One line after another -/

/-- What is known after some lines of a file. -/
structure LineState where
  comment : Bool
  bid : Nat
  /-- An executable line was seen. -/
  begun : Bool
  /-- The last executable line has a jump word. -/
  jump : Bool
  /-- A line after the last executable one closes a construct. -/
  gap : Bool
  splitNext : Bool
  unbraced : Bool
  afterUnbraced : Bool
  depth : Nat
  opCont : Bool
deriving DecidableEq, Repr

namespace LineState

omit [UnicodeData] in
def init : LineState :=
  { comment := false, bid := 0, begun := false, jump := false, gap := false, splitNext := false,
    unbraced := false, afterUnbraced := false, depth := 0, opCont := false }

omit [UnicodeData] in
/-- The line continues an open parenthesis or a trailing operator. -/
def continues (st : LineState) : Bool := !st.gap && (decide (0 < st.depth) || st.opCont)

def starts (st : LineState) (s : Str) : Bool :=
  if !st.begun || st.gap then true
  else if st.continues then false
  else st.afterUnbraced || blockLeadRe.isMatch s || st.splitNext || st.jump

def opens (st : LineState) (s : Str) : Bool := !st.continues && blockSplitNextRe.isMatch s

/-- An executable line, stripped. -/
def readCode (st : LineState) (comment : Bool) (s : Str) : LineState :=
  { comment
    bid := if st.starts s then st.bid + 1 else st.bid
    begun := true
    jump := blockEndRe.search s
    gap := false
    splitNext := st.opens s
    unbraced := if st.opens s then !contains s "\x7b".toList else st.unbraced
    afterUnbraced := st.splitNext && st.unbraced && !st.continues
    depth := if endswith s ";".toList then 0
      else (if st.gap then 0 else st.depth) + s.count '(' - s.count ')'
    opCont := endsWithOperator s }

/-- A stripped line. -/
def read (st : LineState) (s : Str) : LineState :=
  let verdict := isCodeLine s st.comment
  if verdict.1 then st.readCode verdict.2 s
  else { st with comment := verdict.2, gap := st.gap || st.begun && closesGap s }

/-- Several stripped lines. -/
def run (st : LineState) (lines : List Str) : LineState := lines.foldl read st

@[simp] theorem run_nil (st : LineState) : st.run [] = st := rfl

@[simp] theorem run_cons (st : LineState) (s : Str) (lines : List Str) :
    st.run (s :: lines) = (st.read s).run lines := rfl

theorem run_append (st : LineState) (lines more : List Str) :
    st.run (lines ++ more) = (st.run lines).run more := List.foldl_append

theorem bid_le_read (st : LineState) (s : Str) : st.bid ≤ (st.read s).bid := by
  unfold read
  dsimp only
  split
  · show st.bid ≤ if st.starts s then st.bid + 1 else st.bid
    split <;> omega
  · exact Nat.le_refl _

end LineState

/-! ## The pass computes the loop of `exec_line_blocks` -/

/-- The executable lines among the first lines of a file. -/
def execLines (raw : List Str) : List Nat := flaggedFrom 1 (scanFlags false raw)

/-- The pass over the first lines of a file. -/
def lineStates (raw : List Str) : LineState := LineState.init.run (raw.map strip)

omit [UnicodeData] in
theorem flaggedFrom_concat (i : Nat) (flags : List Bool) (flag : Bool) :
    flaggedFrom i (flags ++ [flag]) =
      flaggedFrom i flags ++ if flag then [i + flags.length] else [] := by
  induction flags generalizing i with
  | nil => cases flag <;> rfl
  | cons head rest inductionHypothesis =>
      have shift : i + 1 + rest.length = i + (rest.length + 1) := by omega
      cases head with
      | false => simp [flaggedFrom, inductionHypothesis, shift]
      | true => simp [flaggedFrom, inductionHypothesis, shift]

theorem scanFlags_concat (comment : Bool) (raw : List Str) (line : Str) :
    scanFlags comment (raw ++ [line]) =
      scanFlags comment raw ++
        [(isCodeLine (strip line) (raw.foldl (fun c l => (isCodeLine (strip l) c).2) comment)).1] := by
  induction raw generalizing comment with
  | nil => rfl
  | cons head rest inductionHypothesis =>
      rw [List.cons_append, scanFlags, scanFlags, inductionHypothesis]
      rfl

theorem comment_run (st : LineState) (raw : List Str) :
    (st.run (raw.map strip)).comment =
      raw.foldl (fun c l => (isCodeLine (strip l) c).2) st.comment := by
  induction raw generalizing st with
  | nil => rfl
  | cons head rest inductionHypothesis =>
      have flag : (st.read (strip head)).comment = (isCodeLine (strip head) st.comment).2 := by
        unfold LineState.read
        dsimp only
        split <;> rfl
      rw [List.map_cons, LineState.run_cons, inductionHypothesis, flag]
      rfl

theorem execLines_concat (raw : List Str) (line : Str) :
    execLines (raw ++ [line]) =
      execLines raw ++
        if (isCodeLine (strip line) (lineStates raw).comment).1 then [raw.length + 1] else [] := by
  unfold execLines lineStates
  rw [scanFlags_concat, flaggedFrom_concat, length_scanFlags, comment_run, Nat.add_comm 1]
  rfl

theorem lineStates_concat (raw : List Str) (line : Str) :
    lineStates (raw ++ [line]) = (lineStates raw).read (strip line) := by
  simp only [lineStates]
  rw [List.map_append, LineState.run_append]
  rfl

/-- The pass agrees with the loop after the lines before number `ln`. -/
structure Tracks (raw : List Str) (ln : Nat) (loop : SplitState) (st : LineState) : Prop where
  bid : st.bid = loop.bid
  begun : st.begun = loop.prev.isSome
  jump : st.jump = loop.afterJump raw
  gap : st.gap = loop.gap raw ln
  splitNext : st.splitNext = loop.splitNext
  unbraced : st.unbraced = loop.unbraced
  afterUnbraced : st.afterUnbraced = loop.afterUnbraced
  depth : st.depth = loop.depth
  opCont : st.opCont = loop.opCont
  before : ∀ prev ∈ loop.prev, prev < ln

theorem Tracks.continues_eq {raw : List Str} {ln : Nat} {loop : SplitState} {st : LineState}
    (tracks : Tracks raw ln loop st) : st.continues = loop.continues raw ln := by
  unfold LineState.continues SplitState.continues SplitState.depthAt SplitState.opContAt
  rw [tracks.gap, tracks.depth, tracks.opCont]
  cases loop.gap raw ln <;> simp

/-- An executable line. -/
theorem Tracks.step_code {raw : List Str} {ln : Nat} {loop : SplitState} {st : LineState}
    (tracks : Tracks raw ln loop st) (comment : Bool) :
    Tracks raw (ln + 1) (splitStep raw loop ln) (st.readCode comment (strip (lineAt raw ln))) := by
  have opens : st.opens (strip (lineAt raw ln)) = loop.opensControl raw ln := by
    simp only [LineState.opens, SplitState.opensControl]
    rw [tracks.continues_eq]
  have starts : st.starts (strip (lineAt raw ln)) = loop.startsBlock raw ln := by
    simp only [LineState.starts, SplitState.startsBlock]
    rw [tracks.begun, tracks.gap, tracks.continues_eq, tracks.afterUnbraced, tracks.splitNext,
      tracks.jump]
    simp
  refine ⟨?_, rfl, ?_, ?_, opens, ?_, ?_, ?_, rfl, ?_⟩
  · show (if st.starts _ then st.bid + 1 else st.bid) = _
    rw [starts, tracks.bid]
    rfl
  · exact blockEnd_strip (lineAt raw ln)
  · show false = (decide (ln < ln + 1 - 1) && _)
    simp
  · show (if st.opens _ then _ else st.unbraced) = _
    rw [opens, tracks.unbraced]
    rfl
  · show (st.splitNext && st.unbraced && !st.continues) = _
    rw [tracks.splitNext, tracks.unbraced, tracks.continues_eq]
    rfl
  · show (if _ then 0 else (if st.gap then 0 else st.depth) + _ - _) = _
    rw [tracks.gap, tracks.depth]
    rfl
  · intro prev last
    cases last
    exact Nat.lt_succ_self ln

/-- A line that is not executable. -/
theorem Tracks.step_other {raw : List Str} {k : Nat} {loop : SplitState} {st : LineState}
    (tracks : Tracks raw (k + 1) loop st) (comment : Bool) :
    Tracks raw (k + 2) loop { st with
      comment := comment
      gap := st.gap || st.begun && closesGap (strip (raw.getD k [])) } := by
  refine { tracks with gap := ?_, before := fun prev last => Nat.lt_succ_of_lt (tracks.before prev last) }
  show (st.gap || st.begun && _) = _
  rw [tracks.gap, tracks.begun]
  have before := tracks.before
  simp only [SplitState.gap]
  cases last : loop.prev with
  | none => rfl
  | some prev =>
      have inside : prev ≤ k := Nat.le_of_lt_succ (before prev last)
      have longer : prev < k + 1 := by omega
      have next : k + 2 - 1 = k + 1 := by omega
      simp only [Option.isSome_some, Bool.true_and, next, longer, decide_true,
        gapCloses_succ inside]
      rcases Nat.lt_or_ge prev k with apart | close
      · simp [apart]
      · have here : prev = k := by omega
        rw [here, gapCloses_self]
        simp

/-- The pass after some lines, against the loop after their executable lines. -/
theorem tracks_lineStates {raw done rest : List Str} (shape : raw = done ++ rest) :
    Tracks raw (done.length + 1) (stateAfter raw (execLines done)) (lineStates done) := by
  induction done using List.reverseRecOn generalizing rest with
  | nil =>
      exact ⟨rfl, rfl, rfl, rfl, rfl, rfl, rfl, rfl, rfl, fun _ last => by cases last⟩
  | append_singleton done line inductionHypothesis =>
      have regroup : raw = done ++ line :: rest := by rw [shape]; simp
      have tracks := inductionHypothesis regroup
      have here : raw.getD done.length [] = line := by
        rw [shape]
        simp
      have there : lineAt raw (done.length + 1) = line := here
      rw [execLines_concat, lineStates_concat, List.length_append, List.length_singleton]
      unfold LineState.read
      dsimp only
      by_cases code : (isCodeLine (strip line) (lineStates done).comment).1 = true
      · rw [if_pos code, if_pos code, stateAfter_concat]
        have step := tracks.step_code (isCodeLine (strip line) (lineStates done).comment).2
        rw [there] at step
        exact step
      · rw [if_neg code, if_neg code, List.append_nil]
        have step := tracks.step_other (isCodeLine (strip line) (lineStates done).comment).2
        rw [here] at step
        exact step

/-- The executable lines of a file begin with those of its first lines. -/
theorem execLines_append (done rest : List Str) :
    ∃ later, execLines (done ++ rest) = execLines done ++ later ∧
      ∀ ln ∈ later, done.length < ln := by
  induction rest using List.reverseRecOn with
  | nil => exact ⟨[], by simp, by simp⟩
  | append_singleton rest line inductionHypothesis =>
      rcases inductionHypothesis with ⟨later, shape, bound⟩
      rw [← List.append_assoc, execLines_concat, shape, List.append_assoc]
      refine ⟨_, rfl, ?_⟩
      intro ln member
      rcases List.mem_append.1 member with listed | last
      · exact bound ln listed
      · split at last
        · rw [List.mem_singleton.1 last, List.length_append]
          omega
        · cases last

/-- The line after the first lines `done` is executable if `is_code_line` says so. -/
theorem mem_execLines {done rest : List Str} {line : Str} :
    done.length + 1 ∈ execLines (done ++ line :: rest) ↔
      (isCodeLine (strip line) (lineStates done).comment).1 = true := by
  have regroup : done ++ line :: rest = (done ++ [line]) ++ rest := by simp
  rcases execLines_append (done ++ [line]) rest with ⟨later, shape, bound⟩
  have below : done.length + 1 ∉ execLines done := by
    intro member
    have inside := (mem_flaggedFrom.1 member).2
    rw [List.getElem?_eq_none (by rw [length_scanFlags]; omega)] at inside
    cases inside
  have notLater : done.length + 1 ∉ later := by
    intro member
    have above := bound _ member
    rw [List.length_append, List.length_singleton] at above
    omega
  rw [regroup, shape, execLines_concat, List.mem_append, List.mem_append, or_iff_left notLater,
    or_iff_right below]
  split
  · next code => simp [code]
  · next other => simp [other]

/-- The block of an executable line is the counter of the pass after the line. -/
theorem blockOf_lineStates {done rest : List Str} {line : Str}
    (code : (isCodeLine (strip line) (lineStates done).comment).1 = true) :
    blockOf (done ++ line :: rest) (execLines (done ++ line :: rest)) (done.length + 1) =
      (lineStates (done ++ [line])).bid := by
  have regroup : done ++ line :: rest = (done ++ [line]) ++ rest := by simp
  rcases execLines_append (done ++ [line]) rest with ⟨later, shape, -⟩
  have distinct : (execLines (done ++ line :: rest)).Nodup :=
    (flaggedFrom_increasing 1 _).imp Nat.ne_of_lt
  have place : execLines (done ++ line :: rest) =
      execLines done ++ (done.length + 1) :: later := by
    rw [regroup, shape, execLines_concat, if_pos code]
    simp
  have tracks := tracks_lineStates regroup
  rw [execLines_concat, if_pos code] at tracks
  rw [tracks.bid]
  rw [place] at distinct ⊢
  exact blockOf_eq distinct

/-! ## One line of the pass -/

omit [UnicodeData] in
theorem cut_line {raw : List Str} {ln : Nat} (lower : 1 ≤ ln) (upper : ln ≤ raw.length) :
    raw = raw.take (ln - 1) ++ lineAt raw ln :: raw.drop ln ∧ (raw.take (ln - 1)).length + 1 = ln := by
  have inside : ln - 1 < raw.length := by omega
  have here : lineAt raw ln = raw[ln - 1] := by
    simp only [lineAt]
    rw [List.getD_eq_getElem?_getD, List.getElem?_eq_getElem inside, Option.getD_some]
  have next : raw.drop ln = raw.drop (ln - 1 + 1) := by
    rw [Nat.sub_add_cancel lower]
  refine ⟨?_, ?_⟩
  · rw [here, next, List.getElem_cons_drop, List.take_append_drop]
  · rw [List.length_take]
    omega

/-- The pass over the first lines, one line further. -/
theorem lineStates_take {raw : List Str} {ln : Nat} (lower : 1 ≤ ln) (upper : ln ≤ raw.length) :
    lineStates (raw.take ln) = (lineStates (raw.take (ln - 1))).read (strip (lineAt raw ln)) := by
  have cut := cut_line lower upper
  have longer : raw.take ln = raw.take (ln - 1) ++ [lineAt raw ln] := by
    conv_lhs => rw [cut.1]
    rw [List.take_append, List.take_of_length_le (by omega)]
    have one : ln - (raw.take (ln - 1)).length = 1 := by omega
    rw [one]
    rfl
  rw [longer, lineStates_concat]

/-- Whether a line is executable, and its block, read off the pass. -/
theorem mem_execLines_take {raw : List Str} {ln : Nat} (lower : 1 ≤ ln) (upper : ln ≤ raw.length) :
    (ln ∈ execLines raw ↔
        (isCodeLine (strip (lineAt raw ln)) (lineStates (raw.take (ln - 1))).comment).1 = true) ∧
      (ln ∈ execLines raw → blockOf raw (execLines raw) ln =
        (lineStates (raw.take ln)).bid) := by
  have cut := cut_line lower upper
  have listed := @mem_execLines _ (raw.take (ln - 1)) (raw.drop ln) (lineAt raw ln)
  rw [← cut.1, cut.2] at listed
  refine ⟨listed, fun member => ?_⟩
  have block := @blockOf_lineStates _ _ (raw.drop ln) _ (listed.1 member)
  rw [← cut.1, cut.2, lineStates_concat, ← lineStates_take lower upper] at block
  exact block

end Stream

end Ocfs2Coverage.Source
