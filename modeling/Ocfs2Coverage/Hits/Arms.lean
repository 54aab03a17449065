import Ocfs2Coverage.Hits.Neighbours

/-!
Contract: coverage of one arm of a statement against coverage of another.

Owns: statements with arms as the lines they are written in, the exact condition under
which two arms have a block in common, and what the usual connectors do to it.

Nothing is asked of the lines of an arm: its statements may be nested and take several
lines, comments may stand anywhere, and braces where they like.
-/

namespace Ocfs2Coverage.Hits

open Ocfs2Coverage.Python
open Ocfs2Coverage.Source

/-! ## Statements with arms -/

/-- What stands before an arm (a head, `} else {`, labels), and the lines of the arm. -/
structure Arm where
  opener : List Str
  body : List Str

def Arm.lines (arm : Arm) : List Str := arm.opener ++ arm.body

section Arms

variable [UnicodeData]

/-- An `if` chain or a switch in a file: the lines before it, its arms, and the lines
behind the last arm. A line stands for all lines with the same stripped text. -/
structure ArmedStatement (f : SourceFile) where
  before : List Str
  arms : List Arm
  after : List Str
  shape : f.raw.map strip = before ++ arms.flatMap Arm.lines ++ after

variable {f : SourceFile}

/-- Where blocks are apart, an arm is not covered for the sake of another one. -/
theorem uncovered_of_apart {inOne inOther : Nat → Prop}
    (apart : ∀ a b, inOne a → inOther b → f.blockOf a ≠ f.blockOf b) (hits : LineHits)
    (onlyOne : ∀ ln ∈ f.lines, 0 < hitsAt hits ln → inOne ln) {ln : Nat} (member : ln ∈ f.lines)
    (inside : inOther ln) : ¬ 0 < hitsAt (cohereBlockHits f hits) ln := by
  rw [hitsAt_cohereBlockHits member, blockHits_pos_iff]
  rintro ⟨other, listed, same, positive⟩
  exact apart other ln (onlyOne other listed positive) inside same

namespace ArmedStatement

variable (s : ArmedStatement f)

/-- How many lines stand before the arm. -/
def start (i : Nat) : Nat := s.before.length + ((s.arms.take i).flatMap Arm.lines).length

/-- The last line of the opener of the arm. -/
def opened (i : Fin s.arms.length) : Nat := s.start i + s.arms[i].opener.length

/-- The last line of the arm. -/
def closed (i : Fin s.arms.length) : Nat := s.opened i + s.arms[i].body.length

/-- An executable line strictly inside the arm. -/
def InArm (i : Fin s.arms.length) (ln : Nat) : Prop :=
  ln ∈ f.lines ∧ s.opened i < ln ∧ ln ≤ s.closed i

instance (i : Fin s.arms.length) (ln : Nat) : Decidable (s.InArm i ln) :=
  inferInstanceAs (Decidable (_ ∧ _))

/-- No line inside the one arm has a block with a line inside the other. -/
def Apart (i j : Fin s.arms.length) : Prop :=
  ∀ a b, s.InArm i a → s.InArm j b → f.blockOf a ≠ f.blockOf b

/-- Neighbouring executable lines from the last one of the one arm to the first one of
the other. -/
structure Between (i j : Fin s.arms.length) (k u v : Nat) : Prop where
  here : f.lines[k]? = some u
  next : f.lines[k + 1]? = some v
  behind : s.closed i < v
  before : u ≤ s.opened j

/-- Both arms have an executable line, and the text parts no neighbours from the last one
of the first arm to the first one of the other. -/
structure Joined (i j : Fin s.arms.length) : Prop where
  first : ∃ a, s.InArm i a
  last : ∃ b, s.InArm j b
  unparted : ∀ k u v, s.Between i j k u v → ¬ PartedAt f k u v

variable {s}

/-! ## The lines of the arms in the file -/

theorem start_succ (i : Fin s.arms.length) : s.start (i + 1) = s.closed i := by
  have cut : s.arms.take (i + 1) = s.arms.take i ++ [s.arms[i]] :=
    List.take_succ_eq_append_getElem i.isLt
  simp only [start, closed, opened]
  rw [cut, List.flatMap_append, List.length_append, List.flatMap_singleton, Arm.lines,
    List.length_append]
  omega

theorem start_le {m n : Nat} (le : m ≤ n) : s.start m ≤ s.start n := by
  obtain ⟨rest, shape⟩ := (List.take_prefix_take_left le : s.arms.take m <+: s.arms.take n)
  simp only [start]
  rw [← shape, List.flatMap_append, List.length_append]
  omega

/-- The line of an arm is the line of the file at its place. -/
theorem textAt_body (i : Fin s.arms.length) {k : Nat} (inside : k < s.arms[i].body.length) :
    textAt f.raw (s.opened i + 1 + k) = s.arms[i].body[k] := by
  have cut : s.arms.take i ++ (s.arms[i.val] :: s.arms.drop (i + 1)) = s.arms := by
    rw [List.getElem_cons_drop, List.take_append_drop]
  have whole : s.arms.flatMap Arm.lines = (s.arms.take i).flatMap Arm.lines ++
      (s.arms[i].opener ++ s.arms[i].body ++ (s.arms.drop (i + 1)).flatMap Arm.lines) := by
    conv => lhs; rw [← cut]
    rw [List.flatMap_append, List.flatMap_cons]
    rfl
  have front : f.raw.map strip = (s.before ++ (s.arms.take i).flatMap Arm.lines ++
      s.arms[i].opener) ++ s.arms[i].body ++
        ((s.arms.drop (i + 1)).flatMap Arm.lines ++ s.after) := by
    rw [s.shape, whole]
    simp
  have place : (s.before ++ (s.arms.take i).flatMap Arm.lines ++ s.arms[i].opener).length =
      s.opened i := by
    simp only [opened, start, List.length_append]
  have entry : (f.raw.map strip)[s.opened i + k]? = some s.arms[i].body[k] := by
    rw [front, ← place, List.append_assoc, List.getElem?_append_right (Nat.le_add_right _ _),
      Nat.add_sub_cancel_left, List.getElem?_append_left inside, List.getElem?_eq_getElem inside]
  obtain ⟨line, listed, equal⟩ := by
    rw [List.getElem?_map] at entry
    exact Option.map_eq_some_iff.1 entry
  have index : s.opened i + 1 + k - 1 = s.opened i + k := by omega
  simp only [textAt, lineAt]
  rw [index, List.getD_eq_getElem?_getD, listed, Option.getD_some, equal]

/-! ## Joined arms -/

variable {i j : Fin s.arms.length}

/-- The lines of the one arm come before those of the other. -/
theorem ordered (order : i < j) {a b : Nat} (inFirst : s.InArm i a) (inLast : s.InArm j b) :
    a ≤ s.closed i ∧ s.closed i ≤ s.opened j ∧ s.opened j < b := by
  have between : s.start (i + 1) ≤ s.start j := start_le order
  rw [start_succ] at between
  refine ⟨inFirst.2.2, ?_, inLast.2.1⟩
  simp only [opened] at between ⊢
  omega

/-- Neighbours between the arms stand between any two of their lines. -/
theorem Between.bounds {k u v : Nat} (between : s.Between i j k u v) (order : i < j)
    {m n a b : Nat} (inFirst : s.InArm i a) (inLast : s.InArm j b) (placeA : f.lines[m]? = some a)
    (placeB : f.lines[n]? = some b) : m ≤ k ∧ k < n := by
  have lines := ordered order inFirst inLast
  have above : a < v := Nat.lt_of_le_of_lt lines.1 between.behind
  have below : u < b := Nat.lt_of_le_of_lt between.before lines.2.2
  have lower := (lines_lt placeA between.next).1 above
  have upper := (lines_lt between.here placeB).1 below
  omega

/-- Two arms have no block in common exactly when they are not joined. -/
theorem apart_iff_not_joined (order : i < j) : s.Apart i j ↔ ¬ s.Joined i j := by
  constructor
  · intro apart joined
    obtain ⟨a, inFirst⟩ := joined.first
    obtain ⟨b, inLast⟩ := joined.last
    have lines := ordered order inFirst inLast
    obtain ⟨placeA, listedA⟩ := List.getElem?_of_mem inFirst.1
    obtain ⟨placeB, listedB⟩ := List.getElem?_of_mem inLast.1
    -- The last line of the first arm, and the first one of the other.
    obtain ⟨m, u, w, -, -, hereM, nextM, aboveM, insideM, outsideM, -⟩ :=
      exists_crossing listedA listedB lines.1 (by omega)
    obtain ⟨n, x, v, -, -, hereN, nextN, -, insideN, outsideN, belowN⟩ :=
      exists_crossing listedA listedB (by omega) lines.2.2
    have inFirst' : s.InArm i u :=
      ⟨List.mem_of_getElem? hereM, Nat.lt_of_lt_of_le inFirst.2.1 aboveM, insideM⟩
    have inLast' : s.InArm j v :=
      ⟨List.mem_of_getElem? nextN, outsideN, Nat.le_trans belowN inLast.2.2⟩
    have less : m < n + 1 := (lines_lt hereM nextN).1 (by omega)
    apply apart u v inFirst' inLast'
    apply (blockOf_eq_iff_parted hereM nextN (Nat.le_of_lt less)).2
    intro k y z lower upper here next
    have after : u < z := (lines_lt hereM next).2 (by omega)
    have ahead : y < v := (lines_lt here nextN).2 upper
    apply joined.unparted k y z
    refine ⟨here, next, ?_, ?_⟩
    · by_contra inside
      have place := (lines_lt next nextM).1 (by omega)
      omega
    · by_contra inside
      have place := (lines_lt hereN here).1 (by omega)
      omega
  · intro none a b inFirst inLast same
    apply none
    obtain ⟨m, placeA⟩ := List.getElem?_of_mem inFirst.1
    obtain ⟨n, placeB⟩ := List.getElem?_of_mem inLast.1
    have lines := ordered order inFirst inLast
    have less : m < n := (lines_lt placeA placeB).1 (by omega)
    have all := (blockOf_eq_iff_parted placeA placeB (Nat.le_of_lt less)).1 same
    refine ⟨⟨a, inFirst⟩, ⟨b, inLast⟩, fun k u v between => ?_⟩
    have bounds := between.bounds order inFirst inLast placeA placeB
    exact all k u v bounds.1 bounds.2 between.here between.next

/-! ## What the lines between the arms do -/

/-- A line between the arms that is not executable and has a brace or `else` parts them. -/
theorem not_joined_of_gap (order : i < j) {e : Nat} (behind : s.closed i < e)
    (before : e ≤ s.opened j) (passive : e ∉ f.lines)
    (closes : closesGap (textAt f.raw e) = true) : ¬ s.Joined i j := by
  intro joined
  obtain ⟨a, inFirst⟩ := joined.first
  obtain ⟨b, inLast⟩ := joined.last
  have lines := ordered order inFirst inLast
  obtain ⟨m, placeA⟩ := List.getElem?_of_mem inFirst.1
  obtain ⟨n, placeB⟩ := List.getElem?_of_mem inLast.1
  obtain ⟨k, u, v, -, -, here, next, -, upTo, beyond, -⟩ :=
    exists_crossing placeA placeB (by omega : a ≤ e) (by omega)
  have apart : u ≠ e := fun equal => passive (equal ▸ List.mem_of_getElem? here)
  apply joined.unparted k u v ⟨here, next, by omega, by omega⟩
  left
  apply gapCloses_iff.2
  refine ⟨e - 1, ?_, closes⟩
  rw [List.mem_range'_1]
  omega

/-- A line between the arms at which nothing is open and that leads a block parts them. -/
theorem not_joined_of_lead {k c : Nat} (here : f.lines[k]? = some c) (behind : s.closed i < c)
    (before : c ≤ s.opened j) (fresh : Fresh f k c) (leads : Leads f c) : ¬ s.Joined i j := by
  intro joined
  obtain ⟨a, inFirst⟩ := joined.first
  obtain ⟨m, placeA⟩ := List.getElem?_of_mem inFirst.1
  have later := (lines_lt placeA here).1 (Nat.lt_of_le_of_lt inFirst.2.2 behind)
  obtain ⟨p, rfl⟩ := Nat.exists_eq_add_of_le' (Nat.lt_of_le_of_lt (Nat.zero_le m) later)
  have inside := (List.getElem?_eq_some_iff.1 here).1
  have prev : f.lines[p]? = some f.lines[p] := List.getElem?_eq_getElem (by omega)
  have below := (lines_lt prev here).2 (Nat.lt_succ_self p)
  exact joined.unparted p f.lines[p] c ⟨prev, here, behind, by omega⟩
    (Or.inr ⟨fresh, Or.inl leads⟩)

/-- One connector that leads no block and leaves nothing open, such as `} else {` or
`default:`, right between the arms joins them unless a brace or `else` stands before or
behind it, the line before it or the connector has a jump word, the other arm begins with a
leading line, or the line before it is a head or an unbraced body. -/
theorem joined_connector_iff (order : i < j) {p a c b : Nat} (placeA : f.lines[p]? = some a)
    (placeC : f.lines[p + 1]? = some c) (placeB : f.lines[p + 2]? = some b)
    (inFirst : s.InArm i a) (inLast : s.InArm j b) (behind : s.closed i < c)
    (before : c ≤ s.opened j) (fresh : Fresh f (p + 1) c)
    (plain : blockLeadRe.isMatch (textAt f.raw c) = false) (finished : CodeLine (textAt f.raw c)) :
    s.Joined i j ↔
      gapCloses f.raw a c = false ∧ gapCloses f.raw c b = false ∧ ¬ Jumps f a ∧ ¬ Jumps f c ∧
        ¬ Leads f b ∧ ¬ (Fresh f p a ∧ (Keyword f a ∨ AfterBare f p)) := by
  have noLead : ¬ Leads f c := by
    simp only [Leads]
    rw [plain]
    exact Bool.false_ne_true
  have noKeyword : ¬ Keyword f c := fun keyword => noLead (leads_of_keyword keyword)
  have freshB : Fresh f (p + 2) b :=
    fresh_behind placeC fresh finished.depthAfter_eq finished.noOperator b
  have bare : AfterBare f (p + 1) → Fresh f p a ∧ Keyword f a := by
    rintro ⟨m, head, equal, place, freshHead, keyword, _⟩
    have same : p = m := Nat.succ.inj equal
    subst same
    rw [placeA, Option.some.injEq] at place
    subst place
    exact ⟨freshHead, keyword⟩
  have lines := ordered order inFirst inLast
  have pair : s.Joined i j ↔ ¬ PartedAt f p a c ∧ ¬ PartedAt f (p + 1) c b := by
    constructor
    · intro joined
      exact ⟨joined.unparted p a c ⟨placeA, placeC, behind, by omega⟩,
        joined.unparted (p + 1) c b ⟨placeC, placeB, by omega, before⟩⟩
    · rintro ⟨firstPair, secondPair⟩
      refine ⟨⟨a, inFirst⟩, ⟨b, inLast⟩, fun k u v between => ?_⟩
      have bounds := between.bounds order inFirst inLast placeA placeB
      have here := between.here
      have next := between.next
      have place : k = p ∨ k = p + 1 := by omega
      rcases place with rfl | rfl
      · rw [placeA, Option.some.injEq] at here
        rw [placeC, Option.some.injEq] at next
        rw [← here, ← next]
        exact firstPair
      · rw [placeC, Option.some.injEq] at here
        rw [placeB, Option.some.injEq] at next
        rw [← here, ← next]
        exact secondPair
  rw [pair]
  simp only [PartedAt, fresh, freshB, noLead, noKeyword, true_and, false_or, not_or,
    Bool.not_eq_true]
  constructor
  · rintro ⟨⟨gap, jump, head⟩, gap', leads, jump', _⟩
    exact ⟨gap, gap', jump, jump', leads, head⟩
  · rintro ⟨gap, gap', jump, jump', leads, head⟩
    have notBare : ¬ AfterBare f (p + 1) := by
      intro due
      obtain ⟨freshHead, keyword⟩ := bare due
      exact head ⟨freshHead, Or.inl keyword⟩
    exact ⟨⟨gap, jump, head⟩, gap', leads, jump', notBare⟩

end ArmedStatement

/-- In every statement of every file, two arms have no block in common if and only if the
text parts them; then neither arm is covered because the other was executed. -/
theorem arms_apart_iff (rel text : Str) (s : ArmedStatement (parsedFile rel text))
    (i j : Fin s.arms.length) (order : i < j) :
    (s.Apart i j ↔ ¬ s.Joined i j) ∧
      (s.Apart i j → ∀ hits : LineHits,
        ((∀ ln ∈ (parsedFile rel text).lines, 0 < hitsAt hits ln → s.InArm i ln) →
          ∀ b, s.InArm j b → ¬ 0 < hitsAt (cohereBlockHits (parsedFile rel text) hits) b) ∧
        ((∀ ln ∈ (parsedFile rel text).lines, 0 < hitsAt hits ln → s.InArm j ln) →
          ∀ a, s.InArm i a → ¬ 0 < hitsAt (cohereBlockHits (parsedFile rel text) hits) a)) := by
  refine ⟨ArmedStatement.apart_iff_not_joined order, fun apart hits => ⟨?_, ?_⟩⟩
  · intro only b inside
    exact uncovered_of_apart apart hits only inside.1 inside
  · intro only a inside
    exact uncovered_of_apart (fun b a inB inA => (apart a b inA inB).symm) hits only inside.1 inside

end Arms

section Sample

attribute [local instance] asciiUnicode

/-- A function with one statement of two arms, both a call. -/
def functionText (lines : List Str) : Str :=
  ("int f(int x)".toList :: "\x7b".toList :: lines ++ ["\x7d".toList]).flatMap fun line =>
    line ++ ['\n']

/-- A switch whose first arm ends in these lines. -/
def switchLines (last : List Str) (label : Str) : List Str :=
  ["switch (x) \x7b".toList, "case 1:".toList, "foo();".toList] ++ last ++
    [label, "bar();".toList, "\x7d".toList]

def ifLines (connector : List Str) : List Str :=
  ["if (x) \x7b".toList, "foo();".toList] ++ connector ++ ["bar();".toList, "\x7d".toList]

def switchFile (last : List Str) (label : Str) : SourceFile :=
  parsedFile "a.c".toList (functionText (switchLines last label))

def ifFile (connector : List Str) : SourceFile :=
  parsedFile "a.c".toList (functionText (ifLines connector))

def switchStatement (last : List Str) (label : Str)
    (shape : (switchFile last label).raw.map strip =
      ["int f(int x)".toList, "\x7b".toList] ++
        [⟨["switch (x) \x7b".toList, "case 1:".toList], "foo();".toList :: last⟩,
          ⟨[label], ["bar();".toList]⟩].flatMap Arm.lines ++ ["\x7d".toList, "\x7d".toList]) :
    ArmedStatement (switchFile last label) :=
  ⟨_, _, _, shape⟩

def ifStatement (connector : List Str)
    (shape : (ifFile connector).raw.map strip =
      ["int f(int x)".toList, "\x7b".toList] ++
        [⟨["if (x) \x7b".toList], ["foo();".toList]⟩,
          ⟨connector, ["bar();".toList]⟩].flatMap Arm.lines ++ ["\x7d".toList, "\x7d".toList]) :
    ArmedStatement (ifFile connector) :=
  ⟨_, _, _, shape⟩

/-- The brace and `else` on lines of their own. -/
def separateIf : ArmedStatement (ifFile ["\x7d".toList, "else \x7b".toList]) :=
  ifStatement _ (by decide +kernel)

def cuddledIf : ArmedStatement (ifFile ["\x7d else \x7b".toList]) :=
  ifStatement _ (by decide +kernel)

/-- One label falls through to `default:`. -/
def fallThroughSwitch : ArmedStatement (switchFile [] "default:".toList) :=
  switchStatement _ _ (by decide +kernel)

def commentedSwitch : ArmedStatement (switchFile ["break; /* done */".toList] "case 2:".toList) :=
  switchStatement _ _ (by decide +kernel)

/-- With the brace and `else` on lines of their own the two calls are apart. -/
theorem arms_apart_iff_separate :
    separateIf.Apart ⟨0, by decide⟩ ⟨1, by decide⟩ :=
  (arms_apart_iff "a.c".toList (functionText (ifLines ["\x7d".toList, "else \x7b".toList]))
    separateIf ⟨0, by decide⟩ ⟨1, by decide⟩ (by decide)).1.2
    (ArmedStatement.not_joined_of_gap (by decide) (e := 5) (by decide) (by decide)
      (by decide +kernel) (by decide +kernel))

/-- The two calls share a block, so one is covered as soon as the other is: across
`} else {`, where one label falls through to `default:`, and where a comment ends the line
before `case 2:`. -/
theorem arms_share :
    (cuddledIf.InArm ⟨0, by decide⟩ 4 ∧ cuddledIf.InArm ⟨1, by decide⟩ 6 ∧
      ¬ cuddledIf.Apart ⟨0, by decide⟩ ⟨1, by decide⟩ ∧
      0 < hitsAt (cohereBlockHits (ifFile ["\x7d else \x7b".toList]) ((∅ : LineHits).set 4 1)) 6) ∧
    ¬ fallThroughSwitch.Apart ⟨0, by decide⟩ ⟨1, by decide⟩ ∧
    ¬ commentedSwitch.Apart ⟨0, by decide⟩ ⟨1, by decide⟩ := by
  have inThen : cuddledIf.InArm ⟨0, by decide⟩ 4 := by decide +kernel
  have inElse : cuddledIf.InArm ⟨1, by decide⟩ 6 := by decide +kernel
  have same : (ifFile ["\x7d else \x7b".toList]).blockOf 4 =
      (ifFile ["\x7d else \x7b".toList]).blockOf 6 := by
    decide +kernel
  refine ⟨⟨inThen, inElse, fun apart => apart 4 6 inThen inElse same, by decide +kernel⟩, ?_, ?_⟩
  · intro apart
    exact apart 5 7 (by decide +kernel) (by decide +kernel) (by decide +kernel)
  · intro apart
    exact apart 5 8 (by decide +kernel) (by decide +kernel) (by decide +kernel)

end Sample

end Ocfs2Coverage.Hits
