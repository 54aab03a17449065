import Ocfs2Coverage.Python.Regex

/-!
Contract: which lines of a C source file the report counts as executable.

Owns: `is_code_line` with its comment flag and `parse_c_file`. A physical line
is judged alone; only the comment flag is carried from one line to the next.

Does not own: the kinds of executable lines, basic blocks.
-/

namespace Ocfs2Coverage.Source

open Ocfs2Coverage.Python

section Classifier

variable [UnicodeData]

/-- `[a-zA-Z_]`. -/
def isIdentStart (c : Char) : Bool := c.isAlpha || c == '_'

/-- `FUNC_RE`: `^([a-zA-Z_][\w\s\*]+?)\s+([a-zA-Z_][\w]*)\s*\([^;]*\)\s*\{?\s*$`. -/
def funcRe : Regex :=
  .seqs [.start,
    .char isIdentStart, .many1 fun c => isWordChar c || isSpace c || c == '*',
    .many1 isSpace,
    .char isIdentStart, .many isWordChar,
    .many isSpace, .lit "(".toList, .many (· != ';'), .lit ")".toList,
    .many isSpace, .optional (.lit "\x7b".toList), .many isSpace, .finish]

/-- Where the loop over leading comments stops. -/
inductive LeadScan where
  /-- The rest is a line comment. -/
  | lineComment
  /-- A block comment stays open at the end of the line. -/
  | openComment
  | code (s : Str)
deriving DecidableEq, Repr

omit [UnicodeData] in
/-- The `while True` loop of `is_code_line`. Each round shortens the text, so the
length of the text is enough fuel (`skipComments_eq`). -/
def skipComments : Nat → Str → LeadScan
  | 0, s => .code s
  | fuel + 1, s =>
      if startswith s "//".toList then .lineComment
      else if startswith s "/*".toList then
        match splitOnce "*/".toList s with
        | some parts => skipComments fuel (strip parts.2)
        | none => .openComment
      else .code s

/-- The tests `is_code_line` makes once the comments are gone. -/
def isExecutableText (s : Str) : Bool :=
  if s.isEmpty then false
  else if startswith s "#".toList then false
  else if ["\x7b".toList, "\x7d".toList, "\x7d;".toList, "else".toList, "else \x7b".toList,
      "do \x7b".toList, "do".toList].contains s then false
  else if (startswith s "typedef ".toList || startswith s "struct ".toList ||
      startswith s "enum ".toList) && (endswith s ";".toList || endswith s "\x7b".toList) then false
  else if endswith s "\\".toList then false
  else if startswith s "case ".toList || startswith s "default:".toList then true
  else if funcRe.isMatch s && !endswith s ";".toList then false
  else if startswith s "*".toList && !startswith s "*ptr".toList && !startswith s "*p".toList &&
      endswith s "*/".toList then false
  else true

/-- A line outside a block comment, or what follows the end of one. -/
def isCodeLineFrom (s : Str) : Bool × Bool :=
  match skipComments (s.length + 1) s with
  | .lineComment => (false, false)
  | .openComment => (false, true)
  | .code rest => (isExecutableText rest, false)

/-- `is_code_line`: whether the line is executable, and the new comment flag. -/
def isCodeLine (stripped : Str) (inComment : Bool) : Bool × Bool :=
  if inComment then
    match splitOnce "*/".toList stripped with
    | some parts => isCodeLineFrom (strip parts.2)
    | none => (false, true)
  else isCodeLineFrom stripped

/-- The executable flag of every line, threading the comment flag. -/
def scanFlags (inComment : Bool) : List Str → List Bool
  | [] => []
  | line :: rest =>
      let verdict := isCodeLine (strip line) inComment
      verdict.1 :: scanFlags verdict.2 rest

omit [UnicodeData] in
/-- The numbers of the flagged lines, the first line having number `i`. -/
def flaggedFrom (i : Nat) : List Bool → List Nat
  | [] => []
  | flag :: rest => if flag then i :: flaggedFrom (i + 1) rest else flaggedFrom (i + 1) rest

/-- The third result of `parse_c_file`. -/
inductive ScanKind where
  | pending
  | na
deriving DecidableEq, Repr

structure ParsedFile where
  raw : List Str
  execIdx : List Nat
  kinds : List ScanKind
deriving DecidableEq, Repr

/-- `parse_c_file`, from the decoded text of the file. -/
def parseCFile (text : Str) : ParsedFile :=
  let raw := splitlines text
  let flags := scanFlags false raw
  { raw
    execIdx := flaggedFrom 1 flags
    kinds := flags.map fun flag => if flag then .pending else .na }

/-! ## The loop over leading comments ends -/

omit [UnicodeData] in
theorem length_strip_le (s : Str) : (strip s).length ≤ s.length := by
  obtain ⟨left, right, shape, -, -⟩ := strip_decomposition s
  calc (strip s).length ≤ (left ++ strip s ++ right).length := by simp; omega
    _ = s.length := by rw [← shape]

omit [UnicodeData] in
/-- Two amounts of fuel above the length of the text give the same answer. -/
theorem skipComments_fuel {fuel other : Nat} {s : Str} (enough : s.length < fuel)
    (enough' : s.length < other) : skipComments fuel s = skipComments other s := by
  induction fuel generalizing other s with
  | zero => omega
  | succ fuel inductionHypothesis =>
      cases other with
      | zero => omega
      | succ other =>
          rw [skipComments, skipComments]
          split
          · rfl
          · split
            · cases found : splitOnce "*/".toList s with
              | none => rfl
              | some parts =>
                  have shape : s = parts.1 ++ "*/".toList ++ parts.2 := splitOnce_eq_some found
                  have shorter : (strip parts.2).length + 2 ≤ s.length := by
                    have tail := length_strip_le parts.2
                    rw [shape]
                    simp only [List.length_append]
                    have sep : "*/".toList.length = 2 := rfl
                    omega
                  exact inductionHypothesis (by omega) (by omega)
            · rfl

omit [UnicodeData] in
/-- One round of the loop, whatever the text. -/
theorem skipComments_eq (s : Str) :
    skipComments (s.length + 1) s =
      if startswith s "//".toList then .lineComment
      else if startswith s "/*".toList then
        match splitOnce "*/".toList s with
        | some parts => skipComments ((strip parts.2).length + 1) (strip parts.2)
        | none => .openComment
      else .code s := by
  conv_lhs => rw [skipComments]
  split
  · rfl
  · split
    · cases found : splitOnce "*/".toList s with
      | none => rfl
      | some parts =>
          have shape : s = parts.1 ++ "*/".toList ++ parts.2 := splitOnce_eq_some found
          have tail := length_strip_le parts.2
          have shorter : (strip parts.2).length < s.length := by
            rw [shape]
            simp only [List.length_append]
            have sep : "*/".toList.length = 2 := rfl
            omega
          exact skipComments_fuel shorter (by omega)
    · rfl

/-! ## The executable lines are increasing line numbers of the file -/

omit [UnicodeData] in
theorem mem_flaggedFrom {i ln : Nat} {flags : List Bool} :
    ln ∈ flaggedFrom i flags ↔ i ≤ ln ∧ flags[ln - i]? = some true := by
  induction flags generalizing i with
  | nil => simp [flaggedFrom]
  | cons flag rest inductionHypothesis =>
      have step : ln ∈ flaggedFrom i (flag :: rest) ↔
          (flag = true ∧ ln = i) ∨ ln ∈ flaggedFrom (i + 1) rest := by
        cases flag <;> simp [flaggedFrom]
      rw [step, inductionHypothesis]
      rcases Nat.lt_trichotomy ln i with below | rfl | above
      · constructor
        · rintro (⟨-, equal⟩ | ⟨bound, -⟩) <;> omega
        · rintro ⟨bound, -⟩
          omega
      · have notLater : ¬ ln + 1 ≤ ln := by omega
        simp [notLater]
      · have shift : ln - i = ln - (i + 1) + 1 := by omega
        rw [shift, List.getElem?_cons_succ]
        constructor
        · rintro (⟨-, equal⟩ | ⟨bound, set⟩)
          · omega
          · exact ⟨by omega, set⟩
        · rintro ⟨bound, set⟩
          exact Or.inr ⟨by omega, set⟩

omit [UnicodeData] in
theorem flaggedFrom_increasing (i : Nat) (flags : List Bool) :
    (flaggedFrom i flags).Pairwise (· < ·) := by
  induction flags generalizing i with
  | nil => exact List.Pairwise.nil
  | cons flag rest inductionHypothesis =>
      cases flag with
      | false => exact inductionHypothesis (i + 1)
      | true =>
          refine List.Pairwise.cons (fun ln member => ?_) (inductionHypothesis (i + 1))
          have bound := (mem_flaggedFrom.1 member).1
          omega

@[simp] theorem length_scanFlags (inComment : Bool) (raw : List Str) :
    (scanFlags inComment raw).length = raw.length := by
  induction raw generalizing inComment with
  | nil => rfl
  | cons line rest inductionHypothesis => simp [scanFlags, inductionHypothesis]

theorem parseCFile_increasing (text : Str) : (parseCFile text).execIdx.Pairwise (· < ·) :=
  flaggedFrom_increasing 1 _

theorem parseCFile_inRange (text : Str) :
    ∀ ln ∈ (parseCFile text).execIdx, 1 ≤ ln ∧ ln ≤ (parseCFile text).raw.length := by
  intro ln member
  obtain ⟨lower, set⟩ := mem_flaggedFrom.1 member
  have bound : ln - 1 < (scanFlags false (splitlines text)).length :=
    (List.getElem?_eq_some_iff.1 set).1
  rw [length_scanFlags] at bound
  exact ⟨lower, by change ln ≤ (splitlines text).length; omega⟩

end Classifier

end Ocfs2Coverage.Source
