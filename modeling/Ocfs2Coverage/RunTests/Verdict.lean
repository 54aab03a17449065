import Ocfs2Coverage.RunTests.Custom

/-!
Contract: the verdict of `run_tests.sh` on a node.

Owns: the line `run_xfstests` appends, the counts and the exit status at the end, and the
exact condition under which success is announced rightly.

Does not own: how xfstests is found and configured.
-/

namespace Ocfs2Coverage.RunTests

open Ocfs2Coverage.Python
open Ocfs2Coverage.Shell

/-! ## `run_xfstests` -/

/-- A run that was started: the exit code, 124 after a timeout, and the log. -/
structure XfstestsRun where
  exitCode : Nat
  log : Str
deriving DecidableEq, Repr

/-- `$(grep -c ... || echo 0)`: `grep` prints 0 and fails, so that 0 stands there twice. -/
def countText (n : Nat) : Str := if n = 0 then "0\n0".toList else strOfNat n

/-- The lines `grep -cE "^Passed |^Ran:"` counts. -/
def passedLines (log : Str) : Nat :=
  (textLines log).countP fun line => startswith line "Passed ".toList || startswith line "Ran:".toList

def failedLines (log : Str) : Nat := (textLines log).countP fun line => contains line "Failed".toList

def xfstestsLine (profile : Str) (run : XfstestsRun) : Str :=
  if run.exitCode = 0 then "PASS: xfstests (".toList ++ profile ++ ")".toList
  else if grepAny ["Passed all".toList, "All tests passed".toList] run.log then
    "PASS: xfstests (все тесты пройдены)".toList
  else if grepAny ["Failed".toList, "failed".toList, "not run".toList] run.log then
    "PARTIAL: xfstests (Passed~".toList ++ (countText (passedLines run.log) ++
      (" Failed~".toList ++ (countText (failedLines run.log) ++ ", см. лог)".toList)))
  else "UNKNOWN: xfstests (см. лог)".toList

/-! ## The verdict -/

def allPassedMessage : Str := "Все тесты пройдены успешно!".toList

/-- The counts, what the last `log_info` says, and the exit status. -/
structure Verdict where
  passCount : Nat
  failCount : Nat
  message : Str
  status : Nat
deriving DecidableEq, Repr

/-- The file of results; without xfstests there is no line about them. -/
def resultsFile (o : Observed) (profile : Str) (xfstests : Option XfstestsRun) : Str :=
  (o.customLines ++ (xfstests.map (xfstestsLine profile)).toList).flatMap echo

def verdict (results : Str) : Verdict :=
  let failCount := grepCount "FAIL".toList results
  { passCount := grepCount "PASS".toList results
    failCount
    message := if failCount = 0 then allPassedMessage else "Некоторые тесты не пройдены".toList
    status := if failCount = 0 then 0 else 1 }

def runTests (o : Observed) (profile : Str) (xfstests : Option XfstestsRun) : Verdict :=
  verdict (resultsFile o profile xfstests)

/-! ## Success -/

/-- Every custom test recorded `PASS`. -/
def RecordedPass (o : Observed) : Prop := ∀ line ∈ o.customLines, startswith line "PASS".toList = true

/-- The run did not fail: its exit code is 0, or a line of the log says that all tests
passed. -/
def XfstestsRun.Succeeded (run : XfstestsRun) : Prop :=
  run.exitCode = 0 ∨ ∃ line ∈ textLines run.log,
    contains line "Passed all".toList = true ∨ contains line "All tests passed".toList = true

/-- Success is announced only when all tests passed. -/
def Sound (o : Observed) (profile : Str) (run : XfstestsRun) : Prop :=
  (runTests o profile (some run)).status = 0 ∧
    (runTests o profile (some run)).message = allPassedMessage → RecordedPass o ∧ run.Succeeded

/-! ## Lines of failure -/

/-- The lines of failure that `echo` of a text adds to the results. -/
def failures (text : Str) : Nat := grepCount "FAIL".toList (echo text)

theorem failures_line {line : Str} (plain : '\n' ∉ line) :
    failures line = if startswith line "FAIL".toList then 1 else 0 := grepCount_line _ plain

theorem startswith_of_marked {marker line : Str} (marked : Marked marker line) (tag : Str)
    (short : tag.length ≤ marker.length) : startswith line tag = startswith marker tag := by
  have begins := startswith_iff.1 marked.begins
  rw [Bool.eq_iff_iff, startswith_iff, startswith_iff]
  exact ⟨fun here => List.prefix_of_prefix_length_le here begins short, fun here => here.trans begins⟩

theorem failures_of_records {line : Str} {succeeds : Prop} (records : Records line succeeds) :
    failures line = 0 ↔ succeeds := by
  rcases records with ⟨here, marked⟩ | ⟨here, marked⟩
  · rw [failures_line marked.oneLine, startswith_of_marked marked _ (by decide)]
    exact ⟨fun _ => here, fun _ => rfl⟩
  · rw [failures_line marked.oneLine, startswith_of_marked marked _ (by decide)]
    exact ⟨(fun none => by cases none), fun succeeds => absurd succeeds here⟩

theorem passes_of_records {line : Str} {succeeds : Prop} (records : Records line succeeds) :
    startswith line "PASS".toList = true ↔ succeeds := by
  rcases records with ⟨here, marked⟩ | ⟨here, marked⟩
  · rw [startswith_of_marked marked _ (by decide)]
    exact ⟨fun _ => here, fun _ => rfl⟩
  · rw [startswith_of_marked marked _ (by decide)]
    exact ⟨(fun passed => by cases passed), fun succeeds => absurd succeeds here⟩

/-- The tag is on no line of the results when `echo` of every line is without it. -/
theorem grepCount_results_iff (tag : Str) (lines : List Str) :
    grepCount tag (lines.flatMap echo) = 0 ↔ ∀ line ∈ lines, grepCount tag (echo line) = 0 := by
  induction lines with
  | nil => exact ⟨(fun _ line member => by cases member), fun _ => rfl⟩
  | cons line rest inductionHypothesis =>
      rw [List.flatMap_cons, grepCount_append, Nat.add_eq_zero_iff, inductionHypothesis,
        List.forall_mem_cons]

/-- A line feed and a failure behind it. -/
def failMark : Str := '\n' :: "FAIL".toList

theorem failures_eq_zero_iff {text : Str} (begins : startswith text "FAIL".toList = false) :
    failures text = 0 ↔ contains text failMark = false := by
  have positive := grepCount_pos_iff (show '\n' ∉ "FAIL".toList by decide) text
  rw [begins] at positive
  constructor
  · intro none
    rw [← Bool.not_eq_true]
    intro found
    have some_ := positive.2 (Or.inr found)
    change 0 < failures text at some_
    omega
  · intro absent
    by_contra some_
    rcases positive.1 (Nat.pos_of_ne_zero some_) with first | behind
    · cases first
    · exact absurd behind (Bool.eq_false_iff.1 absent)

theorem not_contains_of_plain {text : Str} (plain : '\n' ∉ text) : contains text failMark = false := by
  rw [← Bool.not_eq_true, contains_iff]
  exact fun inside => plain (inside.mem List.mem_cons_self)

/-- The profile between fixed texts. -/
theorem contains_profile (profile : Str) :
    contains ("PASS: xfstests (".toList ++ (profile ++ ")".toList)) failMark =
      contains profile failMark := by
  have first : Uncrossed failMark "PASS: xfstests (".toList (profile ++ ")".toList) := by
    intro front back nonempty _ shape suffix _
    cases front with
    | nil => exact nonempty rfl
    | cons c front =>
        have feed : '\n' = c := (List.cons_eq_cons.1 shape).1
        have inside := suffix.mem List.mem_cons_self
        rw [← feed] at inside
        exact absurd inside (by decide)
  have last : Uncrossed failMark profile ")".toList := by
    intro front back _ nonempty shape _ prefix_
    rcases List.eq_nil_or_concat' back with none | ⟨back, c, rfl⟩
    · exact nonempty none
    · have final : c ∈ ")".toList := prefix_.mem (by simp)
      have mark := congrArg List.getLast? shape
      rw [← List.append_assoc, List.getLast?_concat] at mark
      rw [← Option.some.inj mark] at final
      exact absurd final (by decide)
  rw [contains_append first, contains_append last, not_contains_of_plain (by decide), Bool.false_or,
    @not_contains_of_plain ")".toList (by decide), Bool.or_false]

/-- A count breaks the line only before another digit. -/
theorem contains_count {front rest : Str} (plain : '\n' ∉ front) (n : Nat)
    (clear : ∀ before, '\n' ∉ before → contains (before ++ rest) failMark = false) :
    contains (front ++ (countText n ++ rest)) failMark = false := by
  simp only [countText]
  split
  · have shape : front ++ ("0\n0".toList ++ rest) = (front ++ ['0']) ++ '\n' :: (['0'] ++ rest) := by
      simp
    have plain' : '\n' ∉ front ++ ['0'] := by simp [plain]
    rw [shape]
    simp only [failMark]
    rw [contains_behind plain']
    exact clear ['0'] (by decide)
  · rw [← List.append_assoc]
    apply clear
    rw [List.mem_append, not_or]
    exact ⟨plain, notMem_strOfNat (by decide) n⟩

theorem failures_xfstestsLine (profile : Str) (run : XfstestsRun) :
    failures (xfstestsLine profile run) = 0 ↔
      ¬ (run.exitCode = 0 ∧ contains profile failMark = true) := by
  simp only [xfstestsLine]
  split
  · next zero =>
      rw [List.append_assoc, failures_eq_zero_iff rfl, contains_profile, and_iff_right zero,
        Bool.not_eq_true]
  · next failed =>
      have none : ¬ (run.exitCode = 0 ∧ contains profile failMark = true) := fun both => failed both.1
      split
      · rw [failures_line (by decide)]
        exact ⟨fun _ => none, fun _ => rfl⟩
      · split
        · refine ⟨fun _ => none, fun _ => ?_⟩
          rw [failures_eq_zero_iff rfl]
          apply contains_count (by decide)
          intro before plain
          rw [← List.append_assoc]
          apply contains_count
          · rw [List.mem_append, not_or]
            exact ⟨plain, by decide⟩
          · intro before plain
            apply not_contains_of_plain
            rw [List.mem_append, not_or]
            exact ⟨plain, by decide⟩
        · rw [failures_line (by decide)]
          exact ⟨fun _ => none, fun _ => rfl⟩

/-- `run_xfstests` records `PASS` exactly for the runs that did not fail. -/
theorem passes_xfstestsLine (profile : Str) (run : XfstestsRun) :
    startswith (xfstestsLine profile run) "PASS".toList = true ↔ run.Succeeded := by
  have found : grepAny ["Passed all".toList, "All tests passed".toList] run.log = true ↔
      ∃ line ∈ textLines run.log,
        contains line "Passed all".toList = true ∨ contains line "All tests passed".toList = true := by
    simp only [grepAny, List.any_eq_true, List.mem_cons, List.not_mem_nil, or_false,
      exists_eq_or_imp, exists_eq_left]
  simp only [xfstestsLine, XfstestsRun.Succeeded]
  rw [← found]
  split
  · next zero => exact ⟨fun _ => Or.inl zero, fun _ => rfl⟩
  · next failed =>
      rw [or_iff_right failed]
      split
      · next passed => exact ⟨fun _ => passed, fun _ => rfl⟩
      · next absent =>
          split
          · exact ⟨(fun here => by cases here), fun passed => absurd passed absent⟩
          · exact ⟨(fun here => by cases here), fun passed => absurd passed absent⟩

/-! ## What is announced -/

theorem failCount_iff (o : Observed) (profile : Str) (run : XfstestsRun) :
    (runTests o profile (some run)).failCount = 0 ↔
      o.CorePassed ∧ ¬ (run.exitCode = 0 ∧ contains profile failMark = true) := by
  have none : (runTests o profile (some run)).failCount = 0 ↔
      ∀ line ∈ o.customLines ++ [xfstestsLine profile run], failures line = 0 :=
    grepCount_results_iff _ _
  have core := o.records_core
  have marked : failures o.xattrAclMmap = 0 := by
    rcases o.marked_xattrAclMmap with ⟨-, marked⟩ | ⟨-, marked⟩
    · rw [failures_line marked.oneLine, startswith_of_marked marked _ (by decide)]
      rfl
    · rw [failures_line marked.oneLine, startswith_of_marked marked _ (by decide)]
      rfl
  have passed : (∀ line ∈ o.customLines, failures line = 0) ↔ o.CorePassed := by
    simp only [Observed.customLines, List.forall_mem_cons]
    rw [failures_of_records core.1, failures_of_records core.2.1,
      failures_of_records o.records_concurrentWrite, failures_of_records o.records_largeFile,
      failures_of_records core.2.2.1, failures_of_records core.2.2.2]
    constructor
    · rintro ⟨basic, directory, concurrent, large, integrity, metadata, -⟩
      exact ⟨basic, directory, concurrent, large, integrity, metadata⟩
    · intro passed
      exact ⟨passed.basic, passed.directory, passed.concurrent, passed.large, passed.integrity,
        passed.metadata, marked, List.forall_mem_nil _⟩
  rw [none, List.forall_mem_append, passed, List.forall_mem_singleton, failures_xfstestsLine]

theorem recordedPass_iff (o : Observed) : RecordedPass o ↔ o.CorePassed ∧ o.xattrOk = true := by
  have core := o.records_core
  have last : startswith o.xattrAclMmap "PASS".toList = true ↔ o.xattrOk = true := by
    rcases o.marked_xattrAclMmap with ⟨ok, marked⟩ | ⟨ok, marked⟩
    · rw [startswith_of_marked marked _ (by decide), ok]
      exact ⟨fun _ => rfl, fun _ => rfl⟩
    · rw [startswith_of_marked marked _ (by decide), ok]
      exact ⟨(fun here => by cases here), (fun here => by cases here)⟩
  simp only [RecordedPass, Observed.customLines, List.forall_mem_cons]
  rw [passes_of_records core.1, passes_of_records core.2.1,
    passes_of_records o.records_concurrentWrite, passes_of_records o.records_largeFile,
    passes_of_records core.2.2.1, passes_of_records core.2.2.2, last]
  constructor
  · rintro ⟨basic, directory, concurrent, large, integrity, metadata, ok, -⟩
    exact ⟨⟨basic, directory, concurrent, large, integrity, metadata⟩, ok⟩
  · rintro ⟨passed, ok⟩
    exact ⟨passed.basic, passed.directory, passed.concurrent, passed.large, passed.integrity,
      passed.metadata, ok, List.forall_mem_nil _⟩

/-- Success is announced for every run without a line of failure. -/
theorem announced_iff (results : Str) :
    (verdict results).status = 0 ∧ (verdict results).message = allPassedMessage ↔
      (verdict results).failCount = 0 := by
  simp only [verdict]
  constructor
  · intro announced
    by_contra some_
    rw [if_neg some_] at announced
    exact absurd announced.1 (by decide)
  · intro none
    rw [if_pos none, if_pos none]
    exact ⟨rfl, rfl⟩

/-- Success is announced rightly exactly when one of the first six tests fails, or a
line of failure stands in the profile that a successful run prints, or the last test and
the run succeed. -/
theorem sound_iff (o : Observed) (profile : Str) (run : XfstestsRun) :
    Sound o profile run ↔
      ¬ o.CorePassed ∨ run.exitCode = 0 ∧ contains profile failMark = true ∨
        o.xattrOk = true ∧ run.Succeeded := by
  have announced : (runTests o profile (some run)).status = 0 ∧
      (runTests o profile (some run)).message = allPassedMessage ↔
      o.CorePassed ∧ ¬ (run.exitCode = 0 ∧ contains profile failMark = true) :=
    (announced_iff _).trans (failCount_iff o profile run)
  rw [Sound, announced, recordedPass_iff]
  constructor
  · intro sound
    by_cases core : o.CorePassed
    · by_cases marked : run.exitCode = 0 ∧ contains profile failMark = true
      · exact Or.inr (Or.inl marked)
      · have right := sound ⟨core, marked⟩
        exact Or.inr (Or.inr ⟨right.1.2, right.2⟩)
    · exact Or.inl core
  · intro condition
    rintro ⟨core, unmarked⟩
    rcases condition with failed | marked | ⟨ok, succeeded⟩
    · exact absurd core failed
    · exact absurd marked unmarked
    · exact ⟨⟨core, ok⟩, succeeded⟩

/-! ## A run that failed -/

section Sample

/-- Six tests pass, `getfattr` fails, and one test of xfstests fails. -/
def partialNode : Observed where
  testContent := "Test content from ocfs2-node-1 at 1700000000".toList
  testFile := some "Test content from ocfs2-node-1 at 1700000000".toList
  isDirectory := true
  lineCount := some 2
  actualSize := some 8388608
  data := "Integrity test data: 1700000000".toList
  readData := "Integrity test data: 1700000000".toList
  isRegular := true
  isReadable := true
  xattr := some (true, false)

def failedRun : XfstestsRun where
  exitCode := 1
  log := "Ran: generic/001 generic/002\nFailures: generic/002\nFailed 1 of 2 tests\n".toList

/-- Success is announced all the same. -/
theorem failedRun_announced :
    (runTests partialNode "default".toList (some failedRun)).status = 0 ∧
    (runTests partialNode "default".toList (some failedRun)).message = allPassedMessage ∧
    "PARTIAL: xattr/acl/mmap/fallocate".toList ∈ partialNode.customLines ∧
    xfstestsLine "default".toList failedRun =
      "PARTIAL: xfstests (Passed~1 Failed~1, см. лог)".toList ∧
    ¬ Sound partialNode "default".toList failedRun := by
  have announced : (runTests partialNode "default".toList (some failedRun)).status = 0 ∧
      (runTests partialNode "default".toList (some failedRun)).message = allPassedMessage := by
    have core : partialNode.CorePassed := ⟨rfl, rfl, ⟨2, rfl, by decide⟩, rfl, rfl, rfl, rfl⟩
    exact (announced_iff _).2 ((failCount_iff _ _ _).2 ⟨core, fun both => Nat.one_ne_zero both.1⟩)
  have recorded : "PARTIAL: xattr/acl/mmap/fallocate".toList ∈ partialNode.customLines := by
    have last : partialNode.xattrAclMmap = "PARTIAL: xattr/acl/mmap/fallocate".toList := rfl
    rw [← last, Observed.customLines]
    exact List.mem_of_getLast? rfl
  refine ⟨announced.1, announced.2, recorded, by decide +kernel, ?_⟩
  intro sound
  have passed := (sound announced).1 _ recorded
  exact absurd passed (by decide)

end Sample

end Ocfs2Coverage.RunTests
