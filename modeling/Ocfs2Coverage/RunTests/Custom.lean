import Ocfs2Coverage.Python.Integer
import Ocfs2Coverage.Shell

/-!
Contract: the seven custom tests of `run_tests.sh`.

Owns: what each test looks at and the line it appends to the results.

Does not own: the commands before the tests look. One that fails under `set -e` ends
the script before its verdict.
-/

namespace Ocfs2Coverage.RunTests

open Ocfs2Coverage.Python
open Ocfs2Coverage.Shell

/-- What the tests find on the node. A file that is no regular one is `none`. -/
structure Observed where
  /-- `$test_content` and `$(cat "$test_file")`. -/
  testContent : Str
  testFile : Option Str
  /-- `[[ -d "$d" ]]`. -/
  isDirectory : Bool
  /-- `wc -l` of the common file, 0 when `wc` fails. -/
  lineCount : Option Nat
  /-- `stat -c%s` of the large file, 0 when `stat` fails. -/
  actualSize : Option Nat
  /-- `$data` and `$(cat "$f" || true)`. -/
  data : Str
  readData : Str
  isRegular : Bool
  isReadable : Bool
  /-- Where `setfattr` exists: whether it and `getfattr` succeed. -/
  xattr : Option (Bool × Bool)

namespace Observed

variable (o : Observed)

def basicOperations : Str :=
  if o.testFile = some o.testContent then "PASS: Базовые операции с файлами".toList
  else "FAIL: Базовые операции с файлами".toList

def directoryOperations : Str :=
  if o.isDirectory then "PASS: Операции с директориями".toList
  else "FAIL: Операции с директориями".toList

def concurrentWrite : Str :=
  match o.lineCount with
  | some lineCount =>
      if 1 ≤ lineCount then
        "PASS: Параллельная запись (найдено ".toList ++ strOfNat lineCount ++ " строк)".toList
      else "FAIL: Параллельная запись".toList
  | none => "FAIL: Параллельная запись".toList

def sizeMb : Nat := 8

def largeFile : Str :=
  match o.actualSize with
  | some actualSize =>
      if actualSize = sizeMb * 1024 * 1024 then
        "PASS: Большие файлы (".toList ++ strOfNat sizeMb ++ "MB)".toList
      else "FAIL: Большие файлы".toList
  | none => "FAIL: Большие файлы".toList

def dataIntegrity : Str :=
  if o.readData = o.data then "PASS: Целостность данных".toList
  else "FAIL: Целостность данных".toList

def metadata : Str :=
  if o.isRegular && o.isReadable then "PASS: Метаданные".toList else "FAIL: Метаданные".toList

/-- `$ok` of the last test; setting an ACL, `fallocate` and the links do not count. -/
def xattrOk : Bool := o.xattr.all fun commands => commands.1 && commands.2

def xattrAclMmap : Str :=
  if o.xattrOk then "PASS: xattr/acl/mmap/fallocate".toList
  else "PARTIAL: xattr/acl/mmap/fallocate".toList

/-- The lines of the seven tests, in their order. -/
def customLines : List Str :=
  [o.basicOperations, o.directoryOperations, o.concurrentWrite, o.largeFile, o.dataIntegrity,
    o.metadata, o.xattrAclMmap]

/-- The first six tests succeed. -/
structure CorePassed : Prop where
  basic : o.testFile = some o.testContent
  directory : o.isDirectory = true
  concurrent : ∃ lineCount, o.lineCount = some lineCount ∧ 1 ≤ lineCount
  large : o.actualSize = some (8 * 1024 * 1024)
  integrity : o.readData = o.data
  metadata : o.isRegular = true ∧ o.isReadable = true

end Observed

/-! ## Markers -/

/-- The line is one line and begins with this marker. -/
structure Marked (marker line : Str) : Prop where
  oneLine : '\n' ∉ line
  begins : startswith line marker = true

instance (marker line : Str) : Decidable (Marked marker line) :=
  decidable_of_iff ('\n' ∉ line ∧ startswith line marker = true)
    ⟨fun both => ⟨both.1, both.2⟩, fun marked => ⟨marked.oneLine, marked.begins⟩⟩

/-- The line records whether the test succeeds. -/
def Records (line : Str) (succeeds : Prop) : Prop :=
  succeeds ∧ Marked "PASS: ".toList line ∨ ¬ succeeds ∧ Marked "FAIL: ".toList line

theorem records_ite {succeeds : Prop} [Decidable succeeds] {passed failed : Str}
    (pass : Marked "PASS: ".toList passed) (fail : Marked "FAIL: ".toList failed) :
    Records (if succeeds then passed else failed) succeeds := by
  by_cases here : succeeds
  · rw [if_pos here]
    exact Or.inl ⟨here, pass⟩
  · rw [if_neg here]
    exact Or.inr ⟨here, fail⟩

namespace Observed

variable (o : Observed)

theorem records_concurrentWrite :
    Records o.concurrentWrite (∃ lineCount, o.lineCount = some lineCount ∧ 1 ≤ lineCount) := by
  have fail : Marked "FAIL: ".toList "FAIL: Параллельная запись".toList := by decide
  simp only [concurrentWrite]
  cases o.lineCount with
  | none => exact Or.inr ⟨(fun found => by simp at found), fail⟩
  | some lineCount =>
      have pass : Marked "PASS: ".toList ("PASS: Параллельная запись (найдено ".toList ++
          strOfNat lineCount ++ " строк)".toList) := by
        refine ⟨?_, rfl⟩
        have digits := notMem_strOfNat (show '\n'.isDigit = false by decide) lineCount
        have texts : '\n' ∉ "PASS: Параллельная запись (найдено ".toList ∧
          '\n' ∉ " строк)".toList := by decide
        simp only [List.mem_append, not_or]
        exact ⟨⟨texts.1, digits⟩, texts.2⟩
      have found : (∃ n, some lineCount = some n ∧ 1 ≤ n) ↔ 1 ≤ lineCount := by
        constructor
        · rintro ⟨n, equal, positive⟩
          rw [Option.some.inj equal]
          exact positive
        · exact fun positive => ⟨lineCount, rfl, positive⟩
      simp only [Records]
      rw [found]
      exact records_ite pass fail

theorem records_largeFile : Records o.largeFile (o.actualSize = some (8 * 1024 * 1024)) := by
  have pass : Marked "PASS: ".toList ("PASS: Большие файлы (".toList ++ strOfNat sizeMb ++
    "MB)".toList) := by decide
  have fail : Marked "FAIL: ".toList "FAIL: Большие файлы".toList := by decide
  simp only [largeFile]
  cases o.actualSize with
  | none => exact Or.inr ⟨(fun found => by cases found), fail⟩
  | some actualSize =>
      rw [Option.some_inj]
      exact @records_ite (actualSize = sizeMb * 1024 * 1024) _ _ _ pass fail

/-- The tests whose lines are fixed texts. -/
theorem records_core :
    Records o.basicOperations (o.testFile = some o.testContent) ∧
    Records o.directoryOperations (o.isDirectory = true) ∧
    Records o.dataIntegrity (o.readData = o.data) ∧
    Records o.metadata (o.isRegular = true ∧ o.isReadable = true) := by
  have both : (o.isRegular && o.isReadable) = true ↔ o.isRegular = true ∧ o.isReadable = true :=
    Bool.and_eq_true_iff
  refine ⟨records_ite (by decide) (by decide), records_ite (by decide) (by decide),
    records_ite (by decide) (by decide), ?_⟩
  rw [← both]
  exact records_ite (by decide) (by decide)

theorem marked_xattrAclMmap :
    o.xattrOk = true ∧ Marked "PASS: ".toList o.xattrAclMmap ∨
      o.xattrOk = false ∧ Marked "PARTIAL: ".toList o.xattrAclMmap := by
  simp only [xattrAclMmap]
  cases o.xattrOk with
  | true => exact Or.inl ⟨rfl, by decide⟩
  | false => exact Or.inr ⟨rfl, by decide⟩

end Observed

end Ocfs2Coverage.RunTests
