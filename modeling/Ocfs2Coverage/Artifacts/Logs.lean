import Ocfs2Coverage.Profiles.Tables
import Ocfs2Coverage.Python.Runtime

/-!
Contract: the test logs the report generator makes up for a node.

Owns: `PROFILE_TESTS`, `_xfstests_log` and `_node_console_log`.

Does not own: where the logs are written.
-/

namespace Ocfs2Coverage.Artifacts

open Ocfs2Coverage.Python
open Ocfs2Coverage.Profiles

/-! ## `PROFILE_TESTS` -/

def defaultTests : List Str :=
  ["generic/001", "generic/002", "generic/005", "generic/006", "generic/007", "generic/010",
    "generic/011", "generic/013", "generic/014", "generic/015", "generic/020", "generic/069",
    "generic/080", "generic/084", "generic/112", "generic/124", "generic/125", "generic/241",
    "generic/258", "generic/269", "generic/270", "generic/286"].map String.toList

def featuresTests : List Str :=
  ["generic/001", "generic/002", "generic/007", "generic/013", "generic/020", "generic/062",
    "generic/069", "generic/079", "generic/097", "generic/105", "generic/126", "generic/192",
    "generic/209", "generic/215", "generic/228", "generic/241", "generic/307", "generic/377",
    "generic/478"].map String.toList

def clusterTests : List Str :=
  ["generic/001", "generic/013", "generic/014", "generic/027", "generic/074", "generic/080",
    "generic/113", "generic/125", "generic/231", "generic/241", "generic/273", "generic/286",
    "generic/317", "generic/340"].map String.toList

/-- The tests of the three profiles, each at its first place. -/
def mergedTests : List Str :=
  (defaultTests ++ featuresTests ++ clusterTests).foldl
    (fun merged t => if merged.contains t then merged else merged ++ [t]) []

def profileTests : Profile → List Str
  | .default => defaultTests
  | .features => featuresTests
  | .cluster => clusterTests
  | .merged => mergedTests

/-! ## `_xfstests_log` -/

/-- `skip`: the tests that are not run, with the reason. -/
def skippedTests (profile : Profile) : List (Str × Str) :=
  let tests := profileTests profile
  (if tests.contains "generic/005".toList then
    [("generic/005".toList, "FIFREEZE/FITHAW not supported".toList)] else []) ++
  (if [.default, .merged].contains profile && tests.contains "generic/258".toList then
    [("generic/258".toList, "ocfs2 doesn't support shutdown".toList)] else []) ++
  (if [.cluster, .merged].contains profile && tests.contains "generic/340".toList then
    [("generic/340".toList, "copy_file_range not supported".toList)] else [])

def mkfsCommand : Str := "-F -T datafiles --cluster-stack=o2cb --cluster-name=ocfs2cluster".toList

/-- The features `mkfs` is given; the same texts stand in both functions. -/
def mkfsFeatures : Profile → Str
  | .default => []
  | .cluster => "backup-super,sparse,unwritten,indexed-dirs".toList
  | .features | .merged =>
      "backup-super,sparse,unwritten,inline-data,indexed-dirs,xattr,acl,refcount".toList

def mkfsOptions (profile : Profile) : Str :=
  if (mkfsFeatures profile).isEmpty then mkfsCommand
  else mkfsCommand ++ " --fs-features=".toList ++ mkfsFeatures profile

def mountOptions (profile : Profile) : Str :=
  if profile ∈ [.features, .merged] then "user_xattr,acl".toList else []

section Logs

variable [Runtime]

/-- The seconds a test is said to have taken. -/
def testSeconds (profile : Profile) (node : Nat) (t : Str) : Nat :=
  1 + leadingBytes 1 (Runtime.sha256 (profile.name ++ ":".toList ++ strOfNat node ++ ":".toList ++
    t ++ ":time".toList)) % 22

def xfstestsLine (profile : Profile) (node : Nat) (t : Str) : Str :=
  match (skippedTests profile).lookup t with
  | some reason => t ++ "\t[not run] ".toList ++ reason
  | none => t ++ "\t".toList ++ strOfNat (testSeconds profile node t) ++ "s".toList

def xfstestsLog (profile : Profile) (node : Nat) : Str :=
  let tests := profileTests profile
  let skip := (skippedTests profile).map Prod.fst
  let ran := tests.filter fun t => !skip.contains t
  join "\n".toList
    (["FSTYP         -- ocfs2".toList,
      "PLATFORM      -- Linux/x86_64 ocfs2-node-".toList ++ strOfNat node ++
        " 6.8.0-90-generic #90-Ubuntu SMP PREEMPT_DYNAMIC x86_64 x86_64".toList,
      "MKFS_OPTIONS  -- ".toList ++ mkfsOptions profile,
      "MOUNT_OPTIONS -- ".toList ++ mountOptions profile,
      []] ++
    tests.map (xfstestsLine profile node) ++
    [[],
      "Ran: ".toList ++ join " ".toList ran,
      if skip.isEmpty then "Not run:".toList else "Not run: ".toList ++ join " ".toList skip,
      "Passed all ".toList ++ strOfNat ran.length ++ " tests".toList,
      []]) ++ "\n".toList

/-! ## `_node_console_log` -/

/-- How a run is called: the three profiles of a merged one. -/
def profileLabel : Profile → Str
  | .merged => "default+features+cluster".toList
  | profile => profile.name

/-- The results of the seven tests and of xfstests, all passed. -/
def passedResults (profile : Profile) (nodes : Nat) : List Str :=
  ["PASS: Базовые операции с файлами".toList,
    "PASS: Операции с директориями".toList,
    "PASS: Параллельная запись (найдено ".toList ++ strOfNat nodes ++ " строк)".toList,
    "PASS: Большие файлы (8MB)".toList,
    "PASS: Целостность данных".toList,
    "PASS: Метаданные".toList,
    "PASS: xattr/acl/mmap/fallocate".toList,
    "PASS: xfstests (".toList ++ profileLabel profile ++ ")".toList]

def nodeConsoleLog (profile : Profile) (node nodes : Nat) (xfLog : Str) : Str :=
  let loaded :=
    match profile with
    | .merged => "[TEST] Загружены профили xfstests: default, features, cluster".toList
    | _ => "[TEST] Загружен профиль xfstests: /opt/xfstests_configs/".toList ++ profile.name ++
        ".env (profile=".toList ++ profile.name ++ ")".toList
  let results := "/tmp/test_results_ocfs2-node-".toList ++ strOfNat node
  join "\n".toList
    (["[TEST] Запуск тестов файловой системы OCFS2".toList,
      "[TEST] Точка монтирования: /mnt/ocfs2".toList,
      "[TEST] Количество узлов: ".toList ++ strOfNat nodes,
      loaded,
      "[TEST] Тест 1: Базовые операции с файлами...".toList,
      "[TEST] ✓ PASS".toList,
      "[TEST] Тест 2: Операции с директориями...".toList,
      "[TEST] ✓ PASS".toList,
      "[TEST] Тест 3: Параллельная запись...".toList,
      "[TEST] ✓ PASS".toList,
      "[TEST] Тест 4: Работа с большими файлами...".toList,
      "[TEST] ✓ PASS".toList,
      "[TEST] Тест 5: Целостность данных...".toList,
      "[TEST] ✓ PASS".toList,
      "[TEST] Тест 6: Метаданные...".toList,
      "[TEST] ✓ PASS".toList,
      "[TEST] Тест 7: xattr / ACL / mmap / fallocate (профиль ".toList ++ profileLabel profile ++
        ")...".toList,
      "[TEST] ✓ PASS".toList,
      "[TEST] Проверка наличия xfstests...".toList,
      "[TEST] Найден xfstests: /opt/xfstests/check".toList,
      "[TEST] Профиль: ".toList ++ profileLabel profile,
      "[TEST] Результаты будут сохранены в: ".toList ++ results,
      "[TEST] TEST_DEV=/dev/drbd0  TEST_DIR=/mnt/ocfs2  SCRATCH_DEV=/dev/loop0".toList,
      "[TEST] Запуск xfstests (профиль ".toList ++ profileLabel profile ++ "): ".toList ++
        join " ".toList (profileTests profile),
      "[TEST] ✓ xfstests завершены успешно".toList,
      "[TEST] Результаты xfstests сохранены в ".toList ++ results,
      "[TEST] Результаты тестов:".toList,
      "==========================================".toList] ++
    passedResults profile nodes ++
    ["==========================================".toList,
      "[TEST] Итого: 7 успешных, 0 неудачных из 7 тестов".toList,
      "[TEST] Сохранение результатов тестов в ".toList ++ results ++ "...".toList,
      "[TEST] Все тесты пройдены успешно!".toList,
      [],
      xfLog.rdropWhile isSpace,
      []])

end Logs

end Ocfs2Coverage.Artifacts
