import Ocfs2Coverage.CLexer
import Ocfs2Coverage.Overwriting
import Ocfs2Coverage.Report.RoundTrip

/-!
Contract: a tracefile as the records in it.

Owns: records and tracefiles as `parse_lcov` meets them, the table the reader leaves,
and the exact condition under which it is the table of a set of records.

Does not own: the trace that `write_lcov_info` writes.
-/

namespace Ocfs2Coverage.Report

open Ocfs2Coverage.Python
open Ocfs2Coverage.Hits
open Ocfs2Coverage.Trace
open Ocfs2Coverage.CLexer

section Records

variable [UnicodeData]

/-! ## Records -/

/-- A line `DA:<line>,<count>`; a checksum may follow. -/
structure CountLine where
  lineText : Str
  countText : Str
  more : Str
  line : Int
  count : Int
  lineReads : intOfStr lineText = some line
  countReads : intOfStr countText = some count
  noComma : ',' ∉ lineText
  noComma' : ',' ∉ countText
  ends : ∀ c ∈ more.head?, c = ','

def CountLine.text (c : CountLine) : Str :=
  "DA:".toList ++ (c.lineText ++ ',' :: (c.countText ++ c.more))

/-- A line that does not concern the reader, such as `TN:`, `FN:` or `LF:`. -/
def Passed (line : Str) : Prop :=
  ∀ tag ∈ ["SF:".toList, "DA:".toList, "end_of_record".toList], startswith line tag = false

inductive BodyLine where
  | count (c : CountLine)
  | other (text : Str) (passed : Passed text)

def BodyLine.text : BodyLine → Str
  | .count c => c.text
  | .other text _ => text

def BodyLine.count? : BodyLine → Option CountLine
  | .count c => some c
  | .other _ _ => none

/-- A record, with the lines before it. No line of the source is counted twice in it. -/
structure Record where
  heading : List Str
  path : Str
  body : List BodyLine
  headingPassed : ∀ line ∈ heading, Passed line
  named : path ≠ []
  once : ((body.filterMap BodyLine.count?).map CountLine.line).Nodup

namespace Record

def lines (r : Record) : List Str :=
  r.heading ++ ("SF:".toList ++ r.path) :: (r.body.map BodyLine.text ++ ["end_of_record".toList])

def counts (r : Record) : List CountLine := r.body.filterMap BodyLine.count?

/-- The path under which the reader keeps the record. -/
def key (r : Record) : Str := replaceChar '\\' '/' r.path

end Record

/-- A tracefile of at least 64 bytes. -/
structure Tracefile where
  records : List Record
  file : TextFile
  shape : splitlines file.text = records.flatMap Record.lines
  large : 64 ≤ file.size

/-- What `parse_lcov` makes of it. -/
def Tracefile.parsed (t : Tracefile) : Dict Str LineHits := parseLcov (some t.file)

/-! ## Tables -/

/-- The count of a line in the tables, by path and line. -/
def countAt (data : Dict Str LineHits) (k : Str × Int) : Option Int :=
  (data.get? k.1).bind fun table => table.get? k.2

/-- The tables are the same, up to the order in them. -/
def SameTables (data other : Dict Str LineHits) : Prop :=
  (∀ path, path ∈ data.keys ↔ path ∈ other.keys) ∧ ∀ k, countAt data k = countAt other k

/-- Every path has a count. -/
def Filled (data : Dict Str LineHits) : Prop :=
  ∀ path ∈ data.keys, ∃ line, (countAt data (path, line)).isSome = true

omit [UnicodeData] in
theorem mem_keys_of_countAt {data : Dict Str LineHits} {k : Str × Int}
    (counted : (countAt data k).isSome = true) : k.1 ∈ data.keys := by
  rw [← Dict.isSome_get?_iff]
  simp only [countAt] at counted
  cases found : data.get? k.1 with
  | none =>
      rw [found] at counted
      cases counted
  | some table => rfl

omit [UnicodeData] in
theorem sameTables_of_countAt {data other : Dict Str LineHits} (filled : Filled data)
    (filled' : Filled other) (same : ∀ k, countAt data k = countAt other k) :
    SameTables data other := by
  refine ⟨fun path => ⟨fun member => ?_, fun member => ?_⟩, same⟩
  · obtain ⟨line, counted⟩ := filled path member
    rw [same] at counted
    exact mem_keys_of_countAt counted
  · obtain ⟨line, counted⟩ := filled' path member
    rw [← same] at counted
    exact mem_keys_of_countAt counted

omit [UnicodeData] in
theorem get_get_eq (data : Dict Str LineHits) (path : Str) (line : Int) :
    (data.get path ∅).get line 0 = (countAt data (path, line)).getD 0 := by
  simp only [countAt, Dict.get]
  cases data.get? path with
  | none => rfl
  | some table => rfl

omit [UnicodeData] in
/-- One assignment `data[path][line] = count`. -/
theorem countAt_set (data : Dict Str LineHits) (path : Str) (line count : Int) (k : Str × Int) :
    countAt (data.set path ((data.get path ∅).set line count)) k =
      (if path = k.1 ∧ line = k.2 then some count else none).or (countAt data k) := by
  simp only [countAt]
  rw [Dict.get?_set]
  by_cases here : k.1 = path
  · rw [if_pos here, here, Option.bind_some, Dict.get?_set]
    by_cases there : k.2 = line
    · rw [if_pos there, if_pos ⟨rfl, there.symm⟩, Option.some_or]
    · rw [if_neg there, if_neg fun both => there both.2.symm, Option.none_or]
      simp only [Dict.get]
      cases data.get? path with
      | none => rfl
      | some table => rfl
  · rw [if_neg here, if_neg fun both => here both.1.symm, Option.none_or]

omit [UnicodeData] in
theorem filled_set {data : Dict Str LineHits} (filled : Filled data) (path : Str)
    (line count : Int) : Filled (data.set path ((data.get path ∅).set line count)) := by
  intro other member
  rcases Dict.mem_keys_set.1 member with rfl | old
  · refine ⟨line, ?_⟩
    rw [countAt_set, if_pos ⟨rfl, rfl⟩]
    rfl
  · obtain ⟨counted, present⟩ := filled other old
    refine ⟨counted, ?_⟩
    rw [countAt_set, Option.isSome_or, present, Bool.or_true]

/-! ## The reader over one record -/

theorem foldl_passed {lines : List Str} (passed : ∀ line ∈ lines, Passed line) (st : ParseState) :
    lines.foldl parseLine st = st := by
  induction lines with
  | nil => rfl
  | cons line rest inductionHypothesis =>
      have here := passed line List.mem_cons_self
      have step : parseLine st line = st := by
        simp only [parseLine]
        rw [here "SF:".toList (by simp), here "DA:".toList (by simp),
          here "end_of_record".toList (by simp)]
        rfl
      rw [List.foldl_cons, step]
      exact inductionHypothesis fun other member => passed other (List.mem_cons_of_mem line member)

theorem parseLine_count (data : Dict Str LineHits) {key : Str} (named : key ≠ []) (c : CountLine) :
    parseLine ⟨data, some key⟩ c.text =
      ⟨data.set key ((data.get key ∅).set c.line c.count), some key⟩ := by
  have fields := firstTwoFields_eq c.noComma c.noComma' c.ends
  have added : addCount data key (c.lineText ++ ',' :: (c.countText ++ c.more)) =
      data.set key ((data.get key ∅).set c.line c.count) := by
    simp only [addCount]
    rw [fields]
    simp only []
    rw [c.countReads, c.lineReads]
  have opened : (some key).any (fun path => !path.isEmpty) = true := by
    simpa using named
  have tagged : startswith c.text "SF:".toList = false ∧ startswith c.text "DA:".toList = true :=
    ⟨rfl, startswith_iff.2 ⟨_, rfl⟩⟩
  simp only [parseLine]
  rw [tagged.1, tagged.2]
  simp only [Bool.false_eq_true, if_false]
  rw [Bool.true_and, if_pos opened]
  show ParseState.mk (addCount data key _) (some key) = _
  rw [← added]
  rfl

/-- What one line of counts writes. -/
def CountLine.writes (c : CountLine) (line : Int) : Option Int :=
  if c.line = line then some c.count else none

/-- What a record writes. -/
def Record.writes (r : Record) (k : Str × Int) : Option Int :=
  if r.key = k.1 then Overwriting.final CountLine.writes r.counts k.2 else none

/-- The reader over the body of a record. -/
theorem foldl_body (data : Dict Str LineHits) {key : Str} (named : key ≠ []) (body : List BodyLine) :
    ∃ after : Dict Str LineHits,
      (body.map BodyLine.text).foldl parseLine ⟨data, some key⟩ = ⟨after, some key⟩ ∧
        (Filled data → Filled after) ∧
        ∀ k, countAt after k = (if key = k.1 then
          Overwriting.final CountLine.writes (body.filterMap BodyLine.count?) k.2 else none).or
            (countAt data k) := by
  induction body using List.reverseRecOn with
  | nil =>
      refine ⟨data, rfl, id, fun k => ?_⟩
      rw [List.filterMap_nil, Overwriting.final_nil, ite_self, Option.none_or]
  | append_singleton front last inductionHypothesis =>
      obtain ⟨after, run, filled, counts⟩ := inductionHypothesis
      rw [List.map_append, List.foldl_append, run, List.filterMap_append]
      cases last with
      | other text passed =>
          refine ⟨after, ?_, filled, ?_⟩
          · apply foldl_passed
            intro line member
            rw [List.mem_singleton.1 member]
            exact passed
          · rw [show [BodyLine.other text passed].filterMap BodyLine.count? = [] from rfl,
              List.append_nil]
            exact counts
      | count c =>
          refine ⟨_, parseLine_count after named c, ?_, ?_⟩
          · exact fun before => filled_set (filled before) key c.line c.count
          · intro k
            rw [countAt_set, counts]
            show _ = (if key = k.1 then Overwriting.final CountLine.writes
              (front.filterMap BodyLine.count? ++ [c]) k.2 else none).or _
            rw [Overwriting.final_concat, ← Option.or_assoc]
            by_cases here : key = k.1
            · simp only [CountLine.writes, here, true_and, if_true]
            · rw [if_neg here, if_neg here, if_neg fun both => here both.1]
              rfl

/-- The reader over one record. -/
theorem foldl_record (data : Dict Str LineHits) (r : Record) :
    ∃ after : Dict Str LineHits, r.lines.foldl parseLine ⟨data, none⟩ = ⟨after, none⟩ ∧
      (Filled data → Filled after) ∧ ∀ k, countAt after k = (r.writes k).or (countAt data k) := by
  have named : r.key ≠ [] := by
    have path := r.named
    simp only [Record.key, replaceChar]
    simpa using path
  obtain ⟨after, run, filled, counts⟩ := foldl_body data named r.body
  have opened : parseLine ⟨data, none⟩ ("SF:".toList ++ r.path) = ⟨data, some r.key⟩ := rfl
  have closed : parseLine ⟨after, some r.key⟩ "end_of_record".toList = ⟨after, none⟩ := rfl
  refine ⟨after, ?_, filled, counts⟩
  simp only [Record.lines]
  rw [List.foldl_append, foldl_passed r.headingPassed, List.foldl_cons, opened, List.foldl_append,
    run, List.foldl_cons, closed]
  rfl

/-- The reader over all records. -/
theorem foldl_records (records : List Record) :
    ∃ after : Dict Str LineHits,
      (records.flatMap Record.lines).foldl parseLine ⟨∅, none⟩ = ⟨after, none⟩ ∧
        Filled after ∧ ∀ k, countAt after k = Overwriting.final Record.writes records k := by
  induction records using List.reverseRecOn with
  | nil => exact ⟨∅, rfl, (fun _ member => by cases member), fun _ => rfl⟩
  | append_singleton front last inductionHypothesis =>
      obtain ⟨before, run, filled, counts⟩ := inductionHypothesis
      obtain ⟨after, run', filled', counts'⟩ := foldl_record before last
      refine ⟨after, ?_, filled' filled, fun k => ?_⟩
      · rw [List.flatMap_append, List.foldl_append, run]
        simpa using run'
      · rw [counts', counts, Overwriting.final_concat]

namespace Tracefile

theorem parsed_spec (t : Tracefile) :
    Filled t.parsed ∧ ∀ k, countAt t.parsed k = Overwriting.final Record.writes t.records k := by
  obtain ⟨after, run, filled, counts⟩ := foldl_records t.records
  have large := t.large
  have read : t.parsed = after := by
    simp only [parsed, parseLcov, parseLines]
    rw [if_neg (by omega), t.shape, run]
  rw [read]
  exact ⟨filled, counts⟩

/-! ## Records as a set -/

/-- Exactly the lines with a positive count in some record of their file are covered,
and the order of the records does not matter. -/
def ReadsAsSet (t : Tracefile) : Prop :=
  (∀ path line, 0 < (t.parsed.get path ∅).get line 0 ↔
    ∃ r ∈ t.records, r.key = path ∧ ∃ c ∈ r.counts, c.line = line ∧ 0 < c.count) ∧
  ∀ other : Tracefile, other.records.Perm t.records → SameTables other.parsed t.parsed

/-- Records of one file count the lines they share alike. -/
def Agreeing (t : Tracefile) : Prop :=
  ∀ r ∈ t.records, ∀ r' ∈ t.records, r.key = r'.key → ∀ c ∈ r.counts, ∀ c' ∈ r'.counts,
    c.line = c'.line → c.count = c'.count

end Tracefile

theorem Record.writes_eq_some {r : Record} {k : Str × Int} {v : Int} :
    r.writes k = some v ↔ r.key = k.1 ∧ ∃ c ∈ r.counts, c.line = k.2 ∧ c.count = v := by
  have written : ∀ {c : CountLine} {line v : Int}, c.writes line = some v ↔
      c.line = line ∧ c.count = v := by
    intro c line v
    simp only [CountLine.writes, Option.ite_none_right_eq_some, Option.some.injEq]
  have agree : Overwriting.Agree CountLine.writes r.counts := by
    intro c member c' member' line v v' writes writes'
    obtain ⟨rfl, rfl⟩ := written.1 writes
    obtain ⟨same, rfl⟩ := written.1 writes'
    rw [List.inj_on_of_nodup_map r.once member' member same]
  simp only [Record.writes]
  by_cases here : r.key = k.1
  · rw [if_pos here, and_iff_right here]
    constructor
    · intro stands
      obtain ⟨c, member, writes⟩ := Overwriting.exists_of_final stands
      exact ⟨c, member, written.1 writes⟩
    · rintro ⟨c, member, both⟩
      exact Overwriting.final_of_agree agree member (written.2 both)
  · rw [if_neg here]
    exact ⟨(fun none => by cases none), fun both => absurd both.1 here⟩

theorem Tracefile.agreeing_iff (t : Tracefile) :
    t.Agreeing ↔ Overwriting.Agree Record.writes t.records := by
  constructor
  · intro agreeing r member r' member' k v v' writes writes'
    obtain ⟨key, c, listed, line, rfl⟩ := Record.writes_eq_some.1 writes
    obtain ⟨key', c', listed', line', rfl⟩ := Record.writes_eq_some.1 writes'
    exact agreeing r member r' member' (key.trans key'.symm) c listed c' listed'
      (line.trans line'.symm)
  · intro agree r member r' member' key c listed c' listed' line
    exact agree r member r' member' (r.key, c.line) c.count c'.count
      (Record.writes_eq_some.2 ⟨rfl, c, listed, rfl, rfl⟩)
      (Record.writes_eq_some.2 ⟨key.symm, c', listed', line.symm, rfl⟩)

namespace Tracefile

/-- The records in any other order are a tracefile of the same size. -/
def reordered (t : Tracefile) (records : List Record) (perm : records.Perm t.records) :
    Tracefile where
  records := records
  file := ⟨unlines (records.flatMap Record.lines), t.file.size⟩
  shape := by
    apply splitlines_unlines
    intro line member
    have listed : line ∈ splitlines t.file.text := by
      rw [t.shape]
      exact (perm.flatMap_right Record.lines).mem_iff.1 member
    rw [← map_fst_physicalLines] at listed
    obtain ⟨broken, inside, rfl⟩ := List.mem_map.1 listed
    exact noBreak_physicalLines t.file.text broken inside
  large := t.large

/-- A tracefile is read as a set of records exactly when records of one file agree. -/
theorem readsAsSet_iff (t : Tracefile) : t.ReadsAsSet ↔ t.Agreeing := by
  have counts := t.parsed_spec.2
  rw [agreeing_iff, ← Overwriting.orderFree_iff]
  constructor
  · rintro ⟨-, same⟩ records perm k
    have equal := (same (t.reordered records perm) perm).2 k
    rw [counts, (t.reordered records perm).parsed_spec.2] at equal
    exact equal
  · intro free
    have agree := Overwriting.orderFree_iff.1 free
    refine ⟨fun path line => ?_, fun other perm => ?_⟩
    · rw [get_get_eq, counts]
      constructor
      · intro covered
        cases stands : Overwriting.final Record.writes t.records (path, line) with
        | none =>
            rw [stands] at covered
            cases covered
        | some count =>
            rw [stands] at covered
            obtain ⟨r, member, writes⟩ := Overwriting.exists_of_final stands
            obtain ⟨key, c, listed, same, rfl⟩ := Record.writes_eq_some.1 writes
            exact ⟨r, member, key, c, listed, same, covered⟩
      · rintro ⟨r, member, key, c, listed, same, positive⟩
        have writes : r.writes (path, line) = some c.count :=
          Record.writes_eq_some.2 ⟨key, c, listed, same, rfl⟩
        rw [Overwriting.final_of_agree agree member writes]
        exact positive
    · apply sameTables_of_countAt other.parsed_spec.1 t.parsed_spec.1
      intro k
      rw [counts, other.parsed_spec.2]
      exact free other.records perm k

end Tracefile

end Records

section Sample

attribute [local instance] asciiUnicode

def countLine (count : Nat) : CountLine where
  lineText := "10".toList
  countText := strOfNat count
  more := []
  line := 10
  count := count
  lineReads := by decide
  countReads := intOfStr_strOfInt (Int.ofNat count)
  noComma := by decide
  noComma' := notMem_strOfNat (by decide) count
  ends := fun _ member => by cases member

/-- A record for a file with one counted line. -/
def testRecord (count : Nat) : Record where
  heading := ["TN:".toList]
  path := "/fs/ocfs2/file.c".toList
  body := [.count (countLine count)]
  headingPassed := by
    intro line member
    rw [List.mem_singleton.1 member]
    simp only [Passed]
    decide
  named := by decide
  once := List.nodup_singleton 10

/-- Two tests, of which only the first reached the line. -/
def testTrace : Tracefile where
  records := [testRecord 5, testRecord 0]
  file := .write (unlines ([testRecord 5, testRecord 0].flatMap Record.lines))
  shape := by decide
  large := by decide

/-- The line is covered by the first record, and the reader reports it uncovered. -/
theorem testTrace_lost :
    ¬ testTrace.ReadsAsSet ∧ testTrace.parsed.get? "/fs/ocfs2/file.c".toList = some ⟨[(10, 0)], by simp⟩ := by
  have read : testTrace.parsed.get? "/fs/ocfs2/file.c".toList = some ⟨[(10, 0)], by simp⟩ := by
    decide +kernel
  refine ⟨fun reads => ?_, read⟩
  have covered := (reads.1 "/fs/ocfs2/file.c".toList 10).2 ⟨testRecord 5, by simp [testTrace],
    by decide, countLine 5, List.mem_singleton_self _, rfl, by decide⟩
  simp only [Dict.get] at covered
  rw [read] at covered
  exact absurd covered (by decide)

end Sample

end Ocfs2Coverage.Report
