import Ocfs2Coverage.Report.Load

/-!
Contract: the persisted forms of a report agree.

Owns: the trace read back by `parse_lcov`, `line_hits.json` read back by
`load_line_hits`, and the totals of `score_files`, of the summary, of the stored
hits and of the trace.

Does not own: which hits a report publishes.
-/

namespace Ocfs2Coverage.Report

open Ocfs2Coverage.Python
open Ocfs2Coverage.Hits
open Ocfs2Coverage.Trace

/-! ## Lines of text -/

def NoBreak (line : Str) : Prop := ∀ c ∈ line, isLineBreak c = false

theorem noBreak_append {left right : Str} (first : NoBreak left) (second : NoBreak right) :
    NoBreak (left ++ right) := by
  intro c member
  rcases List.mem_append.1 member with inLeft | inRight
  · exact first c inLeft
  · exact second c inRight

theorem noBreak_strOfNat (n : Nat) : NoBreak (strOfNat n) := by
  intro c member
  have digit := isDigit_of_mem_strOfNat member
  have noDigit : ∀ d ∈ lineBreakChars, d.isDigit = false := by decide
  by_contra found
  have listed : c ∈ lineBreakChars := by simpa [isLineBreak] using found
  rw [noDigit c listed] at digit
  cases digit

theorem noBreak_strOfInt (n : Int) : NoBreak (strOfInt n) := by
  cases n with
  | ofNat m => exact noBreak_strOfNat m
  | negSucc m =>
      have sign : NoBreak ['-'] := by unfold NoBreak; decide
      exact noBreak_append sign (noBreak_strOfNat (m + 1))

theorem splitlines_unlines {lines : List Str} (plain : ∀ line ∈ lines, NoBreak line) :
    splitlines (unlines lines) = lines := by
  induction lines with
  | nil => rfl
  | cons line rest inductionHypothesis =>
      have shape : unlines (line :: rest) = line ++ '\n' :: unlines rest := by
        simp [unlines]
      rw [shape, splitlines_line line _ (plain line (by simp)),
        inductionHypothesis fun other member => plain other (by simp [member])]

/-! ## Paths -/

theorem mem_join_root {root : LcovFsRoot} {rel : Str} (normalised : Normalised rel) {c : Char}
    (member : c ∈ root.join rel) : c ≠ '\\' ∧ isLineBreak c = false := by
  obtain ⟨path, rfl⟩ := normalised
  rcases List.mem_append.1 member with inRoot | inRest
  · exact root.plain c inRoot
  · rcases List.mem_cons.1 inRest with rfl | inPath
    · decide
    · exact mem_text inPath

theorem join_injective (root : LcovFsRoot) : Function.Injective root.join := by
  intro left right equal
  have tails := List.append_cancel_left equal
  exact (List.cons.inj tails).2

/-! ## Reading one record -/

section Reading

variable [UnicodeData]

omit [UnicodeData] in
theorem comma_notMem_strOfInt (n : Int) : ',' ∉ strOfInt n := by
  cases n with
  | ofNat m => exact notMem_strOfNat (by decide) m
  | negSucc m =>
      show ',' ∉ '-' :: strOfNat (m + 1)
      rw [List.mem_cons, not_or]
      exact ⟨by decide, notMem_strOfNat (by decide) (m + 1)⟩

theorem parseLine_daLine (data : Dict Str LineHits) {key : Str} (nonempty : key ≠ [])
    (f : CoverageFile) (ln : Nat) :
    parseLine ⟨data, some key⟩ (daLine f ln) =
      ⟨data.set key ((data.get key ∅).set ln (hitsAt f.hits ln)), some key⟩ := by
  have shape : daLine f ln =
      'D' :: 'A' :: ':' :: (strOfNat ln ++ ',' :: strOfInt (hitsAt f.hits ln)) := by
    simp [daLine]
  have fields := @firstTwoFields_eq _ _ [] (notMem_strOfNat (show ','.isDigit = false by decide) ln)
    (comma_notMem_strOfInt (hitsAt f.hits ln)) (by simp)
  rw [List.append_nil] at fields
  have line : intOfStr (strOfNat ln) = some (ln : Int) := intOfStr_strOfInt (Int.ofNat ln)
  unfold parseLine
  rw [shape]
  simp [startswith, nonempty, addCount, fields, line, intOfStr_strOfInt]

/-- The lines `DA:` of a record. -/
theorem foldl_daLines (data : Dict Str LineHits) {key : Str} (nonempty : key ≠ [])
    (f : CoverageFile) (lines : List Nat) :
    (lines.map (daLine f)).foldl parseLine ⟨data, some key⟩ =
      ⟨if lines = [] then data else
        data.set key (lines.foldl (fun table (ln : Nat) => table.set ln (hitsAt f.hits ln))
          (data.get key ∅)), some key⟩ := by
  induction lines generalizing data with
  | nil => rfl
  | cons ln rest inductionHypothesis =>
      rw [List.map_cons, List.foldl_cons, parseLine_daLine data nonempty, inductionHypothesis,
        if_neg (List.cons_ne_nil ln rest), List.foldl_cons]
      by_cases last : rest = []
      · rw [if_pos last, last]
        rfl
      · rw [if_neg last, Dict.set_set]
        simp [Dict.get]

/-- The table `parse_lcov` reads from the record of a file. -/
def tableOf (f : CoverageFile) : LineHits := hitsOf f.source.lines (hitsAt f.hits)

theorem foldl_recordLines (root : LcovFsRoot) (f : CoverageFile)
    (normalised : Normalised f.source.rel) (data : Dict Str LineHits)
    (fresh : root.join f.source.rel ∉ data.keys) :
    (recordLines root f).foldl parseLine ⟨data, none⟩ =
      ⟨if f.source.lines = [] then data else data.set (root.join f.source.rel) (tableOf f),
        none⟩ := by
  have nonempty : root.join f.source.rel ≠ [] := by
    unfold LcovFsRoot.join
    simp
  have path : replaceChar '\\' '/' (root.join f.source.rel) = root.join f.source.rel :=
    replaceChar_of_notMem fun member => (mem_join_root normalised member).1 rfl
  have opened : parseLine ⟨data, none⟩ ("SF:".toList ++ root.join f.source.rel) =
      ⟨data, some (root.join f.source.rel)⟩ := by
    simp [parseLine, startswith, path]
  have closed : ∀ (after : Dict Str LineHits) (n m : Nat),
      ["LF:".toList ++ strOfNat n, "LH:".toList ++ strOfNat m, "end_of_record".toList].foldl
        parseLine ⟨after, some (root.join f.source.rel)⟩ = ⟨after, none⟩ := by
    intro after n m
    simp [parseLine, startswith]
  have empty : data.get (root.join f.source.rel) ∅ = ∅ := by
    unfold Dict.get
    rw [Dict.get?_eq_none_iff.2 fresh]
    rfl
  have table : (f.source.lines.foldl
      (fun table (ln : Nat) => table.set ln (hitsAt f.hits ln)) ∅) = tableOf f := by
    unfold tableOf hitsOf Dict.ofItems
    rw [List.foldl_map]
  unfold recordLines
  rw [f.source.sortedLines_eq, List.cons_append, List.foldl_cons, opened, List.foldl_append,
    foldl_daLines data nonempty, closed, empty, table]

/-- The items of the trace of several files. -/
def recordItems (root : LcovFsRoot) (files : List CoverageFile) : List (Str × LineHits) :=
  (files.filter fun f => !f.source.lines.isEmpty).map fun f => (root.join f.source.rel, tableOf f)

theorem items_foldl_records (root : LcovFsRoot) (files : List CoverageFile)
    (normalised : ∀ f ∈ files, Normalised f.source.rel) (data : Dict Str LineHits)
    (distinct : (data.keys ++ files.map fun f => root.join f.source.rel).Nodup) :
    ∃ after : Dict Str LineHits,
      (files.flatMap (recordLines root)).foldl parseLine ⟨data, none⟩ = ⟨after, none⟩ ∧
        after.items = data.items ++ recordItems root files := by
  induction files generalizing data with
  | nil => exact ⟨data, rfl, by simp [recordItems]⟩
  | cons f rest inductionHypothesis =>
      rw [List.map_cons, List.nodup_append, List.nodup_cons] at distinct
      have fresh : root.join f.source.rel ∉ data.keys :=
        fun member => distinct.2.2 _ member _ (by simp) rfl
      have others := fun g member => normalised g (List.mem_cons_of_mem f member)
      rw [List.flatMap_cons, List.foldl_append,
        foldl_recordLines root f (normalised f (by simp)) data fresh]
      by_cases empty : f.source.lines = []
      · rw [if_pos empty]
        obtain ⟨after, run, items⟩ := inductionHypothesis others data (by
          rw [List.nodup_append]
          exact ⟨distinct.1, distinct.2.1.2,
            fun a member b later => distinct.2.2 a member b (by simp [later])⟩)
        refine ⟨after, run, ?_⟩
        rw [items]
        simp [recordItems, empty]
      · rw [if_neg empty]
        have items := Dict.items_set_of_notMem (tableOf f) fresh
        obtain ⟨after, run, later⟩ := inductionHypothesis others
          (data.set (root.join f.source.rel) (tableOf f)) (by
            rw [Dict.keys_set, if_neg fresh, List.append_assoc]
            rw [List.nodup_append]
            refine ⟨distinct.1, ?_, fun a member b later => distinct.2.2 a member b later⟩
            exact List.nodup_cons.2 distinct.2.1)
        refine ⟨after, run, ?_⟩
        rw [later, items]
        simp [recordItems, empty]

omit [UnicodeData] in
theorem noBreak_ascii {s : Str} (plain : s.all fun c => !isLineBreak c) : NoBreak s := by
  intro c member
  simpa using List.all_eq_true.1 plain c member

theorem noBreak_recordLines (root : LcovFsRoot) {f : CoverageFile}
    (normalised : Normalised f.source.rel) : ∀ line ∈ recordLines root f, NoBreak line := by
  intro line member
  unfold recordLines at member
  rcases List.mem_append.1 member with opening | closing
  · rcases List.mem_cons.1 opening with rfl | counts
    · apply noBreak_append (noBreak_ascii (by decide))
      exact fun c inside => (mem_join_root normalised inside).2
    · obtain ⟨ln, -, rfl⟩ := List.mem_map.1 counts
      unfold daLine
      apply noBreak_append _ (noBreak_strOfInt _)
      apply noBreak_append _ (noBreak_ascii (by decide))
      exact noBreak_append (noBreak_ascii (by decide)) (noBreak_strOfNat ln)
  · simp only [List.mem_cons, List.not_mem_nil, or_false] at closing
    rcases closing with rfl | rfl | rfl
    · exact noBreak_append (noBreak_ascii (by decide)) (noBreak_strOfNat _)
    · exact noBreak_append (noBreak_ascii (by decide)) (noBreak_strOfNat _)
    · exact noBreak_ascii (by decide)

theorem noBreak_lcovLines (root : LcovFsRoot) {files : List CoverageFile}
    (normalised : ∀ f ∈ files, Normalised f.source.rel) :
    ∀ line ∈ lcovLines root files, NoBreak line := by
  intro line member
  rcases List.mem_cons.1 member with rfl | inRecords
  · exact noBreak_ascii (by decide)
  · obtain ⟨f, listed, inside⟩ := List.mem_flatMap.1 inRecords
    exact noBreak_recordLines root (normalised f listed) line inside

/-- The trace of a report is read back record by record, in the order of the files. -/
theorem items_parseLcov_writeLcovInfo (root : LcovFsRoot) (files : List CoverageFile)
    (distinct : (files.map fun f => f.source.rel).Nodup)
    (normalised : ∀ f ∈ files, Normalised f.source.rel)
    (large : 64 ≤ (writeLcovInfo root files).size) :
    (parseLcov (some (writeLcovInfo root files))).items = recordItems root files := by
  have keys : (files.map fun f => root.join f.source.rel).Nodup := by
    have mapped := distinct.map (join_injective root)
    rw [List.map_map] at mapped
    exact mapped
  obtain ⟨after, run, items⟩ := items_foldl_records root files normalised ∅ keys
  have first : parseLine ⟨∅, none⟩ "TN:".toList = ⟨∅, none⟩ := by
    simp [parseLine, startswith]
  have whole : parseLcov (some (writeLcovInfo root files)) = after := by
    show (if (writeLcovInfo root files).size < 64 then ∅
      else parseLines (splitlines (unlines (lcovLines root files)))) = after
    rw [if_neg (by omega), splitlines_unlines (noBreak_lcovLines root normalised)]
    unfold parseLines lcovLines
    rw [List.foldl_cons, first, run]
  rw [whole, items]
  rfl

omit [UnicodeData] in
theorem length_le_utf8Size (text : Str) : text.length ≤ utf8Size text := by
  unfold utf8Size
  induction text with
  | nil => exact Nat.le_refl 0
  | cons c rest inductionHypothesis =>
      have positive := Char.utf8Size_pos c
      rw [List.map_cons, List.sum_cons, List.length_cons]
      omega

theorem length_unlines_records (root : LcovFsRoot) (files : List CoverageFile) :
    26 * files.length ≤ (unlines (files.flatMap (recordLines root))).length := by
  induction files with
  | nil => exact Nat.zero_le _
  | cons f rest inductionHypothesis =>
      have split : unlines ((f :: rest).flatMap (recordLines root)) =
          unlines (recordLines root f) ++ unlines (rest.flatMap (recordLines root)) := by
        rw [List.flatMap_cons]
        exact List.flatMap_append
      have record : 26 ≤ (unlines (recordLines root f)).length := by
        simp [recordLines, unlines]
        omega
      rw [split, List.length_append, List.length_cons]
      omega

/-- The trace of three files is not taken for an empty one. -/
theorem large_writeLcovInfo (root : LcovFsRoot) {files : List CoverageFile}
    (many : 3 ≤ files.length) : 64 ≤ (writeLcovInfo root files).size := by
  have records := length_unlines_records root files
  have whole : (unlines (files.flatMap (recordLines root))).length ≤
      (unlines (lcovLines root files)).length := by
    have shape : unlines (lcovLines root files) =
        "TN:\n".toList ++ unlines (files.flatMap (recordLines root)) := by
      simp [lcovLines, unlines]
    rw [shape, List.length_append]
    omega
  calc 64 ≤ (unlines (lcovLines root files)).length := by omega
    _ ≤ (writeLcovInfo root files).size := length_le_utf8Size _

end Reading

/-! ## Reading `line_hits.json` -/

section Stored

variable [Runtime]

theorem items_snapshotHits {files : List CoverageFile}
    (distinct : (files.map fun f => f.source.rel).Nodup) :
    (snapshotHits files).items = files.map fun f => (f.source.rel, f.hits) := by
  apply Dict.items_ofItems
  rw [List.map_map]
  exact distinct

theorem lineTables_ofHits (items : List (Str × LineHits)) :
    lineTables (items.map fun item => (item.1, Json.ofHits item.2)) = some items := by
  induction items with
  | nil => rfl
  | cons item rest inductionHypothesis =>
      obtain ⟨fields, decoded, table⟩ := Json.toHits_ofHits item.2
      rw [List.map_cons, lineTables]
      simp only [decoded, table, inductionHypothesis]

/-- The stored hits of any files are read back as they are. -/
theorem readLineHits_hitsBlob (files : List CoverageFile) :
    readLineHits (hitsBlob files) = some (snapshotHits files) := by
  have distinct : (((snapshotHits files).items.map fun item =>
      (item.1, Json.ofHits item.2)).map Prod.fst).Nodup := by
    rw [List.map_map]
    exact (snapshotHits files).nodup
  have opened : Json.asDict (hitsBlob files) = some (Dict.ofItems [("files".toList,
      .obj ((snapshotHits files).items.map fun item => (item.1, Json.ofHits item.2)))]) := rfl
  have entry : ∀ doc value : Json.Doc,
      (Dict.ofItems [("files".toList, value)]).get "files".toList doc = value := by
    intro doc value
    rfl
  unfold readLineHits
  rw [opened]
  simp only [Option.bind_eq_bind, Option.bind_some, entry]
  show (lineTables (Dict.ofItems _).items).map Dict.ofItems = _
  rw [Dict.items_ofItems distinct, lineTables_ofHits, Option.map_some, Option.some.injEq]
  apply Dict.ext
  exact Dict.items_ofItems (snapshotHits files).nodup

theorem isEmpty_snapshotHits {files : List CoverageFile} (nonempty : files ≠ [])
    (distinct : (files.map fun f => f.source.rel).Nodup) :
    (snapshotHits files).isEmpty = false := by
  unfold Dict.isEmpty
  rw [items_snapshotHits distinct]
  simpa using nonempty

/-- `load_line_hits` finds this `line_hits.json` first. -/
def Holds (dir : ReportDir) (blob : Json.Doc) : Prop :=
  dir.lineHits = some blob ∨ dir.lineHits = none ∧ dir.kernelLineHits = some blob

/-- A report stored with `--report-root`, or where no older one lies at the top. -/
theorem holds_store (e : Emitted) {reportRoot : Bool} {dir : ReportDir}
    (found : reportRoot = true ∨ dir.lineHits = none) : Holds (e.store reportRoot dir) e.hitsBlob := by
  unfold Holds Emitted.store
  cases reportRoot with
  | true => exact Or.inl rfl
  | false => exact Or.inr ⟨found.resolve_left Bool.false_ne_true, rfl⟩

theorem loadLineHits_of_holds {dir : ReportDir} {files : List CoverageFile}
    (holds : Holds dir (hitsBlob files)) (nonempty : files ≠ [])
    (distinct : (files.map fun f => f.source.rel).Nodup) :
    loadLineHits dir = some (snapshotHits files) := by
  have filled := isEmpty_snapshotHits nonempty distinct
  have first : firstLineHits [dir.lineHits, dir.kernelLineHits] = some (snapshotHits files) := by
    rcases holds with top | ⟨missing, kernel⟩
    · rw [top, firstLineHits, readLineHits_hitsBlob]
      simp [filled]
    · rw [missing, kernel, firstLineHits, firstLineHits, readLineHits_hitsBlob]
      simp [filled]
  unfold loadLineHits
  rw [first, Option.map_some, if_neg (by simp [filled])]

/-! ## Totals -/

omit [Runtime] in
theorem values_eq (hits : LineHits) : hits.values = hits.keys.map fun k => hits.get k 0 := by
  unfold Dict.values Dict.keys
  rw [List.map_map]
  apply List.map_congr_left
  intro item member
  have stored : hits.get? item.1 = some item.2 := Dict.get?_eq_some_iff.2 member
  simp [Dict.get, stored]

/-- The keys of hits defined on the executable lines, up to their order. -/
theorem keys_perm {f : SourceFile} {hits : LineHits} (defined : Defined f hits) :
    hits.keys.Perm (f.lines.map Nat.cast) := by
  apply (List.perm_ext_iff_of_nodup hits.nodup_keys (f.nodup_lines.map Nat.cast_injective)).2
  intro k
  rw [defined k, List.mem_map]

theorem countP_values {f : CoverageFile} (defined : Defined f.source f.hits) :
    f.hits.values.countP (fun v => decide (0 < v)) = fileHit f ∧
      f.hits.values.length = fileTotal f := by
  have keys := keys_perm defined
  rw [values_eq]
  constructor
  · rw [List.countP_map, keys.countP_eq, List.countP_map]
    rfl
  · rw [List.length_map, keys.length_eq, List.length_map]
    rfl

theorem countHits_snapshotHits {files : List CoverageFile}
    (distinct : (files.map fun f => f.source.rel).Nodup)
    (defined : ∀ f ∈ files, Defined f.source f.hits) :
    countHits (snapshotHits files) = (scoreHit files, scoreTotal files) := by
  have values : (snapshotHits files).values = files.map fun f => f.hits := by
    unfold Dict.values
    rw [items_snapshotHits distinct, List.map_map]
    rfl
  unfold countHits
  rw [values, List.map_map, List.map_map]
  apply Prod.ext
  · exact congrArg List.sum (List.map_congr_left fun f member => (countP_values (defined f member)).1)
  · exact congrArg List.sum (List.map_congr_left fun f member => (countP_values (defined f member)).2)

/-- The number after `tag` in a line of a tracefile. -/
def fieldOf (tag line : Str) : Int :=
  if startswith line tag then (intOfStr (line.drop tag.length)).getD 0 else 0

/-- The numbers after `tag` in a tracefile, added up. -/
def sumField (tag : Str) (info : TextFile) : Int :=
  ((splitlines info.text).map (fieldOf tag)).sum

theorem fieldOf_tagged (tag : Str) (n : Nat) : fieldOf tag (tag ++ strOfNat n) = n := by
  have number : intOfStr (strOfNat n) = some (n : Int) := intOfStr_strOfInt (Int.ofNat n)
  have here : startswith (tag ++ strOfNat n) tag = true :=
    startswith_iff.2 (List.prefix_append tag _)
  unfold fieldOf
  rw [if_pos here, List.drop_left, number]
  rfl

/-- The counts of a record carry neither total. -/
theorem sum_fieldOf_daLines {tag : Str} (letter : tag.head? = some 'L') (f : CoverageFile)
    (lines : List Nat) : ((lines.map (daLine f)).map (fieldOf tag)).sum = 0 := by
  apply List.sum_eq_zero
  intro value member
  rw [List.map_map] at member
  obtain ⟨ln, -, rfl⟩ := List.mem_map.1 member
  cases tag with
  | nil => cases letter
  | cons c rest =>
      rw [List.head?_cons, Option.some.injEq] at letter
      simp [fieldOf, daLine, startswith, letter]

theorem sum_recordLines (root : LcovFsRoot) (f : CoverageFile) :
    ((recordLines root f).map (fieldOf "LH:".toList)).sum = fileHit f ∧
      ((recordLines root f).map (fieldOf "LF:".toList)).sum = fileTotal f := by
  have hit := sum_fieldOf_daLines (show "LH:".toList.head? = some 'L' by decide) f f.source.lines
  have total := sum_fieldOf_daLines (show "LF:".toList.head? = some 'L' by decide) f f.source.lines
  have other : ∀ n : Nat, fieldOf "LH:".toList ("LF:".toList ++ strOfNat n) = 0 ∧
      fieldOf "LF:".toList ("LH:".toList ++ strOfNat n) = 0 := by
    intro n
    simp [fieldOf, startswith]
  have ends : fieldOf "LH:".toList "end_of_record".toList = 0 ∧
      fieldOf "LF:".toList "end_of_record".toList = 0 := by simp [fieldOf, startswith]
  have opens : fieldOf "LH:".toList ("SF:".toList ++ root.join f.source.rel) = 0 ∧
      fieldOf "LF:".toList ("SF:".toList ++ root.join f.source.rel) = 0 := by
    simp [fieldOf, startswith]
  unfold recordLines
  rw [f.source.sortedLines_eq]
  simp only [List.map_append, List.map_cons, List.map_nil, List.cons_append, List.sum_cons,
    List.sum_append, List.sum_nil, opens.1, opens.2, hit, total, fieldOf_tagged, (other _).1,
    (other _).2, ends.1, ends.2]
  constructor
  · simp only [Int.zero_add, Int.add_zero]
    rfl
  · simp only [Int.zero_add, Int.add_zero]
    rfl

theorem sumField_writeLcovInfo (root : LcovFsRoot) {files : List CoverageFile}
    (normalised : ∀ f ∈ files, Normalised f.source.rel) :
    sumField "LH:".toList (writeLcovInfo root files) = scoreHit files ∧
      sumField "LF:".toList (writeLcovInfo root files) = scoreTotal files := by
  have total : ∀ (tag : Str) (score : CoverageFile → Nat),
      (∀ f, ((recordLines root f).map (fieldOf tag)).sum = score f) →
        ((files.flatMap (recordLines root)).map (fieldOf tag)).sum = ((files.map score).sum : Nat) := by
    intro tag score each
    induction files with
    | nil => rfl
    | cons f rest inductionHypothesis =>
        have tail := inductionHypothesis fun g member => normalised g (List.mem_cons_of_mem f member)
        rw [List.flatMap_cons, List.map_append, List.sum_append, each, tail, List.map_cons,
          List.sum_cons, Nat.cast_add]
  have text : splitlines (writeLcovInfo root files).text = lcovLines root files :=
    splitlines_unlines (noBreak_lcovLines root normalised)
  have first : fieldOf "LH:".toList "TN:".toList = 0 ∧ fieldOf "LF:".toList "TN:".toList = 0 := by
    simp [fieldOf, startswith]
  unfold sumField
  rw [text]
  unfold lcovLines
  rw [List.map_cons, List.sum_cons, List.map_cons, List.sum_cons, first.1, first.2,
    Int.zero_add, Int.zero_add, total _ fileHit fun f => (sum_recordLines root f).1,
    total _ fileTotal fun f => (sum_recordLines root f).2]
  exact ⟨rfl, rfl⟩

/-- A number stored by the program is read back, zero through the default. -/
theorem toInt_getOr {data : Dict Str Json.Doc} {key : Str} {n : Int}
    (stored : data.get? key = some (.int n)) :
    Json.toInt (Json.getOr data key (.int 0)) = some n := by
  unfold Json.getOr
  rw [stored]
  by_cases zero : n = 0
  · subst zero
    rfl
  · simp [Json.truth, Json.toInt, zero]

theorem readSummary_coverageSummary (files : List CoverageFile) :
    (readSummary (coverageSummary files)).map Prod.snd =
      some ((scoreHit files : Int), (scoreTotal files : Int)) := by
  obtain ⟨data, opened, pct, hit, total⟩ : ∃ data, Json.asDict (coverageSummary files) = some data ∧
      data.get? "pct".toList =
        some (.float (FloatOps.round2 (percentage (scoreHit files) (scoreTotal files)))) ∧
      data.get? "hit".toList = some (.int (scoreHit files)) ∧
      data.get? "total".toList = some (.int (scoreTotal files)) := ⟨_, rfl, rfl, rfl, rfl⟩
  have float : ∃ x, Json.toFloat (Json.getOr data "pct".toList (.float (FloatOps.lit 0))) =
      some x := by
    unfold Json.getOr
    rw [pct]
    simp only
    split
    · exact ⟨_, rfl⟩
    · exact ⟨_, rfl⟩
  obtain ⟨x, read⟩ := float
  unfold readSummary
  rw [opened]
  simp only [Option.bind_eq_bind, Option.bind_some, read, toInt_getOr hit, toInt_getOr total]
  rfl

/-- No summary of the directory has a line or a percentage. -/
def NoSummary (dir : ReportDir) : Prop :=
  ∀ doc ∈ [dir.kernelSummary, dir.summary].flatMap Option.toList, ∃ pct hit,
    readSummary doc = some (pct, hit, 0) ∧ FloatOps.eq pct (FloatOps.lit 0) = true

theorem pctFromSummaries_of_empty (dir : ReportDir) {summaries : List (Option Json.Doc)}
    (empty : ∀ doc ∈ summaries.flatMap Option.toList, ∃ pct hit,
      readSummary doc = some (pct, hit, 0) ∧ FloatOps.eq pct (FloatOps.lit 0) = true) :
    pctFromSummaries dir summaries = pctFromSummaries dir [] := by
  induction summaries with
  | nil => rfl
  | cons summary rest inductionHypothesis =>
      have tail := inductionHypothesis fun doc member => empty doc (by simp [member])
      cases summary with
      | none => exact tail
      | some doc =>
          obtain ⟨pct, hit, read, zero⟩ := empty doc (by simp)
          rw [← tail, pctFromSummaries, read]
          simp only [zero, ne_eq, not_true_eq_false, Bool.true_eq_false, or_self, if_false]

/-- The persisted forms of a report agree with its records and with one another. -/
theorem persistedForms_agree (root : LcovFsRoot) (files : List CoverageFile) (listing : Listing)
    (nonempty : files ≠ []) (distinct : (files.map fun f => f.source.rel).Nodup)
    (normalised : ∀ f ∈ files, Normalised f.source.rel)
    (defined : ∀ f ∈ files, Defined f.source f.hits) :
    let e := emitHtmlTree root files listing
    let score := scoreFiles (F := Runtime.Float) files
    (64 ≤ e.info.size →
      (∀ f ∈ files, f.source.lines ≠ [] → ∃ table,
        (parseLcov (some e.info)).get? (root.join f.source.rel) = some table ∧
          ∀ k, table.get? k = f.hits.get? k) ∧
      ∀ key ∈ (parseLcov (some e.info)).keys,
        ∃ f ∈ files, f.source.lines ≠ [] ∧ key = root.join f.source.rel) ∧
    (∀ dir, Holds dir e.hitsBlob → ∃ table, loadLineHits dir = some table ∧
      (∀ f ∈ files, table.get? f.source.rel = some f.hits) ∧
      ∀ key ∈ table.keys, ∃ f ∈ files, key = f.source.rel) ∧
    (readSummary e.coverageSummary).map Prod.snd = some ((score.1 : Int), (score.2.1 : Int)) ∧
    (∀ dir, Holds dir e.hitsBlob → NoSummary dir →
      pctFromReport dir = some (score.2.2, (score.1 : Int), (score.2.1 : Int))) ∧
    sumField "LH:".toList e.info = score.1 ∧ sumField "LF:".toList e.info = score.2.1 := by
  intro e score
  have stored := items_snapshotHits distinct
  have loaded : ∀ dir, Holds dir e.hitsBlob → loadLineHits dir = some (snapshotHits files) :=
    fun dir holds => loadLineHits_of_holds holds nonempty distinct
  refine ⟨fun large => ⟨?_, ?_⟩, fun dir holds => ⟨_, loaded dir holds, ?_, ?_⟩, ?_, ?_, ?_⟩
  · intro f member lines
    have items := items_parseLcov_writeLcovInfo root files distinct normalised large
    refine ⟨tableOf f, ?_, (defined_hitsOf f.source _).get?_eq (defined f member) fun ln listed =>
      hitsAt_hitsOf f.source.nodup_lines listed⟩
    rw [Dict.get?_eq_some_iff]
    show _ ∈ (parseLcov (some (writeLcovInfo root files))).items
    rw [items]
    exact List.mem_map.2 ⟨f, List.mem_filter.2 ⟨member, by simpa using lines⟩, rfl⟩
  · intro key member
    have items := items_parseLcov_writeLcovInfo root files distinct normalised large
    change key ∈ (parseLcov (some (writeLcovInfo root files))).items.map Prod.fst at member
    rw [items, recordItems, List.map_map] at member
    obtain ⟨f, listed, rfl⟩ := List.mem_map.1 member
    have both := List.mem_filter.1 listed
    exact ⟨f, both.1, by simpa using both.2, rfl⟩
  · intro f member
    rw [Dict.get?_eq_some_iff, stored]
    exact List.mem_map.2 ⟨f, member, rfl⟩
  · intro key member
    unfold Dict.keys at member
    rw [stored, List.map_map] at member
    obtain ⟨f, listed, rfl⟩ := List.mem_map.1 member
    exact ⟨f, listed, rfl⟩
  · exact readSummary_coverageSummary files
  · intro dir holds noSummary
    unfold pctFromReport
    rw [pctFromSummaries_of_empty dir noSummary, pctFromSummaries, loaded dir holds, Option.map_some, if_neg (by simp [isEmpty_snapshotHits nonempty distinct]),
      countHits_snapshotHits distinct defined]
    rfl
  · exact sumField_writeLcovInfo root normalised

end Stored

section Sample

attribute [local instance] Profiles.sampleRuntime

/-- The sample tree with the line numbers as counts. -/
def numberedFiles : List CoverageFile :=
  (readTree sampleTree).map fun f => { f with hits := hitsOf f.source.lines fun ln => ln }

theorem persistedForms_agree_numbered :
    sumField "LH:".toList (emitHtmlTree sampleRoot numberedFiles .files).info =
        (scoreFiles (F := Runtime.Float) numberedFiles).1 ∧
      sumField "LF:".toList (emitHtmlTree sampleRoot numberedFiles .files).info =
        (scoreFiles (F := Runtime.Float) numberedFiles).2.1 := by
  have nonempty : numberedFiles ≠ [] := by decide +kernel
  have distinct : (numberedFiles.map fun f => f.source.rel).Nodup := by
    show (((readTree sampleTree).map _).map _).Nodup
    rw [List.map_map]
    exact distinct_readTree sampleTree
  have normalised : ∀ f ∈ numberedFiles, Normalised f.source.rel := by
    intro f member
    rcases List.mem_map.1 member with ⟨g, listed, rfl⟩
    exact normalised_readTree sampleTree g listed
  have defined : ∀ f ∈ numberedFiles, Defined f.source f.hits := by
    intro f member
    rcases List.mem_map.1 member with ⟨g, _, rfl⟩
    exact defined_hitsOf g.source _
  exact (persistedForms_agree sampleRoot numberedFiles .files nonempty distinct normalised
    defined).2.2.2.2

end Sample

end Ocfs2Coverage.Report
