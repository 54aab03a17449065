import Ocfs2Coverage.Python.Text

/-!
Contract: the fragment of `re` in which repetition ranges over one character
class, matched for its truth value only.

Owns: the syntax, the set of cursors at which a match may end, `re.match` and
`re.search`, and the laws of whole-word searches: a whole word is found in a
text exactly when it is found on one side of any character outside `\w`.

Does not own: groups, greediness, flags. None of them changes whether a match
exists.
-/

namespace Ocfs2Coverage.Python

/-- A place in the subject: the character before it and the text after it. -/
structure Cursor where
  before : Option Char
  rest : Str
deriving DecidableEq, Repr

inductive Regex where
  /-- One character of a class. -/
  | char (accepts : Char → Bool)
  /-- Any number of characters of a class. -/
  | many (accepts : Char → Bool)
  | eps
  | seq (first second : Regex)
  | alt (left right : Regex)
  /-- `^`. -/
  | start
  /-- `$`: the end, or just before a final line feed. -/
  | finish
  /-- `\b`. -/
  | boundary

namespace Regex

def lit (text : Str) : Regex :=
  text.foldr (fun c rest => .seq (.char (· == c)) rest) .eps

/-- One or more characters of a class. -/
def many1 (accepts : Char → Bool) : Regex := .seq (.char accepts) (.many accepts)

def optional (r : Regex) : Regex := .alt r .eps

/-- The alternatives of a group. -/
def oneOf : List Regex → Regex
  | [] => .char fun _ => false
  | [r] => r
  | r :: rest => .alt r (oneOf rest)

/-- Patterns one after another. -/
def seqs : List Regex → Regex
  | [] => .eps
  | [r] => r
  | r :: rest => .seq r (seqs rest)

/-- `\b(w1|w2|...)\b`. -/
def wholeWord (words : List Str) : Regex :=
  .seq .boundary (.seq (oneOf (words.map lit)) .boundary)

end Regex

section Matching

variable [UnicodeData]

def Cursor.atBoundary (cursor : Cursor) : Bool :=
  cursor.before.any isWordChar != cursor.rest.head?.any isWordChar

/-- Every cursor reached by taking characters of a class one after another. -/
def manyEnds (accepts : Char → Bool) (before : Option Char) : Str → List Cursor
  | [] => [⟨before, []⟩]
  | c :: rest =>
      ⟨before, c :: rest⟩ ::
        if accepts c then manyEnds accepts (Option.some c) rest else []

/-- The cursors at which a match that starts at a cursor may end. -/
def Regex.ends : Regex → Cursor → List Cursor
  | .char accepts, cursor =>
      match cursor.rest with
      | [] => []
      | c :: rest => if accepts c then [⟨Option.some c, rest⟩] else []
  | .many accepts, cursor => manyEnds accepts cursor.before cursor.rest
  | .eps, cursor => [cursor]
  | .seq first second, cursor => (first.ends cursor).flatMap second.ends
  | .alt left right, cursor => left.ends cursor ++ right.ends cursor
  | .start, cursor => if cursor.before.isNone then [cursor] else []
  | .finish, cursor =>
      if cursor.rest.isEmpty || cursor.rest == ['\n'] then [cursor] else []
  | .boundary, cursor => if cursor.atBoundary then [cursor] else []

/-- A match that starts here exists. -/
def Regex.matchesAt (r : Regex) (cursor : Cursor) : Bool := !(r.ends cursor).isEmpty

/-- `re.match(r, s)`. -/
def Regex.isMatch (r : Regex) (s : Str) : Bool := r.matchesAt ⟨none, s⟩

/-- A match that starts here or later exists. -/
def Regex.searchFrom (r : Regex) (before : Option Char) : Str → Bool
  | [] => r.matchesAt ⟨before, []⟩
  | c :: rest => r.matchesAt ⟨before, c :: rest⟩ || r.searchFrom (Option.some c) rest

/-- `re.search(r, s)`. -/
def Regex.search (r : Regex) (s : Str) : Bool := r.searchFrom none s

/-! ## Laws of the constructors -/

theorem matchesAt_iff {r : Regex} {cursor : Cursor} :
    r.matchesAt cursor = true ↔ ∃ stop, stop ∈ r.ends cursor := by
  simp only [Regex.matchesAt]
  rw [Bool.not_eq_true', List.isEmpty_eq_false_iff_exists_mem]

@[simp] theorem mem_ends_seq {a b : Regex} {cursor stop : Cursor} :
    stop ∈ (Regex.seq a b).ends cursor ↔ ∃ middle ∈ a.ends cursor, stop ∈ b.ends middle := by
  simp [Regex.ends]

@[simp] theorem mem_ends_alt {a b : Regex} {cursor stop : Cursor} :
    stop ∈ (Regex.alt a b).ends cursor ↔ stop ∈ a.ends cursor ∨ stop ∈ b.ends cursor := by
  simp [Regex.ends]

@[simp] theorem mem_ends_eps {cursor stop : Cursor} :
    stop ∈ Regex.eps.ends cursor ↔ stop = cursor := by
  simp [Regex.ends]

@[simp] theorem mem_ends_start {cursor stop : Cursor} :
    stop ∈ Regex.start.ends cursor ↔ cursor.before = none ∧ stop = cursor := by
  simp [Regex.ends]

@[simp] theorem mem_ends_boundary {cursor stop : Cursor} :
    stop ∈ Regex.boundary.ends cursor ↔ cursor.atBoundary = true ∧ stop = cursor := by
  simp [Regex.ends]

@[simp] theorem mem_ends_finish {cursor stop : Cursor} :
    stop ∈ Regex.finish.ends cursor ↔
      (cursor.rest = [] ∨ cursor.rest = ['\n']) ∧ stop = cursor := by
  simp [Regex.ends]

@[simp] theorem mem_ends_char {accepts : Char → Bool} {before : Option Char} {rest : Str}
    {stop : Cursor} :
    stop ∈ (Regex.char accepts).ends ⟨before, rest⟩ ↔
      ∃ c tail, rest = c :: tail ∧ accepts c = true ∧ stop = ⟨Option.some c, tail⟩ := by
  cases rest with
  | nil => simp [Regex.ends]
  | cons c tail => simp [Regex.ends, and_assoc]

/-- The character before the cursor after `taken` was read. -/
def lastOf (before : Option Char) (taken : Str) : Option Char := taken.getLast?.or before

omit [UnicodeData] in
@[simp] theorem lastOf_nil (before : Option Char) : lastOf before [] = before := rfl

omit [UnicodeData] in
theorem lastOf_cons (before : Option Char) (c : Char) (taken : Str) :
    lastOf before (c :: taken) = lastOf (Option.some c) taken := by
  cases taken with
  | nil => rfl
  | cons d rest =>
      simp only [lastOf, List.getLast?_cons_cons]
      cases shape : (d :: rest).getLast? with
      | none => simp at shape
      | some last => rfl

omit [UnicodeData] in
theorem lastOf_append (before : Option Char) (a b : Str) :
    lastOf before (a ++ b) = lastOf (lastOf before a) b := by
  induction a generalizing before with
  | nil => rfl
  | cons c a inductionHypothesis =>
      rw [List.cons_append, lastOf_cons, lastOf_cons, inductionHypothesis]

theorem mem_ends_many {accepts : Char → Bool} {before : Option Char} {rest : Str}
    {stop : Cursor} :
    stop ∈ (Regex.many accepts).ends ⟨before, rest⟩ ↔
      ∃ taken tail, rest = taken ++ tail ∧ (∀ c ∈ taken, accepts c = true) ∧
        stop = ⟨lastOf before taken, tail⟩ := by
  change stop ∈ manyEnds accepts before rest ↔ _
  induction rest generalizing before with
  | nil =>
      constructor
      · intro member
        have here : stop = ⟨before, []⟩ := by simpa [manyEnds] using member
        exact ⟨[], [], rfl, by simp, here⟩
      · rintro ⟨taken, tail, shape, _, rfl⟩
        obtain ⟨rfl, rfl⟩ := List.append_eq_nil_iff.1 shape.symm
        simp [manyEnds]
  | cons c rest inductionHypothesis =>
      rw [manyEnds, List.mem_cons]
      constructor
      · rintro (here | later)
        · exact ⟨[], c :: rest, rfl, by simp, here⟩
        · split at later
          · next accepted =>
              obtain ⟨taken, tail, shape, all, equal⟩ := inductionHypothesis.1 later
              refine ⟨c :: taken, tail, by rw [shape]; rfl, ?_, ?_⟩
              · intro d member
                rcases List.mem_cons.1 member with rfl | member
                · exact accepted
                · exact all d member
              · rw [equal, lastOf_cons]
          · cases later
      · rintro ⟨taken, tail, shape, all, equal⟩
        cases taken with
        | nil =>
            left
            rw [List.nil_append] at shape
            rw [equal, ← shape, lastOf_nil]
        | cons d taken =>
            right
            rw [List.cons_append, List.cons.injEq] at shape
            obtain ⟨rfl, shape⟩ := shape
            rw [if_pos (all c (by simp)), inductionHypothesis]
            exact ⟨taken, tail, shape, fun e member => all e (by simp [member]),
              by rw [equal, lastOf_cons]⟩

@[simp] theorem mem_ends_lit {text : Str} {before : Option Char} {rest : Str} {stop : Cursor} :
    stop ∈ (Regex.lit text).ends ⟨before, rest⟩ ↔
      ∃ tail, rest = text ++ tail ∧ stop = ⟨lastOf before text, tail⟩ := by
  induction text generalizing before rest with
  | nil => simp [Regex.lit]
  | cons c text inductionHypothesis =>
      change stop ∈ (Regex.seq (.char (· == c)) (Regex.lit text)).ends ⟨before, rest⟩ ↔ _
      rw [mem_ends_seq]
      constructor
      · rintro ⟨middle, first, second⟩
        obtain ⟨d, tail, rfl, same, rfl⟩ := mem_ends_char.1 first
        obtain ⟨after, rfl, rfl⟩ := inductionHypothesis.1 second
        have equal : d = c := by simpa using same
        exact ⟨after, by rw [equal]; rfl, by rw [equal, lastOf_cons]⟩
      · rintro ⟨tail, rfl, rfl⟩
        refine ⟨⟨Option.some c, text ++ tail⟩, ?_, ?_⟩
        · exact mem_ends_char.2 ⟨c, text ++ tail, rfl, by simp, rfl⟩
        · exact inductionHypothesis.2 ⟨tail, rfl, by rw [lastOf_cons]⟩

theorem mem_ends_oneOf {rs : List Regex} {cursor stop : Cursor} :
    stop ∈ (Regex.oneOf rs).ends cursor ↔ ∃ r ∈ rs, stop ∈ r.ends cursor := by
  match rs with
  | [] =>
      obtain ⟨before, rest⟩ := cursor
      simp [Regex.oneOf]
  | [r] => simp [Regex.oneOf]
  | r :: s :: rest =>
      have tail : stop ∈ (Regex.oneOf (s :: rest)).ends cursor ↔
          ∃ r ∈ s :: rest, stop ∈ r.ends cursor := mem_ends_oneOf
      simp only [Regex.oneOf, mem_ends_alt, tail, List.mem_cons, exists_eq_or_imp]

/-- A match leaves an end of the text. -/
theorem rest_suffix {r : Regex} {cursor stop : Cursor} (member : stop ∈ r.ends cursor) :
    stop.rest <:+ cursor.rest := by
  induction r generalizing cursor stop with
  | char accepts =>
      obtain ⟨c, tail, shape, -, rfl⟩ := mem_ends_char.1 member
      exact ⟨[c], shape.symm⟩
  | many accepts =>
      obtain ⟨taken, tail, shape, -, rfl⟩ := mem_ends_many.1 member
      exact ⟨taken, shape.symm⟩
  | eps =>
      rw [mem_ends_eps.1 member]
  | seq first second firstHypothesis secondHypothesis =>
      obtain ⟨middle, before, after⟩ := mem_ends_seq.1 member
      exact (secondHypothesis after).trans (firstHypothesis before)
  | alt left right leftHypothesis rightHypothesis =>
      rcases mem_ends_alt.1 member with here | there
      · exact leftHypothesis here
      · exact rightHypothesis there
  | start =>
      rw [(mem_ends_start.1 member).2]
  | finish =>
      rw [(mem_ends_finish.1 member).2]
  | boundary =>
      rw [(mem_ends_boundary.1 member).2]

/-! ## Texts a pattern can take -/

/-- The pattern can take this text, whatever stands around it. -/
def Regex.Takes (r : Regex) (taken : Str) : Prop :=
  ∀ before rest, ∃ before', (⟨before', rest⟩ : Cursor) ∈ r.ends ⟨before, taken ++ rest⟩

/-- The pattern can take this text when it is all that is left. -/
def Regex.TakesRest (r : Regex) (s : Str) : Prop :=
  ∀ before, ∃ before', (⟨before', []⟩ : Cursor) ∈ r.ends ⟨before, s⟩

theorem takes_char {accepts : Char → Bool} {c : Char} (accepted : accepts c = true) :
    (Regex.char accepts).Takes [c] :=
  fun _ rest => ⟨_, mem_ends_char.2 ⟨c, rest, rfl, accepted, rfl⟩⟩

theorem takes_many {accepts : Char → Bool} {taken : Str}
    (accepted : ∀ c ∈ taken, accepts c = true) : (Regex.many accepts).Takes taken :=
  fun _ rest => ⟨_, mem_ends_many.2 ⟨taken, rest, rfl, accepted, rfl⟩⟩

theorem takes_lit (text : Str) : (Regex.lit text).Takes text :=
  fun _ rest => ⟨_, mem_ends_lit.2 ⟨rest, rfl, rfl⟩⟩

theorem takes_seq {a b : Regex} {s t : Str} (first : a.Takes s) (second : b.Takes t) :
    (Regex.seq a b).Takes (s ++ t) := by
  intro before rest
  rcases first before (t ++ rest) with ⟨middle, left⟩
  rcases second middle rest with ⟨stop, right⟩
  refine ⟨stop, mem_ends_seq.2 ⟨_, ?_, right⟩⟩
  rw [List.append_assoc]
  exact left

theorem takes_many1 {accepts : Char → Bool} {c : Char} {taken : Str}
    (accepted : ∀ d ∈ c :: taken, accepts d = true) : (Regex.many1 accepts).Takes (c :: taken) :=
  takes_seq (takes_char (accepted c (by simp)))
    (takes_many fun d member => accepted d (by simp [member]))

theorem takes_optional {r : Regex} {taken : Str} (takes : taken = [] ∨ r.Takes taken) :
    r.optional.Takes taken := by
  intro before rest
  rcases takes with rfl | takes
  · exact ⟨before, mem_ends_alt.2 (Or.inr (mem_ends_eps.2 rfl))⟩
  · rcases takes before rest with ⟨stop, member⟩
    exact ⟨stop, mem_ends_alt.2 (Or.inl member)⟩

theorem takesRest_seq {a b : Regex} {s t : Str} (first : a.Takes s) (second : b.TakesRest t) :
    (Regex.seq a b).TakesRest (s ++ t) := by
  intro before
  rcases first before t with ⟨middle, left⟩
  rcases second middle with ⟨stop, right⟩
  exact ⟨stop, mem_ends_seq.2 ⟨_, left, right⟩⟩

theorem takesRest_finish : Regex.finish.TakesRest [] :=
  fun before => ⟨before, mem_ends_finish.2 ⟨Or.inl rfl, rfl⟩⟩

theorem isMatch_of_takesRest {r : Regex} {s : Str} (takes : r.TakesRest s) :
    (Regex.seq .start r).isMatch s = true := by
  rcases takes none with ⟨stop, member⟩
  exact matchesAt_iff.2 ⟨_, mem_ends_seq.2 ⟨_, mem_ends_start.2 ⟨rfl, rfl⟩, member⟩⟩

theorem searchFrom_iff {r : Regex} {before : Option Char} {s : Str} :
    r.searchFrom before s = true ↔
      ∃ pre post, s = pre ++ post ∧ r.matchesAt ⟨lastOf before pre, post⟩ = true := by
  induction s generalizing before with
  | nil =>
      rw [Regex.searchFrom]
      constructor
      · exact fun found => ⟨[], [], rfl, found⟩
      · rintro ⟨pre, post, shape, found⟩
        obtain ⟨rfl, rfl⟩ := List.append_eq_nil_iff.1 shape.symm
        exact found
  | cons c s inductionHypothesis =>
      rw [Regex.searchFrom, Bool.or_eq_true, inductionHypothesis]
      constructor
      · rintro (found | ⟨pre, post, rfl, found⟩)
        · exact ⟨[], c :: s, rfl, found⟩
        · exact ⟨c :: pre, post, rfl, by rwa [lastOf_cons]⟩
      · rintro ⟨pre, post, shape, found⟩
        cases pre with
        | nil =>
            rw [List.nil_append] at shape
            exact Or.inl (by rw [shape]; exact found)
        | cons d pre =>
            rw [List.cons_append, List.cons.injEq] at shape
            obtain ⟨rfl, shape⟩ := shape
            exact Or.inr ⟨pre, post, shape, by rwa [lastOf_cons] at found⟩

/-! ## Whole words -/

/-- A nonempty text of word characters. -/
def IsWord (w : Str) : Prop := w ≠ [] ∧ ∀ c ∈ w, isWordChar c = true

/-- The text goes on with something else than a word character. -/
def EndsWord (rest : Str) : Prop := rest.head?.any isWordChar = false

/-- `w` stands in `s` as a whole word. -/
def HasWord (w s : Str) : Prop :=
  ∃ pre post, s = pre ++ w ++ post ∧ (lastOf none pre).any isWordChar = false ∧ EndsWord post

theorem IsWord.head_isWordChar {w : Str} (word : IsWord w) (post : Str) :
    (w ++ post).head?.any isWordChar = true := by
  obtain ⟨c, rest, rfl⟩ := List.exists_cons_of_ne_nil word.1
  simp [word.2 c (by simp)]

theorem IsWord.last_isWordChar {w : Str} (word : IsWord w) (before : Option Char) :
    (lastOf before w).any isWordChar = true := by
  have last : w.getLast? = Option.some (w.getLast word.1) := List.getLast?_eq_getLast_of_ne_nil word.1
  simp [lastOf, last, word.2 _ (List.getLast_mem word.1)]

theorem atBoundary_before_word {w : Str} (word : IsWord w) (before : Option Char) (post : Str) :
    Cursor.atBoundary ⟨before, w ++ post⟩ = true ↔ before.any isWordChar = false := by
  simp only [Cursor.atBoundary]
  rw [word.head_isWordChar post]
  simp

theorem atBoundary_after_word {w : Str} (word : IsWord w) (before : Option Char) (post : Str) :
    Cursor.atBoundary ⟨lastOf before w, post⟩ = true ↔ EndsWord post := by
  simp only [Cursor.atBoundary, EndsWord]
  rw [word.last_isWordChar before]
  simp

/-- `re.search(r"\b(w1|w2|...)\b", s)`. -/
theorem search_wholeWord_iff {words : List Str} (allWords : ∀ w ∈ words, IsWord w) {s : Str} :
    (Regex.wholeWord words).search s = true ↔ ∃ w ∈ words, HasWord w s := by
  simp only [Regex.search]
  rw [searchFrom_iff]
  constructor
  · rintro ⟨pre, post, rfl, found⟩
    obtain ⟨stop, member⟩ := matchesAt_iff.1 found
    simp only [Regex.wholeWord, mem_ends_seq, mem_ends_boundary, mem_ends_oneOf,
      List.mem_map] at member
    obtain ⟨_, ⟨open_, rfl⟩, _, ⟨_, ⟨w, wordMember, rfl⟩, taken⟩, close, rfl⟩ := member
    obtain ⟨tail, rfl, rfl⟩ := mem_ends_lit.1 taken
    have word := allWords w wordMember
    refine ⟨w, wordMember, pre, tail, by rw [List.append_assoc], ?_, ?_⟩
    · exact (atBoundary_before_word word _ _).1 open_
    · exact (atBoundary_after_word word _ _).1 close
  · rintro ⟨w, wordMember, pre, post, rfl, open_, close⟩
    have word := allWords w wordMember
    refine ⟨pre, w ++ post, by rw [List.append_assoc], matchesAt_iff.2
      ⟨⟨lastOf (lastOf none pre) w, post⟩, ?_⟩⟩
    simp only [Regex.wholeWord, mem_ends_seq, mem_ends_boundary, mem_ends_oneOf, List.mem_map]
    refine ⟨_, ⟨(atBoundary_before_word word _ _).2 open_, rfl⟩, _,
      ⟨_, ⟨w, wordMember, rfl⟩, mem_ends_lit.2 ⟨post, rfl, rfl⟩⟩,
      (atBoundary_after_word word _ _).2 close, rfl⟩

/-- A character outside `\w` cuts a text: a whole word stands on one side. -/
theorem hasWord_append_cons {w a b : Str} {c : Char} (word : IsWord w)
    (cut : isWordChar c = false) :
    HasWord w (a ++ c :: b) ↔ HasWord w a ∨ HasWord w b := by
  constructor
  · rintro ⟨pre, post, shape, open_, close⟩
    rw [List.append_assoc] at shape
    -- The cut falls before, inside or after the occurrence; inside is impossible.
    rcases List.append_eq_append_iff.1 shape with ⟨extra, rfl, tail⟩ | ⟨extra, rfl, tail⟩
    · cases extra with
      | nil =>
          obtain ⟨d, rest, rfl⟩ := List.exists_cons_of_ne_nil word.1
          simp only [List.nil_append, List.cons_append, List.cons.injEq] at tail
          exact absurd (word.2 d (by simp)) (by simp [← tail.1, cut])
      | cons d extra =>
          simp only [List.cons_append, List.cons.injEq] at tail
          obtain ⟨rfl, rfl⟩ := tail
          refine Or.inr ⟨extra, post, by rw [List.append_assoc], ?_, close⟩
          rw [lastOf_append, lastOf_cons] at open_
          cases extra with
          | nil => rfl
          | cons e extra => rw [lastOf_cons] at open_ ⊢; exact open_
    · rcases List.append_eq_append_iff.1 tail with ⟨more, rfl, rfl⟩ | ⟨more, rfl, inner⟩
      · refine Or.inl ⟨pre, more, by simp, open_, ?_⟩
        cases more with
        | nil => rfl
        | cons d more => exact close
      · cases more with
        | nil =>
            left
            exact ⟨pre, [], by simp, open_, rfl⟩
        | cons d more =>
            simp only [List.cons_append, List.cons.injEq] at inner
            obtain ⟨rfl, -⟩ := inner
            exact absurd (word.2 c (by simp)) (by simp [cut])
  · rintro (⟨pre, post, rfl, open_, close⟩ | ⟨pre, post, rfl, open_, close⟩)
    · refine ⟨pre, post ++ c :: b, by simp, open_, ?_⟩
      cases post with
      | nil => simpa [EndsWord] using cut
      | cons d post => exact close
    · refine ⟨a ++ c :: pre, post, by simp, ?_, close⟩
      rw [lastOf_append, lastOf_cons]
      cases pre with
      | nil => simpa using cut
      | cons d pre => rw [lastOf_cons] at open_ ⊢; exact open_

theorem not_hasWord_nil {w : Str} (word : IsWord w) : ¬ HasWord w [] := by
  rintro ⟨pre, post, shape, -, -⟩
  rw [List.append_assoc] at shape
  have empty := (List.append_eq_nil_iff.1 (List.append_eq_nil_iff.1 shape.symm).2).1
  exact word.1 empty

/-- Characters outside `\w` in front of a text do not matter. -/
theorem hasWord_append_left {w cuts s : Str} (word : IsWord w)
    (cut : ∀ c ∈ cuts, isWordChar c = false) : HasWord w (cuts ++ s) ↔ HasWord w s := by
  induction cuts with
  | nil => rfl
  | cons c cuts inductionHypothesis =>
      have head : HasWord w ([] ++ c :: (cuts ++ s)) ↔ HasWord w [] ∨ HasWord w (cuts ++ s) :=
        hasWord_append_cons word (cut c (by simp))
      rw [List.cons_append, ← inductionHypothesis fun d member => cut d (by simp [member])]
      exact head.trans (or_iff_right (not_hasWord_nil word))

theorem hasWord_append_right {w cuts s : Str} (word : IsWord w)
    (cut : ∀ c ∈ cuts, isWordChar c = false) : HasWord w (s ++ cuts) ↔ HasWord w s := by
  cases cuts with
  | nil => rw [List.append_nil]
  | cons c cuts =>
      have rest : ¬ HasWord w cuts := by
        have dropped : HasWord w (cuts ++ []) ↔ HasWord w [] :=
          hasWord_append_left word fun d member => cut d (List.mem_cons_of_mem c member)
        rw [List.append_nil] at dropped
        rw [dropped]
        exact not_hasWord_nil word
      rw [hasWord_append_cons word (cut c (by simp)), or_iff_left rest]

theorem hasWord_strip {w s : Str} (word : IsWord w) : HasWord w (strip s) ↔ HasWord w s := by
  obtain ⟨left, right, shape, leftSpace, rightSpace⟩ := strip_decomposition s
  conv_rhs => rw [shape]
  rw [hasWord_append_right word fun c member => isWordChar_of_isSpace (rightSpace c member),
    hasWord_append_left word fun c member => isWordChar_of_isSpace (leftSpace c member)]

/-- A whole word stands in a joined text exactly when it stands in a part. -/
theorem hasWord_join {w : Str} {c : Char} {parts : List Str} (word : IsWord w)
    (cut : isWordChar c = false) : HasWord w (join [c] parts) ↔ ∃ part ∈ parts, HasWord w part := by
  induction parts with
  | nil => simp [join, not_hasWord_nil word]
  | cons part rest inductionHypothesis =>
      cases rest with
      | nil => simp [join]
      | cons next rest =>
          have shape : join [c] (part :: next :: rest) = part ++ c :: join [c] (next :: rest) := by
            simp [join, List.intercalate]
          rw [shape, hasWord_append_cons word cut, inductionHypothesis]
          simp

end Matching

end Ocfs2Coverage.Python
