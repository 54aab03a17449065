import Mathlib.Data.List.AList
import Mathlib.Tactic.Common

/-!
Contract: directories and files, and programs that create and write them.

Owns: trees in which every entry lies in a directory, creating directories and writing
files with the errors of wrong kinds, sequences of such actions that stop at the first
error, and what an action leaves as it was.

Does not own: names, contents.

A path lists its names from the last one to the first, so that it begins with the entry
and goes on with the directories above it.
-/

namespace Ocfs2Coverage.FileTree

inductive Entry (β : Type) where
  | dir
  | file (content : β)
deriving DecidableEq, Repr

inductive IoError where
  | fileExists
  | fileNotFound
  | isADirectory
  | notADirectory
deriving DecidableEq, Repr

/-- A tree of files. -/
structure Tree (κ β : Type) [DecidableEq κ] where
  entries : AList fun _ : List κ => Entry β
  parents : ∀ name dir, (entries.lookup (name :: dir)).isSome = true → entries.lookup dir = some .dir

variable {κ β : Type} [DecidableEq κ]

namespace Tree

def get? (t : Tree κ β) (path : List κ) : Option (Entry β) := t.entries.lookup path

def content? (t : Tree κ β) (path : List κ) : Option β :=
  match t.get? path with
  | some (.file content) => some content
  | _ => none

def isFile (t : Tree κ β) (path : List κ) : Bool := (t.content? path).isSome

theorem content?_eq_some {t : Tree κ β} {path : List κ} {content : β} :
    t.content? path = some content ↔ t.get? path = some (.file content) := by
  simp only [content?]
  split
  · next found => rw [found, Option.some_inj, Option.some_inj, Entry.file.injEq]
  · next other =>
      constructor
      · exact fun none => by cases none
      · exact fun found => absurd found (other content)

def isDir (t : Tree κ β) (path : List κ) : Bool :=
  match t.get? path with
  | some .dir => true
  | _ => false

/-- The directory of the path exists. -/
def reaches (t : Tree κ β) : List κ → Bool
  | [] => true
  | _ :: dir => t.isDir dir

theorem isDir_iff {t : Tree κ β} {path : List κ} : t.isDir path = true ↔ t.get? path = some .dir := by
  simp only [isDir]
  split
  · next found => exact ⟨fun _ => found, fun _ => rfl⟩
  · next other => exact ⟨(fun none => by cases none), fun found => absurd found other⟩

/-- The entry may take this place. -/
structure Accepts (t : Tree κ β) (path : List κ) (entry : Entry β) : Prop where
  reached : t.reaches path = true
  keepsDir : t.isDir path = true → entry = .dir

def set (t : Tree κ β) (path : List κ) (entry : Entry β) (accepts : t.Accepts path entry) :
    Tree κ β where
  entries := t.entries.insert path entry
  parents := by
    intro name dir present
    by_cases above : dir = path
    · -- A directory keeps what lies in it.
      subst above
      rw [AList.lookup_insert]
      have different : name :: dir ≠ dir := List.cons_ne_self name dir
      rw [AList.lookup_insert_ne different] at present
      rw [accepts.keepsDir (isDir_iff.2 (t.parents name dir present))]
    · rw [AList.lookup_insert_ne above]
      by_cases here : name :: dir = path
      · have reached := accepts.reached
        rw [← here] at reached
        exact isDir_iff.1 reached
      · rw [AList.lookup_insert_ne here] at present
        exact t.parents name dir present

theorem get?_set (t : Tree κ β) (path other : List κ) (entry : Entry β)
    (accepts : t.Accepts path entry) :
    (t.set path entry accepts).get? other = if other = path then some entry else t.get? other := by
  by_cases here : other = path
  · rw [if_pos here, here]
    exact AList.lookup_insert _
  · rw [if_neg here]
    exact AList.lookup_insert_ne here

end Tree

/-! ## Actions -/

/-- A change of the tree, and the error that ended it. What was changed before the
error stays. -/
abbrev Action (κ β : Type) [DecidableEq κ] := Tree κ β → Tree κ β × Option IoError

namespace Action

def done : Action κ β := fun t => (t, none)

def fail (error : IoError) : Action κ β := fun t => (t, some error)

/-- The second action, unless the first one fails. -/
def andThen (first second : Action κ β) : Action κ β := fun t =>
  match first t with
  | (t', none) => second t'
  | (t', some error) => (t', some error)

def sequence : List (Action κ β) → Action κ β
  | [] => done
  | action :: rest => andThen action (sequence rest)

/-- `if test: action`. -/
def when (test : Tree κ β → Bool) (action : Action κ β) : Action κ β := fun t =>
  if test t then action t else done t

/-- An action that depends on the tree. -/
def look (action : Tree κ β → Action κ β) : Action κ β := fun t => action t t

end Action

/-- Why a path whose directory is missing cannot be reached. -/
def unreachable (t : Tree κ β) : List κ → IoError
  | [] => .fileNotFound
  | name :: dir =>
      match t.get? (name :: dir) with
      | some (.file _) => .notADirectory
      | some .dir => .fileNotFound
      | none => unreachable t dir

/-- `os.mkdir`. -/
def mkdir (path : List κ) : Action κ β := fun t =>
  if t.get? path = none then
    if reached : t.reaches path = true then
      (t.set path .dir ⟨reached, fun _ => rfl⟩, none)
    else (t, some (unreachable t path.tail))
  else (t, some .fileExists)

/-- `path.mkdir(parents=True, exist_ok=True)`. -/
def mkdirs : List κ → Action κ β
  | [] => .when (fun t => !t.isDir []) (mkdir [])
  | name :: dir => .when (fun t => !t.isDir (name :: dir)) fun t =>
      match mkdir (name :: dir) t with
      | (_, some .fileNotFound) => (mkdirs dir).andThen (mkdir (name :: dir)) t
      | result => result

/-- `path.write_text`. -/
def write (path : List κ) (content : β) : Action κ β := fun t =>
  if reached : t.reaches path = true then
    if notDir : t.isDir path = true then (t, some .isADirectory)
    else (t.set path (.file content) ⟨reached, fun present => absurd present notDir⟩, none)
  else (t, some (unreachable t path.tail))

/-! ## What stays -/

/-- What held before the action holds after it, also after an error. -/
def Maintains (I : Tree κ β → Prop) (action : Action κ β) : Prop := ∀ t, I t → I (action t).1

theorem maintains_done {I : Tree κ β → Prop} : Maintains I Action.done := fun _ holds => holds

theorem maintains_andThen {I : Tree κ β → Prop} {first second : Action κ β}
    (maintains : Maintains I first) (maintains' : Maintains I second) :
    Maintains I (first.andThen second) := by
  intro t holds
  have between := maintains t holds
  simp only [Action.andThen]
  cases run : first t with
  | mk t' error =>
      rw [run] at between
      cases error with
      | none => exact maintains' t' between
      | some error => exact between

theorem maintains_sequence {I : Tree κ β → Prop} {actions : List (Action κ β)}
    (maintains : ∀ action ∈ actions, Maintains I action) : Maintains I (Action.sequence actions) := by
  induction actions with
  | nil => exact maintains_done
  | cons action rest inductionHypothesis =>
      apply maintains_andThen (maintains action List.mem_cons_self)
      exact inductionHypothesis fun other member => maintains other (List.mem_cons_of_mem action member)

theorem maintains_when {I : Tree κ β → Prop} {test : Tree κ β → Bool} {action : Action κ β}
    (maintains : ∀ t, test t = true → I t → I (action t).1) : Maintains I (Action.when test action) := by
  intro t holds
  simp only [Action.when]
  split
  · next tested => exact maintains t tested holds
  · exact holds

/-- Creating a directory changes no file. -/
theorem maintains_mkdir (path other : List κ) (content : β) :
    Maintains (fun t => t.content? other = some content) (mkdir path) := by
  intro t present
  simp only [mkdir]
  split
  · next absent =>
      split
      · rw [Tree.content?_eq_some] at present ⊢
        rw [Tree.get?_set]
        split
        · next here =>
            rw [here, absent] at present
            cases present
        · exact present
      · exact present
  · exact present

theorem maintains_mkdirs (path other : List κ) (content : β) :
    Maintains (fun t => t.content? other = some content) (mkdirs path) := by
  induction path with
  | nil => exact maintains_when fun t _ => maintains_mkdir [] other content t
  | cons name dir inductionHypothesis =>
      apply maintains_when
      intro t _ present
      have single := maintains_mkdir (name :: dir) other content
      have alone := single t present
      split
      · exact maintains_andThen inductionHypothesis single t present
      · exact alone

/-- Writing a file changes no other file. -/
theorem maintains_write {path other : List κ} (different : other ≠ path) (content written : β) :
    Maintains (fun t => t.content? other = some content) (write path written) := by
  intro t present
  simp only [write]
  split
  · split
    · exact present
    · rw [Tree.content?_eq_some] at present ⊢
      rw [Tree.get?_set, if_neg different]
      exact present
  · exact present

/-- What is a file stays one. -/
theorem isFile_write (path other : List κ) (written : β) :
    Maintains (fun t => t.isFile other = true) (write path written) := by
  intro t present
  by_cases here : other = path
  · subst here
    simp only [write]
    split
    · split
      · exact present
      · simp only [Tree.isFile, Tree.content?]
        rw [Tree.get?_set, if_pos rfl]
        rfl
    · exact present
  · rcases Option.isSome_iff_exists.1 present with ⟨content, found⟩
    have still := maintains_write here content written t found
    exact Option.isSome_iff_exists.2 ⟨content, still⟩

end Ocfs2Coverage.FileTree
