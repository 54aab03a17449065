import Mathlib.Data.Char
import Mathlib.Data.List.Lex
import Ocfs2Coverage.Hits.Files

/-!
Contract: the source tree as `generate` reads it.

Owns: relative paths, the order of `sorted(src.rglob("*.c"))` and the records
made of the parsed files.

Does not own: how a file is parsed, decoding.

A path of the tree holds no backslash and no line break. `generate` would turn
the former into a separator.
-/

namespace Ocfs2Coverage.Report

open Ocfs2Coverage.Python
open Ocfs2Coverage.Source
open Ocfs2Coverage.Hits

/-- What a component of a relative path may be. -/
structure PlainPart (part : Str) : Prop where
  nonempty : part ≠ []
  notDot : part ≠ ".".toList
  plain : ∀ c ∈ part, c ≠ '/' ∧ c ≠ '\\' ∧ isLineBreak c = false

instance (part : Str) : Decidable (PlainPart part) :=
  decidable_of_iff (part ≠ [] ∧ part ≠ ".".toList ∧
      ∀ c ∈ part, c ≠ '/' ∧ c ≠ '\\' ∧ isLineBreak c = false)
    ⟨fun all => ⟨all.1, all.2.1, all.2.2⟩, fun part => ⟨part.nonempty, part.notDot, part.plain⟩⟩

/-- A normalised relative path. -/
structure RelPath where
  parts : List Str
  nonempty : parts ≠ []
  plain : ∀ part ∈ parts, PlainPart part

/-- `str(path.relative_to(src))`. -/
def RelPath.text (path : RelPath) : Str := join "/".toList path.parts

theorem mem_text {path : RelPath} {c : Char} (member : c ∈ path.text) :
    c ≠ '\\' ∧ isLineBreak c = false := by
  by_cases slash : c = '/'
  · subst slash
    decide
  · obtain ⟨part, listed, inside⟩ := (mem_join slash).1 member
    have plain := (path.plain part listed).plain c inside
    exact ⟨plain.2.1, plain.2.2⟩

/-- The text of a path determines its components. -/
theorem parts_of_text {path other : RelPath} (equal : path.text = other.text) :
    path.parts = other.parts := by
  have split : ∀ p : RelPath, p.text.splitOn '/' = p.parts := by
    intro p
    apply List.splitOn_intercalate
    · intro part listed member
      exact ((p.plain part listed).plain '/' member).1 rfl
    · exact p.nonempty
  rw [← split path, equal, split other]

/-- A normalised relative path without a backslash or a line separator. -/
def Normalised (rel : Str) : Prop := ∃ path : RelPath, rel = path.text

structure TreeFile where
  path : RelPath
  text : Str

/-- The C files below `--src`. -/
structure SourceTree where
  found : List TreeFile
  distinct : (found.map fun file => file.path.parts).Nodup

/-- Paths compare by their components. -/
def SourceTree.sorted (tree : SourceTree) : List TreeFile :=
  tree.found.insertionSort fun file other => file.path.parts ≤ other.path.parts

section Records

variable [UnicodeData]

/-- The record of a file before it has hits. -/
def readFile (file : TreeFile) : SourceFile :=
  parsedFile (replaceChar '\\' '/' file.path.text) file.text

/-- The loop over `c_files`. -/
def readTree (tree : SourceTree) : List CoverageFile :=
  tree.sorted.map fun file => { source := readFile file, hits := ∅ }

theorem rel_readFile (file : TreeFile) : (readFile file).rel = file.path.text :=
  replaceChar_of_notMem fun member => (mem_text member).1 rfl

theorem normalised_readTree (tree : SourceTree) :
    ∀ f ∈ readTree tree, Normalised f.source.rel := by
  intro f member
  obtain ⟨file, -, rfl⟩ := List.mem_map.1 member
  exact ⟨file.path, rel_readFile file⟩

theorem distinct_readTree (tree : SourceTree) :
    ((readTree tree).map fun f => f.source.rel).Nodup := by
  have parts : (tree.sorted.map fun file => file.path.parts).Nodup :=
    ((List.perm_insertionSort _ tree.found).map _).nodup_iff.2 tree.distinct
  simp only [readTree]
  rw [List.map_map]
  apply List.pairwise_map.2
  apply (List.pairwise_map.1 parts).imp
  intro file other different equal
  apply different
  apply parts_of_text
  rw [← rel_readFile file, ← rel_readFile other]
  exact equal

theorem hits_readTree (tree : SourceTree) : ∀ f ∈ readTree tree, f.hits = ∅ := by
  intro f member
  obtain ⟨file, -, rfl⟩ := List.mem_map.1 member
  rfl

end Records

/-! ## A tree of three files -/

def topFile (name text : Str) (plain : PlainPart name) : TreeFile :=
  { path := ⟨[name], by simp, by simpa using plain⟩, text }

/-- Behind the unbraced body, `bar` and `baz` are straight-line code. -/
def unbracedText : Str :=
  "int f(int x)\n\x7b\n\tif (x)\n\t\tfoo();\n\tbar();\n\tbaz();\n\x7d\n".toList

def plainText : Str := "int g(void)\n\x7b\n\treturn 0;\n\x7d\n".toList

theorem plainPart_a : PlainPart "a.c".toList := by decide

def sampleTree : SourceTree where
  found := [topFile "a.c".toList unbracedText plainPart_a,
    topFile "b.c".toList plainText (by decide), topFile "c.c".toList plainText (by decide)]
  distinct := by decide

end Ocfs2Coverage.Report
