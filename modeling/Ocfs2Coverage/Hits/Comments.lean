import Ocfs2Coverage.Hits.Files
import Ocfs2Coverage.Source.CodeView

/-!
Contract: the blocks of two texts with the same code.

Owns: the exact condition under which corresponding executable lines of two texts
share blocks alike, and the comments that do not matter.
-/

namespace Ocfs2Coverage.Hits

open Ocfs2Coverage.Python
open Ocfs2Coverage.Source

section Comments

variable [UnicodeData]

/-- Two executable lines of the one file share a block if and only if the lines at the
same places of the other file do. -/
def SharesAlike (f g : SourceFile) : Prop :=
  ∀ i j a b a' b' : Nat, f.lines[i]? = some a → f.lines[j]? = some b → g.lines[i]? = some a' →
    g.lines[j]? = some b' → (f.blockOf a = f.blockOf b ↔ g.blockOf a' = g.blockOf b')

theorem blocks_parsedFile (rel text : Str) :
    (parsedFile rel text).lines.map (parsedFile rel text).blockOf = counted 0 (rawStarts text) := by
  have scanned : (parsedFile rel text).lines = execLines (splitlines text) := keys_kindTable text rel
  have block : (parsedFile rel text).blockOf =
      Source.blockOf (splitlines text) (execLines (splitlines text)) := by
    funext ln
    rw [SourceFile.blockOf_eq, scanned]
    rfl
  rw [block, scanned]
  exact blocks_eq_counted text

theorem length_rawStarts (rel text : Str) :
    (rawStarts text).length = (parsedFile rel text).lines.length := by
  have lengths := congrArg List.length (blocks_parsedFile rel text)
  rw [List.length_map, length_counted] at lengths
  exact lengths.symm

/-- The block of an executable line, by its place. -/
theorem blockOf_counted {rel text : Str} {k a : Nat}
    (listed : (parsedFile rel text).lines[k]? = some a) :
    (counted 0 (rawStarts text))[k]? = some ((parsedFile rel text).blockOf a) := by
  rw [← blocks_parsedFile rel text, List.getElem?_map, listed]
  rfl

theorem starts_of_sharesAlike {rel text rel' other : Str}
    (lengths : (rawStarts text).length = (rawStarts other).length)
    (alike : SharesAlike (parsedFile rel text) (parsedFile rel' other)) :
    rawStarts text = rawStarts other := by
  apply List.ext_getElem?
  intro k
  by_cases inside : k < (rawStarts text).length
  · have insideOther : k < (rawStarts other).length := by omega
    have here := List.getElem?_eq_getElem inside
    have there := List.getElem?_eq_getElem insideOther
    cases k with
    | zero =>
        -- The first executable line starts a block in either text.
        have first := LineState.head_lineStarts rfl ((splitlines text).map strip) _ here
        have second := LineState.head_lineStarts rfl ((splitlines other).map strip) _ there
        rw [here, there, first, second]
    | succ k =>
        have places : ∀ i, i < (rawStarts text).length →
            ∃ a b, (parsedFile rel text).lines[i]? = some a ∧
              (parsedFile rel' other).lines[i]? = some b := by
          intro i below
          have insideF : i < (parsedFile rel text).lines.length := by
            rw [← length_rawStarts]
            exact below
          have insideG : i < (parsedFile rel' other).lines.length := by
            rw [← length_rawStarts]
            omega
          exact ⟨_, _, List.getElem?_eq_getElem insideF, List.getElem?_eq_getElem insideG⟩
        obtain ⟨a, a', firstF, firstG⟩ := places k (by omega)
        obtain ⟨b, b', secondF, secondG⟩ := places (k + 1) inside
        have same := alike k (k + 1) a b a' b' firstF secondF firstG secondG
        have border := counted_border (blockOf_counted firstF) (blockOf_counted secondF)
        have border' := counted_border (blockOf_counted firstG) (blockOf_counted secondG)
        have both : (rawStarts text)[k + 1]? = some true ↔ (rawStarts other)[k + 1]? = some true := by
          rw [← border, ← border']
          exact not_congr same
        rw [here, there, Option.some.injEq, Option.some.injEq] at both
        rw [here, there, Option.some.injEq, Bool.eq_iff_iff]
        exact both
  · rw [List.getElem?_eq_none (by omega), List.getElem?_eq_none (by omega)]

theorem sharesAlike_of_starts {rel text rel' other : Str} (same : rawStarts text = rawStarts other) :
    SharesAlike (parsedFile rel text) (parsedFile rel' other) := by
  have place : ∀ k x y : Nat, (parsedFile rel text).lines[k]? = some x →
      (parsedFile rel' other).lines[k]? = some y →
        (parsedFile rel text).blockOf x = (parsedFile rel' other).blockOf y := by
    intro k x y listed listed'
    have entry := blockOf_counted listed
    rw [same, blockOf_counted listed'] at entry
    exact (Option.some.inj entry).symm
  intro i j a b a' b' firstF secondF firstG secondG
  rw [place i a a' firstF firstG, place j b b' secondF secondG]

end Comments

section Sample

attribute [local instance] asciiUnicode

def commentedText : Str := "x = 1; /* set */\nif (y)\n\tz = 2;\n".toList

def bareText : Str := "x = 1;\nif (y)\n\tz = 2;\n".toList

def slashText : Str := "x = 1; // set\nif (y)\n\tz = 2;\n".toList

end Sample

end Ocfs2Coverage.Hits
