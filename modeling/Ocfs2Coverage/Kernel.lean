import Mathlib.Logic.Basic

/-!
Contract: the assertions of the kernel.

Owns: what is left of a node when an assertion fails.

Does not own: which conditions are asserted.
-/

namespace Ocfs2Coverage.Kernel

/-- `BUG_ON` and `mlog_bug_on_msg`: the node does not survive a condition that holds. -/
def bugOn {α : Type} (condition : Prop) [Decidable condition] (next : Option α) : Option α :=
  if condition then none else next

@[simp] theorem bugOn_eq_some {α : Type} {condition : Prop} [Decidable condition]
    {next : Option α} {a : α} : bugOn condition next = some a ↔ ¬ condition ∧ next = some a := by
  simp only [bugOn]
  split
  · next bug => simp [bug]
  · next fine => simp [fine]

end Ocfs2Coverage.Kernel
