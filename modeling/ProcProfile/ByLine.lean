import Std.Data.TreeMap

/-!
# Lists by line

Statements and rows are gathered by the line on which they stand.  What is gathered under one line stays in the
order in which it came.

Main definitions: `ByLine`, `ByLine.push`, `ByLine.on`.
-/

namespace ProcProfile

/-- What stands on each line. -/
abbrev ByLine (α : Type) := Std.TreeMap Int32 (Array α)

namespace ByLine

variable {α : Type}

/-- Adds to what stands on a line. -/
def push (byLine : ByLine α) (line : Int32) (a : α) : ByLine α :=
  byLine.alter line fun onLine => some ((onLine.getD #[]).push a)

/-- What stands on a line. -/
def on (byLine : ByLine α) (line : Int32) : Array α := byLine.getD line #[]

@[simp] theorem on_empty (line : Int32) : on (∅ : ByLine α) line = #[] := by
  simp [on]

theorem on_push (byLine : ByLine α) (line line' : Int32) (a : α) :
    (byLine.push line a).on line' = if line = line' then (byLine.on line').push a else byLine.on line' := by
  simp only [on, push, Std.TreeMap.getD_eq_getD_getElem?, Std.TreeMap.getElem?_alter, Std.LawfulEqCmp.compare_eq_iff_eq]
  split
  · rename_i h
    subst h
    simp
  · rfl

end ByLine

end ProcProfile
