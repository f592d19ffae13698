import Mathlib.Tactic.Common

/-!
# Columns of plain JSON in a session

An object-relational session loads the object of a column, hands it out, and writes the
column at its flush only when the object that was assigned differs from the one it loaded.
A loaded object that is changed in place and assigned again is that very object, so the
change is lost; a new object is written.
-/

namespace Python

variable {α : Type*}

/-- The object an attribute holds; `loaded` says that it is the one that was loaded. -/
structure Held (α : Type*) where
  value : α
  loaded : Bool

namespace Held

/-- The object of a column. -/
def load (stored : α) : Held α := ⟨stored, true⟩

/-- `h or value`, with a new object for the second. -/
def orNew (truthy : α → Bool) (value : α) (h : Held α) : Held α :=
  if truthy h.value then h else ⟨value, false⟩

/-- Change an object in place. -/
def mutate (f : α → α) (h : Held α) : Held α := { h with value := f h.value }

/-- What a flush leaves in the column an object was assigned to. -/
def flush (stored : α) (h : Held α) : α := if h.loaded then stored else h.value

variable (truthy : α → Bool) (value stored : α) (f : α → α)

@[simp] theorem mutate_value (h : Held α) : (h.mutate f).value = f h.value := rfl

theorem orNew_value : ((load stored).orNew truthy value).value =
    if truthy stored then stored else value := by
  unfold orNew load
  split_ifs <;> rfl

/-- **A true object loses the change**, and a new one keeps it. -/
theorem flush_mutate : (((load stored).orNew truthy value).mutate f).flush stored =
    if truthy stored then stored else f value := by
  unfold orNew load mutate flush
  split_ifs <;> simp_all

end Held

end Python
