/-!
# Finite enumerations

A type with finitely many values listed in a fixed order, each with a written name. The position
in the list is the value's code, and `ofCode?_code` says that codes read back.
-/

set_option autoImplicit false

namespace MipsRecompiler

/-- A type whose values are all listed once, in a fixed order, and named. -/
class Enumeration (α : Type) [DecidableEq α] where
  /-- Every value, in code order. -/
  all : List α
  /-- The written name of a value. -/
  name : α → String
  /-- No value is missing from the list. -/
  mem_all : ∀ value : α, value ∈ all

namespace Enumeration

variable {α : Type} [DecidableEq α] [Enumeration α]

/-- The code of a value: its position among all values. -/
def code (value : α) : Nat :=
  (all : List α).idxOf value

def ofCode? (n : Nat) : Option α :=
  (all : List α)[n]?

def ofName? (text : String) : Option α :=
  (all : List α).find? fun value => name value == text

/-- A code reads back as the value it was written for. -/
theorem ofCode?_code (value : α) : ofCode? (code value) = some value := by
  have bound : (all : List α).idxOf value < (all : List α).length :=
    List.idxOf_lt_length_iff.mpr (mem_all value)
  simp [ofCode?, code, List.getElem?_eq_getElem bound]

end Enumeration

end MipsRecompiler
