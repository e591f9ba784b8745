import MipsRecompiler.Word

/-!
# Register files

The processor keeps its general, floating point and system control registers in three files of
the same shape. `read_write` describes a file by the values that its registers show.
-/

set_option autoImplicit false

namespace MipsRecompiler

abbrev RegisterNumber := Fin 32

/-- Lets numerals stand for register numbers. -/
instance RegisterNumber.neZero : @NeZero Nat Zero.ofOfNat0 32 := ⟨Nat.succ_ne_zero 31⟩

abbrev RegisterFile := Vector DoubleWord 32

namespace RegisterFile

def clear : RegisterFile := Vector.replicate 32 0

def read (file : RegisterFile) (reg : RegisterNumber) : DoubleWord :=
  file[reg]

def write (file : RegisterFile) (reg : RegisterNumber) (value : DoubleWord) : RegisterFile :=
  file.set reg.val value

/-- A write shows in its own register and in no other. -/
theorem read_write (file : RegisterFile) (target reg : RegisterNumber) (value : DoubleWord) :
    (file.write target value).read reg = if target = reg then value else file.read reg := by
  simp [read, write, Vector.getElem_set, Fin.ext_iff]

end RegisterFile

end MipsRecompiler
