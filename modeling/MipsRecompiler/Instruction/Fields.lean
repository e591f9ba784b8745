import MipsRecompiler.Word
import MipsRecompiler.Cpu.Names

/-!
# Instruction fields

Where an instruction word keeps its register numbers, immediates and selectors.
-/

set_option autoImplicit false

namespace MipsRecompiler

/-- An instruction word, read field by field. -/
structure Instruction where
  word : Word
  deriving DecidableEq, Repr, Inhabited

namespace Instruction

def register (inst : Instruction) (low : Nat) : RegisterNumber :=
  (inst.word.extractLsb' low 5).toFin

def opcode (inst : Instruction) : Fin 64 := (inst.word.extractLsb' 26 6).toFin

def funct (inst : Instruction) : Fin 64 := (inst.word.extractLsb' 0 6).toFin

/-- The first source register, and the base of an address. -/
def rs (inst : Instruction) : RegisterNumber := inst.register 21

/-- The second source register, and the target of loads and immediate operations. -/
def rt (inst : Instruction) : RegisterNumber := inst.register 16

/-- The target of register operations. -/
def rd (inst : Instruction) : RegisterNumber := inst.register 11

def shiftAmount (inst : Instruction) : Fin 32 := inst.register 6

def format (inst : Instruction) : Fin 32 := inst.register 21

def ft (inst : Instruction) : RegisterNumber := inst.register 16

def fs (inst : Instruction) : RegisterNumber := inst.register 11

def fd (inst : Instruction) : RegisterNumber := inst.register 6

def condition (inst : Instruction) : Fin 16 := (inst.word.extractLsb' 0 4).toFin

def immediate (inst : Instruction) : BitVec 16 := inst.word.extractLsb' 0 16

def signedImmediate (inst : Instruction) : DoubleWord := inst.immediate.signExtend 64

def unsignedImmediate (inst : Instruction) : DoubleWord := inst.immediate.zeroExtend 64

/-- The immediate operand in the upper half of a word, as a register holds it. -/
def upperImmediate (inst : Instruction) : DoubleWord :=
  signExtendWord (inst.unsignedImmediate <<< 16)

/-- Where a relative branch at `pc` goes: the offset counts instructions from the delay slot. -/
def branchTarget (inst : Instruction) (pc : DoubleWord) : DoubleWord :=
  pc + 4 + (inst.signedImmediate <<< 2)

/-- Where an absolute jump at `pc` goes: within the 256 MiB that hold the delay slot. -/
def jumpTarget (inst : Instruction) (pc : DoubleWord) : DoubleWord :=
  ((pc + 4) &&& ~~~(0x0fffffff : DoubleWord)) |||
    (((inst.word.extractLsb' 0 26).zeroExtend 64) <<< 2)

end Instruction

end MipsRecompiler
