import MipsRecompiler.CodeUnit.Category
import MipsRecompiler.Memory.Tlb

/-!
# Units of guest code

What is compiled at a time: instructions that follow each other on one page. Only a delay slot
may come from the next page, so that a branch is never cut off from it.
-/

set_option autoImplicit false

namespace MipsRecompiler

structure UnitInstruction where
  pc : DoubleWord
  physical : Word
  inst : Instruction
  form : Form
  operation : Operation
  category : Category
  delaySlot : Bool
  deriving DecidableEq, Repr

structure CodeUnit where
  startPc : DoubleWord
  startPhysical : Word
  instructions : List UnitInstruction
  /-- Why the delay slot of the last branch cannot be fetched. -/
  delaySlotFault : Option Fault
  /-- The physical addresses of the words that have to be watched for changes. -/
  sourceWords : List Word := []
  /-- The physical page that the delay slot was fetched from, if the branch ended a page. -/
  pulledPage : Option Nat
  deriving DecidableEq, Repr

namespace CodeUnit

def pageSize : Nat := 4096

/-- The most instructions of a unit: a page full, and a delay slot behind it. -/
def maxLength : Nat := 1025

def pageOf (physical : Word) : Nat :=
  physical.toNat / pageSize

def length (codeUnit : CodeUnit) : Nat :=
  codeUnit.instructions.length

def endPc (codeUnit : CodeUnit) : DoubleWord :=
  codeUnit.startPc + BitVec.ofNat 64 (4 * codeUnit.length)

/-- Whether the unit only waits for an interrupt: a jump or unconditional branch to itself, with
nothing in its delay slot. -/
def isIdleLoop (codeUnit : CodeUnit) : Bool :=
  match codeUnit.instructions with
  | [branch, slot] =>
    slot.inst.word == 0 &&
      (branch.inst.word == 0x1000ffff ||
        (branch.operation == .jump && branch.inst.jumpTarget branch.pc == branch.pc))
  | _ => false

end CodeUnit

end MipsRecompiler
