import MipsRecompiler.CodeUnit.Basic
import MipsRecompiler.CompileError
import MipsRecompiler.Memory.Bus

/-!
# Forming units

A unit ends behind an instruction that always leaves the block, behind the delay slot of a
branch, or at the end of the page.
-/

set_option autoImplicit false

namespace MipsRecompiler.CodeUnit

structure Collected where
  /-- The instructions so far, the last one first. -/
  reversed : List UnitInstruction
  /-- The words to be watched so far, the last one first. -/
  reversedWords : List Word
  pc : DoubleWord
  physical : Word
  inDelaySlot : Bool
  pulledPage : Option Nat

variable {β : Type} [Bus β]

def finish (startPc : DoubleWord) (startPhysical : Word) (collected : Collected)
    (delaySlotFault : Option Fault) : CodeUnit :=
  { startPc, startPhysical, delaySlotFault
    instructions := collected.reversed.reverse
    sourceWords := collected.reversedWords.reverse
    pulledPage := collected.pulledPage }

/-- Collects at most this many more instructions. A branch that would be left without its delay
slot at the limit is dropped. -/
def collect (tlb : Tlb) (control : SystemControl)
    (done : Collected → Option Fault → CodeUnit) :
    Nat → Collected → EStateM CompileError β CodeUnit
  | 0, collected =>
    if collected.inDelaySlot then
      return done
        { collected with
          reversed := collected.reversed.drop 1
          reversedWords := collected.reversedWords.drop 1 } none
    else return done collected none
  | remaining + 1, collected => do
    let word ← modifyGet fun bus => Bus.fetch bus collected.physical
    let inst : Instruction := ⟨word⟩
    match inst.classify collected.pc with
    | .error reason => throw (.illegal reason)
    | .ok (form, operation, category) =>
      if collected.inDelaySlot && category.isBranch then
        throw (.branchInDelaySlot collected.pc)
      let entry : UnitInstruction :=
        { pc := collected.pc, physical := collected.physical, inst, form, operation, category
          delaySlot := collected.inDelaySlot }
      let next : Collected :=
        { collected with
          reversed := entry :: collected.reversed
          reversedWords := collected.physical :: collected.reversedWords
          pc := collected.pc + 4
          physical := collected.physical + 4
          inDelaySlot := category.isBranch }
      if collected.inDelaySlot || category = .blockEnder then return done next none
      else if next.physical.toNat % pageSize ≠ 0 then
        collect tlb control done remaining next
      else if !next.inDelaySlot then return done next none
      else
        match tlb.resolve control next.pc .fetch with
        | .ok physical =>
          collect tlb control done remaining
            { next with physical, pulledPage := some (pageOf physical) }
        | .error fault => return done next (some fault)

def form (tlb : Tlb) (control : SystemControl) (startPc : DoubleWord) (startPhysical : Word) :
    EStateM CompileError β CodeUnit :=
  collect tlb control (finish startPc startPhysical) maxLength
    { reversed := [], reversedWords := [], pc := startPc, physical := startPhysical
      inDelaySlot := false, pulledPage := none }

end MipsRecompiler.CodeUnit
