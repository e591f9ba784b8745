import MipsRecompiler.Emission.Basic

/-!
# Jumps and branches

A branch says where the guest continues behind its delay slot. A likely branch that is not taken
leaves the block before the delay slot.
-/

set_option autoImplicit false

namespace MipsRecompiler.Emission

open Ir

def behindDelaySlot : Emit DoubleWord := do
  return (← read).entry.pc + 8

def link (reg : RegisterNumber) : Emit Unit := do
  let target ← constant .u64 (← behindDelaySlot)
  setGpr reg target

def jump (linking : Bool) : Emit Unit := do
  let entry := (← read).entry
  let target ← constant .u64 (entry.inst.jumpTarget entry.pc)
  if linking then link 31
  pushExitPc (.setExitPc target)

/-- Continues at the address in a register, which is read before a link is written. -/
def jumpRegister (linking : Bool) : Emit Unit := do
  let inst ← theInstruction
  let target ← gpr inst.rs
  if linking then link inst.rd
  pushExitPc (.setExitPc target)

/-- Continues at the branch target if a value is not zero, else behind the delay slot. -/
def branchIf (condition : ValueId) (likely : Bool) : Emit Unit := do
  let entry := (← read).entry
  let behind ← behindDelaySlot
  let taken ← constant .u64 (entry.inst.branchTarget entry.pc)
  let notTaken ← constant .u64 behind
  pushExitPc (.setExitPcIf condition taken notTaken)
  if likely then
    let one ← constant .u64 1
    let skipped ← binary .xor condition one
    let _ ← pushRaising (.exitIf skipped (.branch behind))

/-- Branches on a comparison of one register with zero, or of two registers. -/
def branch (mode : Comparison) (comparesTwo linking likely : Bool) : Emit Unit := do
  let inst ← theInstruction
  let lhs ← gpr inst.rs
  let rhs ← if comparesTwo then gpr inst.rt else constant .u64 0
  let condition ← check mode lhs rhs
  if linking then link 31
  branchIf condition likely

def branchFloat (onTrue likely : Bool) : Emit Unit := do
  let fcr31 ← push (.loadState .fcr31)
  let mask ← constant .u64 (CpuState.floatConditionBit.setWidth 64)
  let bit ← binary .and fcr31 mask
  let nothing ← constant .u64 0
  let condition ← check (if onTrue then .ne else .eq) bit nothing
  branchIf condition likely

/-- Leaves the block because the delay slot of its last instruction cannot be fetched. The slot
counts as executed. -/
def delaySlotFetchFault (fault : Fault) : Emit Unit := do
  let place ← read
  let always ← constant .u64 1
  let descriptor : ExceptionDescriptor :=
    { cause := .ofFault fault, pc := place.entry.pc, delaySlot := true }
  let _ ← onDraft fun draft =>
    draft.pushWithSite (.exitIf always (.exception descriptor))
      { pc := place.entry.pc
        delaySlot := true
        retired := BitVec.ofNat 32 (place.index + 2)
        flush := draft.flushList }

end MipsRecompiler.Emission
