import MipsRecompiler.Emission.Branch
import MipsRecompiler.Emission.Memory

/-!
# From units to blocks

A unit becomes a block: the values of its instructions in order, then the write-back of every
changed register, and where the guest continues.
-/

set_option autoImplicit false

namespace MipsRecompiler.Emission

open Ir

/-- The second operand of arithmetic in this form. Traps compare with a sign extended immediate,
also when the comparison is unsigned. -/
def secondOperand (form : Form) : Emit ValueId := do
  let inst ← theInstruction
  match form with
  | .immediate true | .trapImmediate _ => constant .s16 inst.signedImmediate
  | .immediate false => constant .u16 inst.unsignedImmediate
  | _ => gpr inst.rt

def arithmeticTarget (inst : Instruction) : Form → RegisterNumber
  | .immediate _ => inst.rt
  | _ => inst.rd

def arithmetic (form : Form) (compute : ValueId → ValueId → Emit ValueId) : Emit Unit := do
  let inst ← theInstruction
  let lhs ← gpr inst.rs
  let rhs ← secondOperand form
  let result ← compute lhs rhs
  setGpr (arithmeticTarget inst form) result

/-- A sum or difference cut to 32 bits. -/
def wordResult (op : BinaryOp) (lhs rhs : ValueId) : Emit ValueId := do
  cast .s32 (← binary op lhs rhs)

def arithmeticResult (operation : Operation) (lhs rhs : ValueId) : Emit ValueId := do
  match operation with
  | .addTrapWord => binary .addTrapWord lhs rhs
  | .addTrapDouble => binary .addTrapDouble lhs rhs
  | .subTrapWord => binary .subTrapWord lhs rhs
  | .subTrapDouble => binary .subTrapDouble lhs rhs
  | .addWord => wordResult .add lhs rhs
  | .subWord => wordResult .sub lhs rhs
  | .addDouble => binary .add lhs rhs
  | .subDouble => binary .sub lhs rhs
  | .setLess => check .lt lhs rhs
  | .setLessUnsigned => check .ltU lhs rhs
  | .and => binary .and lhs rhs
  | .or => binary .or lhs rhs
  | .xor => binary .xor lhs rhs
  | .nor => push (.not (← binary .or lhs rhs))
  | _ => throw (.internal (← read).entry.pc "not an ALU op")

def shift (form : Form) (op : ShiftOp) (width : ShiftWidth) : Emit Unit := do
  let inst ← theInstruction
  let amount ← match form with
    | .shiftImmediate offset => constant .u8 (BitVec.ofNat 64 (inst.shiftAmount.val + offset))
    | _ => gpr inst.rs
  let value ← gpr inst.rt
  setGpr inst.rd (← push (.shift op width value amount))

def productField : ProductRegister → StateField
  | .hi => .hi
  | .lo => .lo

def callPlain (routine : Routine) : Emit Unit := do
  let _ ← push (.call routine .none)

/-- Writes a system control register. Status may change, so the floating point unit is checked
again. -/
def moveToControl (double : Bool) : Emit Unit := do
  let inst ← theInstruction
  let value ← gpr inst.rt
  let reg := BitVec.ofNat 8 inst.rd.val
  let _ ← push (.call (.moveToControl reg double) (.one value))
  modify fun progress => { progress with floatChecked := false }

def emitOperation (inst : Instruction) (form : Form) (operation : Operation) : Emit Unit := do
  match operation with
  | .nop | .cacheControl => return
  | .jump => jump false
  | .jumpLink => jump true
  | .jumpRegister => jumpRegister false
  | .jumpRegisterLink => jumpRegister true
  | .branch mode => branch mode (form = .branchTwo) false false
  | .branchLikely mode => branch mode (form = .branchTwo) false true
  | .branchLink mode => branch mode (form = .branchTwo) true false
  | .branchLinkLikely mode => branch mode (form = .branchTwo) true true
  | .branchFloat onTrue likely => branchFloat onTrue likely
  | .addTrapWord | .addTrapDouble | .subTrapWord | .subTrapDouble | .addWord | .subWord
  | .addDouble | .subDouble | .setLess | .setLessUnsigned | .and | .or | .xor | .nor =>
    arithmetic form (arithmeticResult operation)
  | .insertUpper => setGpr inst.rt (← constant .s32 (inst.unsignedImmediate <<< 16))
  | .shift op width => shift form op width
  | .mulDiv op =>
    let lhs ← gpr inst.rs
    let rhs ← gpr inst.rt
    let _ ← push (.mulDiv op lhs rhs)
  | .moveFromProduct source => setGpr inst.rd (← push (.loadState (productField source)))
  | .moveToProduct target =>
    let value ← gpr inst.rs
    let _ ← push (.storeState (productField target) value)
  | .memory size => loadStore form size true
  | .memoryUnsigned size => loadStore form size false
  | .memoryLeft size => loadStorePart form (.loadLeft size) (.storeLeft size)
  | .memoryRight size => loadStorePart form (.loadRight size) (.storeRight size)
  | .memoryLinked size => loadStoreLinked form size
  | .floatMemory size => loadStoreFloat form size
  | .trap mode =>
    let lhs ← gpr inst.rs
    let rhs ← secondOperand form
    raiseIf (← check mode lhs rhs) (.ofCode .trap)
  | .systemCall => raise .syscall
  | .breakpoint => raise .breakpoint
  | .moveFromControl double =>
    let reg := BitVec.ofNat 8 inst.rd.val
    setGpr inst.rt (← push (.call (.moveFromControl reg double) .none))
  | .moveToControl double => moveToControl double
  | .tlbRead => callPlain .tlbRead
  | .tlbWriteIndexed => callPlain .tlbWriteIndexed
  | .tlbWriteRandom => callPlain .tlbWriteRandom
  | .tlbProbe => callPlain .tlbProbe
  | .exceptionReturn =>
    let pc ← push (.call .exceptionReturn .none)
    pushExitPc (.setExitPc pc)
  | .moveFromFloat double => moveFromFloat double
  | .moveToFloat double => moveToFloat double
  | .moveFromFloatControl => moveFromFloatControl
  | .moveToFloatControl => moveToFloatControl
  | .floatArithmetic op => floatArithmetic op
  | .floatUnary op => floatUnary op
  | .floatMove => floatMove
  | .floatConvert target mode => floatConvert target mode
  | .floatCompare => floatCompare

/-- Emits the values of one instruction. What uses the floating point unit checks it first. -/
def emitInstruction : Emit Unit := do
  let entry := (← read).entry
  if entry.operation.usesFloat then checkFloatUsable
  emitOperation entry.inst entry.form entry.operation

/-- Emits the values of instructions that follow each other, and those of a delay slot fault
behind the last one. -/
def emitAll (configuration : Configuration) (fault : Option Fault) :
    Nat → List UnitInstruction → EStateM CompileError Progress Unit
  | _, [] => return
  | index, entry :: rest => do
    let place : Place := { configuration, entry, index }
    emitInstruction place
    match rest, fault with
    | [], some fault => delaySlotFetchFault fault place
    | rest, fault => emitAll configuration fault (index + 1) rest

/-- Writes back every changed register, and continues behind the unit unless the block says
otherwise. -/
def finish (endPc : DoubleWord) (progress : Progress) : Draft :=
  let flushed := progress.draft.flushList.foldl
    (fun draft (reg, value) => (draft.push (.flushRegister reg value)).2) progress.draft
  if progress.exitPcSet then flushed
  else
    let (pc, draft) := flushed.constant .u64 endPc
    (draft.push (.setExitPc pc)).2

end Emission

def CodeUnit.emit (codeUnit : CodeUnit) (configuration : Configuration) :
    Except CompileError Ir.Block :=
  if codeUnit.instructions.isEmpty then .ok .empty
  else
    match Emission.emitAll configuration codeUnit.delaySlotFault 0 codeUnit.instructions
      .empty with
    | .ok () progress => .ok (Emission.finish codeUnit.endPc progress).block
    | .error reason _ => .error reason

end MipsRecompiler
