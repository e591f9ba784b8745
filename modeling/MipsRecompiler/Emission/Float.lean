import MipsRecompiler.Emission.Basic

/-!
# The floating point unit

How values move between 32 bit operands and register slots. Without 32 full registers an odd
register is the upper half of its even neighbour's slot.
-/

set_option autoImplicit false

namespace MipsRecompiler.Emission

open Ir

/-- Leaves the block unless the floating point unit is usable. A block checks this once. -/
def checkFloatUsable : Emit Unit := do
  if (← get).floatChecked then return
  modify fun progress => { progress with floatChecked := true }
  let status ← push (.loadState (.control 12))
  let mask ← constant .u64 0x20000000
  let enabled ← binary .and status mask
  let nothing ← constant .u64 0
  let disabled ← check .eq enabled nothing
  raiseIf disabled (.coprocessorUnusable 1)

/-- Shifts a whole register by a fixed amount. -/
def shiftBy (op : ShiftOp) (value : ValueId) (amount : DoubleWord) : Emit ValueId := do
  let amount ← constant .u8 amount
  push (.shift op .double value amount)

def hasFullFloats : Emit Bool := do
  return (← read).configuration.fullFloatRegisters

/-- The 32 bit view of a register, in the low word. The upper word may hold anything. -/
def readFloat32 (reg : RegisterNumber) : Emit ValueId := do
  if CpuState.usesUpperHalf (← hasFullFloats) reg then
    let pair ← loadRegister (.float (CpuState.evenOf reg))
    let pair ← toClass .general pair
    let high ← shiftBy .rightLogical pair 32
    toClass .float high
  else loadRegister (.float reg)

/-- The low word of a value, with the upper word clear. -/
def lowWord (value : ValueId) (isClean : Bool) : Emit ValueId := do
  if isClean then return value else cast .u32 value

/-- Writes the low word of a value to a register. A clean value has nothing in its upper word. -/
def writeFloat32 (reg : RegisterNumber) (value : ValueId) (isClean : Bool) : Emit Unit := do
  if ← hasFullFloats then
    let low ← if isClean then pure value else cast .u32 (← toClass .general value)
    bindRegister (.float reg) (← toClass .float low)
  else
    let slot := GuestRegister.float (CpuState.evenOf reg)
    let old ← loadRegister slot
    let old ← toClass .general old
    let value ← toClass .general value
    let merged ←
      if reg.val % 2 = 0 then do
        let mask ← constant .u64 0xffffffff00000000
        let high ← binary .and old mask
        let low ← lowWord value isClean
        binary .or high low
      else do
        let low ← cast .u32 old
        let high ← shiftBy .left value 32
        binary .or high low
    bindRegister slot (← toClass .float merged)

def doubleSlot (reg : RegisterNumber) : Emit GuestRegister := do
  return .float (CpuState.doubleSlot (← hasFullFloats) reg)

def readFloat64 (reg : RegisterNumber) : Emit ValueId := do
  loadRegister (← doubleSlot reg)

def writeFloat64 (reg : RegisterNumber) (value : ValueId) : Emit Unit := do
  let slot ← doubleSlot reg
  bindRegister slot (← toClass .float value)

def readFloat (format : FloatFormat) (reg : RegisterNumber) : Emit ValueId :=
  if format.is64Bit then readFloat64 reg else readFloat32 reg

def writeFloat (format : FloatFormat) (reg : RegisterNumber) (value : ValueId)
    (isClean : Bool) : Emit Unit :=
  if format.is64Bit then writeFloat64 reg value else writeFloat32 reg value isClean

def moveFromFloat (double : Bool) : Emit Unit := do
  let inst ← theInstruction
  let value ←
    if double then do
      toClass .general (← readFloat64 inst.rd)
    else do
      cast .s32 (← toClass .general (← readFloat32 inst.rd))
  setGpr inst.rt value

def moveToFloat (double : Bool) : Emit Unit := do
  let inst ← theInstruction
  let value ← gpr inst.rt
  if double then writeFloat64 inst.rd value else writeFloat32 inst.rd value false

def moveFromFloatControl : Emit Unit := do
  let inst ← theInstruction
  let value ← match inst.rd with
    | 0 => constant .u64 CpuState.floatRevision
    | 31 => do cast .s32 (← push (.loadState .fcr31))
    | _ => constant .u64 0
  setGpr inst.rt value

/-- Writes a floating point control register. Only one of them can be written. -/
def moveToFloatControl : Emit Unit := do
  let inst ← theInstruction
  if inst.rd = 31 then
    let value ← gpr inst.rt
    let mask ← constant .u64 (CpuState.floatControlBits.setWidth 64)
    let _ ← push (.storeState .fcr31 (← binary .and value mask))

/-- What an instruction word says, unless that is reserved. -/
def legally {α : Type} (result : Except IllegalInstruction α) : Emit α :=
  match result with
  | .ok value => return value
  | .error reason => throw (.illegal reason)

def arithmeticFormat : Emit FloatFormat := do
  let entry := (← read).entry
  legally (entry.inst.arithmeticFormat entry.pc)

def floatArithmetic (op : FloatOp) : Emit Unit := do
  let format ← arithmeticFormat
  let inst ← theInstruction
  let lhs ← readFloat format inst.fs
  let rhs ← readFloat format inst.ft
  let result ← push (.floatBinary op format lhs rhs)
  writeFloat format inst.fd result true

def floatUnary (op : FloatUnaryOp) : Emit Unit := do
  let format ← arithmeticFormat
  let inst ← theInstruction
  let operand ← readFloat format inst.fs
  let result ← push (.floatUnary op format operand)
  writeFloat format inst.fd result true

def floatMove : Emit Unit := do
  let format ← arithmeticFormat
  let inst ← theInstruction
  let value ← readFloat format inst.fs
  writeFloat format inst.fd value false

def floatConvert (target : FloatFormat) (mode : RoundMode) : Emit Unit := do
  let entry := (← read).entry
  let source ← legally (entry.inst.conversionSource entry.pc target)
  let operand ← readFloat source entry.inst.fs
  let result ← push (.floatConvert source target mode operand)
  writeFloat target entry.inst.fd result true

def floatCompare : Emit Unit := do
  let format ← arithmeticFormat
  let inst ← theInstruction
  let lhs ← readFloat format inst.fs
  let rhs ← readFloat format inst.ft
  let _ ← push (.floatCompare (BitVec.ofNat 8 inst.condition.val) format lhs rhs)

end MipsRecompiler.Emission
