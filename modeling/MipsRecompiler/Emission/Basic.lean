import MipsRecompiler.CodeUnit.Basic
import MipsRecompiler.CompileError
import MipsRecompiler.Ir.Block

/-!
# Emitting values

Each instruction of a unit appends values to a draft, in order. A register that an
instruction writes is only bound to its new value; it is written back at the end of the block, or
by an exit that needs the precise state.
-/

set_option autoImplicit false

namespace MipsRecompiler

open Ir

/-- What a block depends on besides the instructions it is made from. -/
structure Configuration where
  /-- Whether there are 32 full floating point registers, or 16 pairs. -/
  fullFloatRegisters : Bool
  deriving DecidableEq, Repr

namespace Configuration

def clear : Configuration := ⟨false⟩

instance : Inhabited Configuration := ⟨clear⟩

def current (control : SystemControl) : Configuration :=
  ⟨control.fullFloatRegisters⟩

end Configuration

namespace Emission

/-- The instruction that values are emitted for. -/
structure Place where
  configuration : Configuration
  entry : UnitInstruction
  /-- The number of instructions before it in the unit. -/
  index : Nat

structure Progress where
  draft : Draft
  floatChecked : Bool
  exitPcSet : Bool

def Progress.empty : Progress := ⟨.empty, false, false⟩

/-- Emits values, unless the instruction turns out to be reserved. What was emitted before that
stays. -/
abbrev Emit : Type → Type :=
  ReaderT Place (EStateM CompileError Progress)

def theInstruction : Emit Instruction := do
  return (← read).entry.inst

def onDraft {α : Type} (change : Draft → α × Draft) : Emit α :=
  modifyGet fun ⟨draft, floatChecked, exitPcSet⟩ =>
    let (value, draft) := change draft
    (value, ⟨draft, floatChecked, exitPcSet⟩)

def push (kind : Kind) : Emit ValueId :=
  onDraft (·.push kind)

def constant (type : ValueType) (value : DoubleWord) : Emit ValueId :=
  onDraft (·.constant type value)

def loadRegister (reg : GuestRegister) : Emit ValueId :=
  onDraft (·.loadRegister reg)

def bindRegister (reg : GuestRegister) (value : ValueId) : Emit Unit :=
  onDraft fun draft => ((), draft.bind reg value)

def gpr (reg : RegisterNumber) : Emit ValueId :=
  loadRegister (.general reg)

def setGpr (reg : RegisterNumber) (value : ValueId) : Emit Unit :=
  bindRegister (.general reg) value

def kindOf (id : ValueId) : Emit Kind := do
  return (← get).draft.block.kind id

/-- The address that an exception of the instruction reports: in a delay slot, its branch. -/
def Place.exceptionPc (place : Place) : DoubleWord :=
  if place.entry.delaySlot then place.entry.pc - 4 else place.entry.pc

def Place.exception (place : Place) (cause : ExceptionCause) : ExceptionDescriptor :=
  { cause, pc := place.exceptionPc, delaySlot := place.entry.delaySlot }

/-- The exit site of a value of the instruction, which counts as executed. -/
def Place.site (place : Place) (draft : Draft) : ExitSite :=
  { pc := place.exceptionPc
    delaySlot := place.entry.delaySlot
    retired := BitVec.ofNat 32 (place.index + 1)
    flush := draft.flushList }

/-- Emits a value that can leave the block. -/
def pushRaising (kind : Kind) : Emit ValueId := do
  let place ← read
  onDraft fun draft => draft.pushWithSite kind (place.site draft)

/-- Emits a binary operation. One that traps can leave the block. -/
def binary (op : BinaryOp) (lhs rhs : ValueId) : Emit ValueId :=
  if op.traps then pushRaising (.binary op lhs rhs) else push (.binary op lhs rhs)

def cast (type : ValueType) (operand : ValueId) : Emit ValueId :=
  push (.cast type operand)

def check (mode : Comparison) (lhs rhs : ValueId) : Emit ValueId :=
  push (.check mode lhs rhs)

def raiseIf (condition : ValueId) (cause : ExceptionCause) : Emit Unit := do
  let place ← read
  let _ ← pushRaising (.exitIf condition (.exception (place.exception cause)))

def raise (code : ExceptionCode) : Emit Unit := do
  let always ← constant .u64 1
  raiseIf always (.ofCode code)

/-- Emits a value that says where the guest continues. -/
def pushExitPc (kind : Kind) : Emit Unit := do
  let _ ← push kind
  modify fun progress => { progress with exitPcSet := true }

/-- A value in a register of this kind, moved there if it is in another. -/
def toClass (registerClass : RegisterClass) (value : ValueId) : Emit ValueId := do
  if (← kindOf value).resultClass? = some registerClass then return value
  else push (.moveClass registerClass value)

end Emission

end MipsRecompiler
