import MipsRecompiler.Ir.Value

/-!
# Host operations

A compiled block is a sequence of operations on host registers, spill slots and constants. An
operation is given over the type `σ` of its sources and the type `φ` of its write-backs, so the
same shape serves before and after these are written as bytes.
-/

set_option autoImplicit false

namespace MipsRecompiler.HostCode

open Ir (Arguments BinaryOp BlockExit GuestRegister Routine Site StateField ValueType)

inductive Operand where
  | general (reg : UInt8)
  | float (reg : UInt8)
  | spill (slot : BitVec 16)
  | immediate (value : DoubleWord)
  deriving DecidableEq, Repr, Inhabited

def Operand.text : Operand → String
  | .general reg => "r" ++ toString reg.toNat
  | .float reg => "f" ++ toString reg.toNat
  | .spill slot => "[spill " ++ toString slot.toNat ++ "]"
  | .immediate value => "#" ++ Text.hex value.toNat

/-- A routine as three bytes: which one, and two parameters that not all routines use. -/
structure RoutineCode where
  kind : Fin 13
  first : UInt8
  second : UInt8
  deriving DecidableEq, Repr, Inhabited

namespace RoutineCode

def ofRoutine : Routine → RoutineCode
  | .moveFromControl reg double => ⟨0, ⟨reg⟩, if double then 1 else 0⟩
  | .moveToControl reg double => ⟨1, ⟨reg⟩, if double then 1 else 0⟩
  | .tlbRead => ⟨2, 0, 0⟩
  | .tlbWriteIndexed => ⟨3, 0, 0⟩
  | .tlbWriteRandom => ⟨4, 0, 0⟩
  | .tlbProbe => ⟨5, 0, 0⟩
  | .exceptionReturn => ⟨6, 0, 0⟩
  | .loadLeft size => ⟨7, size.bytes.toUInt8, 0⟩
  | .loadRight size => ⟨8, size.bytes.toUInt8, 0⟩
  | .storeLeft size => ⟨9, size.bytes.toUInt8, 0⟩
  | .storeRight size => ⟨10, size.bytes.toUInt8, 0⟩
  | .loadLinked size => ⟨11, size.bytes.toUInt8, 0⟩
  | .storeConditional size => ⟨12, size.bytes.toUInt8, 0⟩

/-- The routine that a code stands for. There is none for an access of an odd size. -/
def routine? (code : RoutineCode) : Option Routine :=
  let size := AccessSize.ofBytes? code.first.toNat
  let double := code.second != 0
  match code.kind with
  | 0 => some (.moveFromControl code.first.toBitVec double)
  | 1 => some (.moveToControl code.first.toBitVec double)
  | 2 => some .tlbRead
  | 3 => some .tlbWriteIndexed
  | 4 => some .tlbWriteRandom
  | 5 => some .tlbProbe
  | 6 => some .exceptionReturn
  | 7 => size.map .loadLeft
  | 8 => size.map .loadRight
  | 9 => size.map .storeLeft
  | 10 => size.map .storeRight
  | 11 => size.map .loadLinked
  | 12 => size.map .storeConditional

/-- A code reads back as the routine it was written for. -/
@[simp] theorem routine?_ofRoutine (routine : Routine) :
    (ofRoutine routine).routine? = some routine := by
  cases routine with
  | moveFromControl reg double => cases double <;> rfl
  | moveToControl reg double => cases double <;> rfl
  | tlbRead => rfl
  | tlbWriteIndexed => rfl
  | tlbWriteRandom => rfl
  | tlbProbe => rfl
  | exceptionReturn => rfl
  | loadLeft size => cases size <;> rfl
  | loadRight size => cases size <;> rfl
  | storeLeft size => cases size <;> rfl
  | storeRight size => cases size <;> rfl
  | loadLinked size => cases size <;> rfl
  | storeConditional size => cases size <;> rfl

def name (code : RoutineCode) : String :=
  ["mfc0", "mtc0", "tlbr", "tlbwi", "tlbwr", "tlbp", "eret", "load_left", "load_right",
    "store_left", "store_right", "load_linked", "store_conditional"].getD code.kind.val ""

end RoutineCode

/-- One operation of a compiled block. Access sizes are numbers of bytes. -/
inductive HostOp (σ φ : Type) where
  | move (target : Operand) (source : σ)
  | loadGuest (target : Operand) (reg : GuestRegister)
  | flushGuest (reg : GuestRegister) (source : σ)
  | binary (op : BinaryOp) (target : Operand) (lhs rhs : σ) (site : Option (Site φ))
  | not (target : Operand) (source : σ)
  | cast (type : ValueType) (target : Operand) (source : σ)
  | shift (op : ShiftOp) (width : ShiftWidth) (target : Operand) (value amount : σ)
  | check (mode : Comparison) (target : Operand) (lhs rhs : σ)
  | translate (access : AccessKind) (size : UInt8) (target : Operand) (address : σ)
      (site : Site φ)
  | load (type : ValueType) (target : Operand) (address : σ)
  | store (size : UInt8) (address value : σ)
  | loadState (field : StateField) (target : Operand)
  | storeState (field : StateField) (source : σ)
  | mulDiv (op : MulDivOp) (lhs rhs : σ)
  | setExitPc (pc : σ)
  | setExitPcIf (condition whenTrue whenFalse : σ)
  | exitIf (condition : σ) (exit : BlockExit) (site : Site φ)
  | call (routine : RoutineCode) (target : Option Operand) (arguments : Arguments σ)
      (site : Option (Site φ))
  | floatBinary (op : FloatOp) (format : FloatFormat) (target : Operand) (lhs rhs : σ)
  | floatUnary (op : FloatUnaryOp) (format : FloatFormat) (target : Operand) (source : σ)
  | floatConvert (source target : FloatFormat) (mode : RoundMode) (result : Operand)
      (operand : σ)
  | floatCompare (condition : BitVec 8) (format : FloatFormat) (lhs rhs : σ)
  /-- The end of the block, with the number of guest instructions it has executed. -/
  | finish (retired : BitVec 32)
  deriving Repr, Inhabited

end MipsRecompiler.HostCode
