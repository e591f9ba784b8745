import MipsRecompiler.Word.Arithmetic
import MipsRecompiler.Memory.Tlb

/-!
# Values of the intermediate representation

A block of guest code becomes a list of values. Each value names its operands by their numbers,
and a value that can leave the block carries an exit site, which says what has to be written
back first.
-/

set_option autoImplicit false

namespace MipsRecompiler.Ir

/-- The number of a value within its block. Later values have greater numbers. -/
abbrev ValueId : Type := Nat

inductive RegisterClass where
  | general
  | float
  deriving DecidableEq, Repr, Inhabited

instance : Enumeration RegisterClass where
  all := [.general, .float]
  name
    | .general => "Gpr"
    | .float => "Fgr"
  mem_all kind := by cases kind <;> decide

/-- A guest register: the general registers first, then the floating point slots. -/
structure GuestRegister where
  number : Fin 64
  deriving DecidableEq, Repr, Inhabited

namespace GuestRegister

def all : List GuestRegister :=
  (List.finRange 64).map GuestRegister.mk

def general (reg : RegisterNumber) : GuestRegister :=
  ⟨⟨reg.val, by omega⟩⟩

/-- A floating point register slot. -/
def float (reg : RegisterNumber) : GuestRegister :=
  ⟨⟨32 + reg.val, by omega⟩⟩

def zero : GuestRegister := general 0

def isFloat (reg : GuestRegister) : Bool :=
  32 ≤ reg.number.val

def within (reg : GuestRegister) : RegisterNumber :=
  ⟨reg.number.val % 32, Nat.mod_lt _ (by decide)⟩

def registerClass (reg : GuestRegister) : RegisterClass :=
  if reg.isFloat then .float else .general

def text (reg : GuestRegister) : String :=
  if reg.isFloat then reg.within.floatName else reg.within.generalName

end GuestRegister

/-- Which of a value's bits mean something, and how they extend to 64. -/
inductive ValueType where
  | s8
  | u8
  | s16
  | u16
  | s32
  | u32
  | u64
  deriving DecidableEq, Repr, Inhabited

namespace ValueType

instance : Enumeration ValueType where
  all := [.s8, .u8, .s16, .u16, .s32, .u32, .u64]
  name
    | .s8 => "S8"
    | .u8 => "U8"
    | .s16 => "S16"
    | .u16 => "U16"
    | .s32 => "S32"
    | .u32 => "U32"
    | .u64 => "U64"
  mem_all type := by cases type <;> decide

def size : ValueType → AccessSize
  | .s8 | .u8 => .byte
  | .s16 | .u16 => .half
  | .s32 | .u32 => .word
  | .u64 => .double

def isSigned : ValueType → Bool
  | .s8 | .s16 | .s32 => true
  | .u8 | .u16 | .u32 | .u64 => false

/-- Cuts a value to the type and extends it to 64 bits again. -/
def cast (type : ValueType) (value : DoubleWord) : DoubleWord :=
  let cut := value.setWidth type.size.bits
  if type.isSigned then cut.signExtend 64 else cut.setWidth 64

/-- The type of a load. A whole doubleword has no sign to extend. -/
def ofLoad (size : AccessSize) (signed : Bool) : ValueType :=
  match size, signed with
  | .byte, true => .s8
  | .byte, false => .u8
  | .half, true => .s16
  | .half, false => .u16
  | .word, true => .s32
  | .word, false => .u32
  | .double, _ => .u64

/-- The type of a load of this many bytes. A number that no access has counts as a doubleword. -/
def ofLoadBytes (count : Nat) (signed : Bool) : ValueType :=
  ofLoad ((AccessSize.ofBytes? count).getD .double) signed

end ValueType

inductive BinaryOp where
  | add
  | sub
  | and
  | or
  | xor
  | addTrapWord
  | addTrapDouble
  | subTrapWord
  | subTrapDouble
  deriving DecidableEq, Repr, Inhabited

namespace BinaryOp

instance : Enumeration BinaryOp where
  all := [.add, .sub, .and, .or, .xor, .addTrapWord, .addTrapDouble, .subTrapWord,
    .subTrapDouble]
  name
    | .add => "Add"
    | .sub => "Sub"
    | .and => "And"
    | .or => "Or"
    | .xor => "Xor"
    | .addTrapWord => "AddTrap32"
    | .addTrapDouble => "AddTrap64"
    | .subTrapWord => "SubTrap32"
    | .subTrapDouble => "SubTrap64"
  mem_all op := by cases op <;> decide

/-- Whether the operation raises an exception when it overflows. -/
def traps : BinaryOp → Bool
  | .addTrapWord | .addTrapDouble | .subTrapWord | .subTrapDouble => true
  | .add | .sub | .and | .or | .xor => false

/-- The result, unless a trapping operation overflows. -/
def eval? (op : BinaryOp) (a b : DoubleWord) : Option DoubleWord :=
  match op with
  | .add => some (a + b)
  | .sub => some (a - b)
  | .and => some (a &&& b)
  | .or => some (a ||| b)
  | .xor => some (a ^^^ b)
  | .addTrapWord => addWord? a b
  | .addTrapDouble => addDouble? a b
  | .subTrapWord => subWord? a b
  | .subTrapDouble => subDouble? a b

end BinaryOp

/-- Processor state outside the cached registers. -/
inductive StateField where
  | hi
  | lo
  | fcr31
  /-- A system control register. Only its low five bits select a register. -/
  | control (reg : BitVec 8)
  deriving DecidableEq, Repr, Inhabited

/-- The register that the low five bits of a byte select. -/
def selectedRegister (byte : BitVec 8) : RegisterNumber :=
  (byte.setWidth 5).toFin

def StateField.text : StateField → String
  | .hi => "hi"
  | .lo => "lo"
  | .fcr31 => "fcr31"
  | .control reg => "cop0[" ++ (selectedRegister reg).controlName ++ "]"

/-- What is too large to be done by values of its own. -/
inductive Routine where
  | moveFromControl (reg : BitVec 8) (double : Bool)
  | moveToControl (reg : BitVec 8) (double : Bool)
  | tlbRead
  | tlbWriteIndexed
  | tlbWriteRandom
  | tlbProbe
  /-- The result is the address to continue at. -/
  | exceptionReturn
  | loadLeft (size : AccessSize)
  | loadRight (size : AccessSize)
  | storeLeft (size : AccessSize)
  | storeRight (size : AccessSize)
  | loadLinked (size : AccessSize)
  | storeConditional (size : AccessSize)
  deriving DecidableEq, Repr, Inhabited

namespace Routine

def name : Routine → String
  | .moveFromControl _ _ => "mfc0"
  | .moveToControl _ _ => "mtc0"
  | .tlbRead => "tlbr"
  | .tlbWriteIndexed => "tlbwi"
  | .tlbWriteRandom => "tlbwr"
  | .tlbProbe => "tlbp"
  | .exceptionReturn => "eret"
  | .loadLeft _ => "load_left"
  | .loadRight _ => "load_right"
  | .storeLeft _ => "store_left"
  | .storeRight _ => "store_right"
  | .loadLinked _ => "load_linked"
  | .storeConditional _ => "store_conditional"

def mayRaise : Routine → Bool
  | .loadLeft _ | .loadRight _ | .storeLeft _ | .storeRight _ => true
  | .loadLinked _ | .storeConditional _ => true
  | _ => false

/-- Whether the routine produces a value. -/
def hasResult : Routine → Bool
  | .moveFromControl _ _ | .exceptionReturn => true
  | .loadLeft _ | .loadRight _ | .loadLinked _ | .storeConditional _ => true
  | _ => false

end Routine

/-- Where a conditional exit goes. -/
inductive BlockExit where
  | exception (descriptor : ExceptionDescriptor)
  /-- Leaves early, past the rest of the block. -/
  | branch (pc : DoubleWord)
  deriving DecidableEq, Repr, Inhabited

/-- What has to be known to leave a block in the middle, with the write-backs given as `φ`. -/
structure Site (φ : Type) where
  /-- The instruction that leaves, or its branch when it sits in a delay slot. -/
  pc : DoubleWord
  delaySlot : Bool
  /-- The number of guest instructions that count as executed. -/
  retired : BitVec 32
  /-- The registers whose current value is not in the processor state yet. -/
  flush : φ
  deriving DecidableEq, Repr, Inhabited

def Site.map {φ ψ : Type} (change : φ → ψ) (site : Site φ) : Site ψ :=
  { site with flush := change site.flush }

/-- An exit site whose write-backs name values. -/
abbrev ExitSite : Type := Site (List (GuestRegister × ValueId))

inductive Arguments (α : Type) where
  | none
  | one (first : α)
  | two (first second : α)
  deriving DecidableEq, Repr, Inhabited

namespace Arguments

variable {α : Type}

def toList : Arguments α → List α
  | .none => []
  | .one first => [first]
  | .two first second => [first, second]

/-- The arguments that a list holds, if there are at most two. -/
def ofList? : List α → Option (Arguments α)
  | [] => some .none
  | [first] => some (.one first)
  | [first, second] => some (.two first second)
  | _ => Option.none

end Arguments

/-- What a value does. One that accesses memory has one of the four sizes that accesses have. -/
inductive Kind where
  | constant (type : ValueType) (value : DoubleWord)
  | loadRegister (reg : GuestRegister)
  | flushRegister (reg : GuestRegister) (value : ValueId)
  | binary (op : BinaryOp) (lhs rhs : ValueId)
  | not (operand : ValueId)
  | cast (type : ValueType) (operand : ValueId)
  | shift (op : ShiftOp) (width : ShiftWidth) (value amount : ValueId)
  /-- One if the comparison holds, else zero. -/
  | check (mode : Comparison) (lhs rhs : ValueId)
  /-- From a virtual to a physical address, with an exception if there is none. -/
  | translate (address : ValueId) (access : AccessKind) (size : AccessSize)
  | load (type : ValueType) (registerClass : RegisterClass) (address : ValueId)
  | store (size : AccessSize) (address value : ValueId)
  | loadState (field : StateField)
  | storeState (field : StateField) (value : ValueId)
  /-- Writes HI and LO. -/
  | mulDiv (op : MulDivOp) (lhs rhs : ValueId)
  | setExitPc (pc : ValueId)
  | setExitPcIf (condition whenTrue whenFalse : ValueId)
  | exitIf (condition : ValueId) (exit : BlockExit)
  | call (routine : Routine) (arguments : Arguments ValueId)
  | floatBinary (op : FloatOp) (format : FloatFormat) (lhs rhs : ValueId)
  | floatUnary (op : FloatUnaryOp) (format : FloatFormat) (operand : ValueId)
  | floatConvert (source target : FloatFormat) (mode : RoundMode) (operand : ValueId)
  /-- Sets or clears the floating point condition. -/
  | floatCompare (condition : BitVec 8) (format : FloatFormat) (lhs rhs : ValueId)
  | moveClass (target : RegisterClass) (operand : ValueId)
  deriving DecidableEq, Repr

namespace Kind

instance : Inhabited Kind := ⟨.constant .u64 0⟩

def operands : Kind → List ValueId
  | .constant _ _ | .loadRegister _ | .loadState _ => []
  | .flushRegister _ value | .storeState _ value => [value]
  | .binary _ lhs rhs | .check _ lhs rhs | .mulDiv _ lhs rhs => [lhs, rhs]
  | .floatBinary _ _ lhs rhs | .floatCompare _ _ lhs rhs => [lhs, rhs]
  | .not operand | .cast _ operand | .moveClass _ operand => [operand]
  | .floatUnary _ _ operand | .floatConvert _ _ _ operand => [operand]
  | .shift _ _ value amount => [value, amount]
  | .translate address _ _ | .load _ _ address => [address]
  | .store _ address value => [address, value]
  | .setExitPc pc => [pc]
  | .setExitPcIf condition whenTrue whenFalse => [condition, whenTrue, whenFalse]
  | .exitIf condition _ => [condition]
  | .call _ arguments => arguments.toList

/-- Whether the value has an effect beyond its result, so that it has to stay. -/
def isRoot : Kind → Bool
  | .flushRegister _ _ | .load _ _ _ | .store _ _ _ | .storeState _ _ | .mulDiv _ _ _ => true
  | .setExitPc _ | .setExitPcIf _ _ _ | .exitIf _ _ | .call _ _ => true
  | .floatCompare _ _ _ _ | .translate _ _ _ => true
  | .binary op _ _ => op.traps
  | _ => false

/-- The kind of register that holds the result, if there is a result. -/
def resultClass? : Kind → Option RegisterClass
  | .flushRegister _ _ | .store _ _ _ | .storeState _ _ | .mulDiv _ _ _ => none
  | .setExitPc _ | .setExitPcIf _ _ _ | .exitIf _ _ | .floatCompare _ _ _ _ => none
  | .call routine _ => if routine.hasResult then some .general else none
  | .loadRegister reg => some reg.registerClass
  | .load _ registerClass _ => some registerClass
  | .moveClass target _ => some target
  | .floatBinary _ _ _ _ | .floatUnary _ _ _ | .floatConvert _ _ _ _ => some .float
  | .constant _ _ | .binary _ _ _ | .not _ | .cast _ _ | .shift _ _ _ _ => some .general
  | .check _ _ _ | .translate _ _ _ | .loadState _ => some .general

def constant? : Kind → Option DoubleWord
  | .constant _ value => some value
  | _ => none

end Kind

/-- A value: what it does, and how it can leave the block. -/
structure Value where
  kind : Kind
  site : Option ExitSite
  deriving DecidableEq, Repr, Inhabited

/-- The values that have to be there for this one: its operands, then what its exit flushes. -/
def Value.uses (value : Value) : List ValueId :=
  value.kind.operands ++
    match value.site with
    | some site => site.flush.map Prod.snd
    | none => []

end MipsRecompiler.Ir
