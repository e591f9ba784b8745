import MipsRecompiler.Word.Arithmetic
import MipsRecompiler.Word.Text
import MipsRecompiler.FloatingPoint

/-!
# Operations and operand forms

What an instruction does is separate from where its operands stand: an operation says the first,
a form the second, and one operation may come in several forms.
-/

set_option autoImplicit false

namespace MipsRecompiler

/-- One of the two registers that multiplications and divisions fill. -/
inductive ProductRegister where
  | hi
  | lo
  deriving DecidableEq, Repr, Inhabited

/-- Where an instruction keeps its operands. -/
inductive Form where
  | jump
  | immediate (signed : Bool)
  | upperImmediate
  | branchOne
  | branchTwo
  | load
  | store
  | floatLoad
  | floatStore
  | branchSelected
  | trapImmediate (signed : Bool)
  | cache
  | jumpRegister
  | jumpRegisterLink
  | shiftImmediate (offset : Nat)
  | shiftRegister
  | moveFrom
  | moveTo
  | mulDiv
  | threeRegisters
  | trapTwo
  | exception
  | bare
  | coprocessor (number : Nat)
  | floatBranch
  | floatThree
  | floatTwo
  | floatCompare
  deriving DecidableEq, Repr, Inhabited

namespace Form

def text : Form → String
  | jump => "J26"
  | immediate signed => "RegImm(" ++ Text.bool signed ++ ")"
  | upperImmediate => "LoadUpper"
  | branchOne => "BranchReg"
  | branchTwo => "BranchRegReg"
  | load => "LoadBaseImm"
  | store => "StoreBaseImm"
  | floatLoad => "LoadFpuBaseImm"
  | floatStore => "StoreFpuBaseImm"
  | branchSelected => "RegImmBranch"
  | trapImmediate signed => "TrapImm(" ++ Text.bool signed ++ ")"
  | cache => "Cache"
  | jumpRegister => "JReg"
  | jumpRegisterLink => "JRegLink"
  | shiftImmediate offset => "ShiftImm(" ++ toString offset ++ ")"
  | shiftRegister => "ShiftReg"
  | moveFrom => "MoveFrom"
  | moveTo => "MoveTo"
  | mulDiv => "MulDiv"
  | threeRegisters => "RegRegReg"
  | trapTwo => "TrapRegReg"
  | exception => "ExceptionType"
  | bare => "Bare"
  | coprocessor number => "CopReg(" ++ toString number ++ ")"
  | floatBranch => "FpuBranch"
  | floatThree => "FpuRegRegReg"
  | floatTwo => "FpuRegReg"
  | floatCompare => "FpuCompare"

/-- The letter of the word layout: immediate, jump, register or floating point. -/
def layout : Form → String
  | jump => "J"
  | immediate _ | upperImmediate | branchOne | branchTwo | load | store | floatLoad | floatStore
  | branchSelected | trapImmediate _ | cache | floatBranch => "I"
  | floatThree | floatTwo | floatCompare => "F"
  | _ => "R"

end Form

inductive Operation where
  | nop
  | jump
  | jumpLink
  | jumpRegister
  | jumpRegisterLink
  | branch (mode : Comparison)
  | branchLikely (mode : Comparison)
  | branchLink (mode : Comparison)
  | branchLinkLikely (mode : Comparison)
  | addTrapWord
  | addWord
  | addTrapDouble
  | addDouble
  | subTrapWord
  | subWord
  | subTrapDouble
  | subDouble
  | setLess
  | setLessUnsigned
  | and
  | or
  | xor
  | nor
  | insertUpper
  | shift (op : ShiftOp) (width : ShiftWidth)
  | mulDiv (op : MulDivOp)
  | memory (size : AccessSize)
  | memoryUnsigned (size : AccessSize)
  | memoryLeft (size : AccessSize)
  | memoryRight (size : AccessSize)
  | memoryLinked (size : AccessSize)
  | moveFromProduct (source : ProductRegister)
  | moveToProduct (target : ProductRegister)
  | cacheControl
  | trap (mode : Comparison)
  | systemCall
  | breakpoint
  | moveFromControl (double : Bool)
  | moveToControl (double : Bool)
  | tlbRead
  | tlbWriteIndexed
  | tlbWriteRandom
  | tlbProbe
  | exceptionReturn
  | moveFromFloat (double : Bool)
  | moveToFloat (double : Bool)
  | moveFromFloatControl
  | moveToFloatControl
  | branchFloat (onTrue likely : Bool)
  | floatMemory (size : AccessSize)
  | floatArithmetic (op : FloatOp)
  | floatUnary (op : FloatUnaryOp)
  | floatMove
  | floatConvert (target : FloatFormat) (mode : RoundMode)
  | floatCompare
  deriving DecidableEq, Repr, Inhabited

namespace Operation

def isBranch : Operation → Bool
  | jump | jumpLink | jumpRegister | jumpRegisterLink => true
  | branch _ | branchLikely _ | branchLink _ | branchLinkLikely _ => true
  | branchFloat _ _ => true
  | _ => false

/-- Whether the delay slot is skipped when the branch is not taken. -/
def isLikelyBranch : Operation → Bool
  | branchLikely _ | branchLinkLikely _ | branchFloat _ true => true
  | _ => false

def usesFloat : Operation → Bool
  | moveFromFloat _ | moveToFloat _ | moveFromFloatControl | moveToFloatControl => true
  | branchFloat _ _ | floatMemory _ | floatArithmetic _ | floatUnary _ | floatMove => true
  | floatConvert _ _ | floatCompare => true
  | _ => false

/-- A name with arguments in parentheses. -/
def applied (head : String) (arguments : List String) : String :=
  head ++ "(" ++ ", ".intercalate arguments ++ ")"

/-- A name with named truth values in braces. -/
def record (head : String) (fields : List (String × Bool)) : String :=
  let shown := fields.map fun (field, value) => field ++ ": " ++ Text.bool value
  head ++ " \x7b " ++ ", ".intercalate shown ++ " \x7d"

def text : Operation → String
  | nop => "Nop"
  | jump => "Jump"
  | jumpLink => "JumpLink"
  | jumpRegister => "JumpReg"
  | jumpRegisterLink => "JumpRegLink"
  | branch mode => applied "Branch" [Enumeration.name mode]
  | branchLikely mode => applied "BranchLikely" [Enumeration.name mode]
  | branchLink mode => applied "BranchLink" [Enumeration.name mode]
  | branchLinkLikely mode => applied "BranchLinkLikely" [Enumeration.name mode]
  | addTrapWord => "Add32"
  | addWord => "AddU32"
  | addTrapDouble => "Add64"
  | addDouble => "AddU64"
  | subTrapWord => "Sub32"
  | subWord => "SubU32"
  | subTrapDouble => "Sub64"
  | subDouble => "SubU64"
  | setLess => "SetLess"
  | setLessUnsigned => "SetLessU"
  | and => "And"
  | or => "Or"
  | xor => "Xor"
  | nor => "Nor"
  | insertUpper => "InsertUpper"
  | shift op width => applied "Shift" [Enumeration.name op, Enumeration.name width]
  | mulDiv op => applied "MulDiv" [Enumeration.name op]
  | memory size => applied "Mem" [Enumeration.name size]
  | memoryUnsigned size => applied "MemUnsigned" [Enumeration.name size]
  | memoryLeft size => applied "MemLeft" [Enumeration.name size]
  | memoryRight size => applied "MemRight" [Enumeration.name size]
  | memoryLinked size => applied "MemLinked" [Enumeration.name size]
  | moveFromProduct .hi => "LoadInternal(HI)"
  | moveFromProduct .lo => "LoadInternal(LO)"
  | moveToProduct .hi => "StoreInternal(HI)"
  | moveToProduct .lo => "StoreInternal(LO)"
  | cacheControl => "CacheOp"
  | trap mode => applied "Trap" [Enumeration.name mode]
  | systemCall => "Syscall"
  | breakpoint => "Break"
  | moveFromControl double => record "MoveFromCop0" [("double", double)]
  | moveToControl double => record "MoveToCop0" [("double", double)]
  | tlbRead => "TlbRead"
  | tlbWriteIndexed => "TlbWriteIndexed"
  | tlbWriteRandom => "TlbWriteRandom"
  | tlbProbe => "TlbProbe"
  | exceptionReturn => "Eret"
  | moveFromFloat double => record "MoveFromCop1" [("double", double)]
  | moveToFloat double => record "MoveToCop1" [("double", double)]
  | moveFromFloatControl => "MoveControlFromCop1"
  | moveToFloatControl => "MoveControlToCop1"
  | branchFloat onTrue likely =>
    record "BranchCop1" [("on_true", onTrue), ("likely", likely)]
  | floatMemory size => applied "FpuMem" [Enumeration.name size]
  | floatArithmetic op => applied "FloatArith" [Enumeration.name op]
  | floatUnary op => applied "FloatUnary" [Enumeration.name op]
  | floatMove => "FloatMove"
  | floatConvert target mode =>
    applied "FloatConvert" [Enumeration.name target, Enumeration.name mode]
  | floatCompare => "FloatCompare"

end Operation

end MipsRecompiler
