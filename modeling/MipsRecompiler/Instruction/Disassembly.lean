import MipsRecompiler.Instruction.Decode

/-!
# Disassembly

The listing text of an instruction: its name in a column of seven characters, then its operands.
-/

set_option autoImplicit false

namespace MipsRecompiler.Instruction

def conditionNames : Vector String 16 :=
  #v["F", "UN", "EQ", "UEQ", "OLT", "ULT", "OLE", "ULE",
     "SF", "NGLE", "SEQ", "NGL", "LT", "NGE", "LE", "NGT"]

def formatSuffix (field : Fin 32) : String :=
  match FloatFormat.ofField? field.val with
  | some .single => "S"
  | some .double => "D"
  | some .word => "W"
  | some .long => "L"
  | none => "?"

def signedText (inst : Instruction) : String :=
  Text.signedHex inst.immediate.toInt

/-- The instruction's name, with the format of floating point arithmetic. -/
def listedName (inst : Instruction) (name : String) : Form → String
  | .floatThree | .floatTwo => name ++ "." ++ formatSuffix inst.format
  | .floatCompare =>
    "C." ++ conditionNames[inst.condition] ++ "." ++ formatSuffix inst.format
  | _ => name

/-- The register that an operation fills or stores, which is written first. -/
def leadingOperand (inst : Instruction) : Form → List String
  | .immediate _ | .upperImmediate | .load | .store => [inst.rt.generalName]
  | .floatLoad | .floatStore => [inst.rt.floatName]
  | .jumpRegisterLink => if inst.rd = 31 then [] else [inst.rd.generalName]
  | .shiftImmediate _ | .shiftRegister | .moveFrom | .threeRegisters => [inst.rd.generalName]
  | .floatThree | .floatTwo => [inst.fd.floatName]
  | .cache => [Text.hexPadded 2 inst.rt.val]
  | _ => []

/-- The operands that are read, absolute targets included. -/
def sourceOperands (inst : Instruction) (address : DoubleWord) : Form → List String
  | .immediate _ | .branchOne | .branchSelected | .trapImmediate _ | .jumpRegister | .moveTo
  | .jumpRegisterLink => [inst.rs.generalName]
  | .branchTwo | .threeRegisters | .trapTwo | .mulDiv =>
    [inst.rs.generalName, inst.rt.generalName]
  | .shiftRegister => [inst.rt.generalName, inst.rs.generalName]
  | .coprocessor 0 => [inst.rt.generalName, inst.rd.controlName]
  | .coprocessor _ => [inst.rt.generalName, inst.rd.floatName]
  | .load | .store | .floatLoad | .floatStore | .cache =>
    [inst.signedText ++ "(" ++ inst.rs.generalName ++ ")"]
  | .upperImmediate => [Text.hex (inst.immediate.toNat * 65536)]
  | .shiftImmediate offset =>
    [inst.rt.generalName, toString (inst.shiftAmount.val + offset)]
  | .jump => [Text.hex (inst.jumpTarget address).toNat]
  | .floatThree | .floatCompare => [inst.fs.floatName, inst.ft.floatName]
  | .floatTwo => [inst.fs.floatName]
  | .exception | .moveFrom | .bare | .floatBranch => []

/-- The immediate that is written last. Branch targets are cut to 32 bits. -/
def immediateOperand (inst : Instruction) (address : DoubleWord) : Form → List String
  | .immediate true | .trapImmediate _ => [inst.signedText]
  | .immediate false => [Text.hex inst.immediate.toNat]
  | .branchOne | .branchTwo | .branchSelected | .floatBranch =>
    [Text.hexWord ((inst.branchTarget address).setWidth 32).toNat]
  | _ => []

def disassemble (inst : Instruction) (address : DoubleWord) : String :=
  match inst.decode with
  | .operation name form _ =>
    let shown := inst.listedName name form
    let operands := inst.leadingOperand form ++ inst.sourceOperands address form ++
      inst.immediateOperand address form
    if operands.isEmpty then shown
    else Text.padRight 7 shown ++ " " ++ ", ".intercalate operands
  | other => other.name

end MipsRecompiler.Instruction
