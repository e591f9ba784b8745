import MipsRecompiler.Instruction.Decode

/-!
# Instructions that cannot be executed

Reserved words, and words whose meaning is not supported. Both engines report them alike.
-/

set_option autoImplicit false

namespace MipsRecompiler

inductive IllegalInstruction where
  | reserved (pc : DoubleWord) (word : Word)
  | unimplemented (pc : DoubleWord) (word : Word) (name : String)
  deriving DecidableEq, Repr, Inhabited

namespace IllegalInstruction

def kind : IllegalInstruction → String
  | reserved _ _ => "Reserved"
  | unimplemented _ _ _ => "Unimplemented"

def message : IllegalInstruction → String
  | reserved pc word =>
    "reserved instruction " ++ Text.hexWord word.toNat ++ " at " ++ Text.hex pc.toNat
  | unimplemented pc word name =>
    "unimplemented instruction " ++ name ++ " (" ++ Text.hexWord word.toNat ++ ") at " ++
      Text.hex pc.toNat

end IllegalInstruction

/-- The form and operation of an instruction, or why it cannot be executed. -/
def Instruction.legal (inst : Instruction) (pc : DoubleWord) :
    Except IllegalInstruction (Form × Operation) :=
  match inst.decode with
  | .operation _ form operation => .ok (form, operation)
  | .unimplemented name => .error (.unimplemented pc inst.word name)
  | .reserved => .error (.reserved pc inst.word)

/-- The format of a floating point arithmetic instruction. An integer format is reserved. -/
def Instruction.arithmeticFormat (inst : Instruction) (pc : DoubleWord) :
    Except IllegalInstruction FloatFormat :=
  match FloatFormat.arithmeticOfField? inst.format.val with
  | some format => .ok format
  | none => .error (.reserved pc inst.word)

/-- The source format of a conversion. One that the target cannot be made from is reserved. -/
def Instruction.conversionSource (inst : Instruction) (pc : DoubleWord) (target : FloatFormat) :
    Except IllegalInstruction FloatFormat :=
  match (FloatFormat.ofField? inst.format.val).filter (·.convertible target) with
  | some format => .ok format
  | none => .error (.reserved pc inst.word)

end MipsRecompiler
