import MipsRecompiler.Ir.Block

/-!
# Listings of blocks

The text of values and blocks, one value on each line.
-/

set_option autoImplicit false

namespace MipsRecompiler.Ir

/-- A value's number as listings show it. -/
def idText (id : ValueId) : String :=
  "v" ++ toString id

def pairText (lhs rhs : ValueId) : String :=
  idText lhs ++ ", " ++ idText rhs

def Kind.text : Kind → String
  | .constant type value => "const." ++ Enumeration.name type ++ " " ++ Text.hex value.toNat
  | .loadRegister reg => "load " ++ reg.text
  | .flushRegister reg value => "flush " ++ reg.text ++ " <- " ++ idText value
  | .binary op lhs rhs => Enumeration.name op ++ " " ++ pairText lhs rhs
  | .not operand => "not " ++ idText operand
  | .cast type operand => "cast." ++ Enumeration.name type ++ " " ++ idText operand
  | .shift op width value amount =>
    "shift." ++ Enumeration.name op ++ "." ++ Enumeration.name width ++ " " ++ pairText value amount
  | .check mode lhs rhs => "check." ++ Enumeration.name mode ++ " " ++ pairText lhs rhs
  | .translate address access size =>
    "tlb." ++ Enumeration.name access ++ "." ++ Enumeration.name size ++ " " ++ idText address
  | .load type registerClass address =>
    "load." ++ Enumeration.name type ++ "." ++ Enumeration.name registerClass ++ " [" ++
      idText address ++ "]"
  | .store size address value =>
    "store." ++ Enumeration.name size ++ " [" ++ idText address ++ "] <- " ++ idText value
  | .loadState field => "get " ++ field.text
  | .storeState field value => "set " ++ field.text ++ " <- " ++ idText value
  | .mulDiv op lhs rhs => Enumeration.name op ++ " " ++ pairText lhs rhs
  | .setExitPc pc => "exit_pc " ++ idText pc
  | .setExitPcIf condition whenTrue whenFalse =>
    "exit_pc " ++ idText condition ++ " ? " ++ idText whenTrue ++ " : " ++ idText whenFalse
  | .exitIf condition (.exception descriptor) =>
    "exit_if " ++ idText condition ++ " raise " ++ Enumeration.name descriptor.cause.code
  | .exitIf condition (.branch pc) =>
    "exit_if " ++ idText condition ++ " goto " ++ Text.hex pc.toNat
  | .call routine arguments =>
    "call " ++ routine.name ++ "(" ++ ", ".intercalate (arguments.toList.map idText) ++ ")"
  | .floatBinary op format lhs rhs =>
    Enumeration.name op ++ "." ++ Enumeration.name format ++ " " ++ pairText lhs rhs
  | .floatUnary op format operand =>
    Enumeration.name op ++ "." ++ Enumeration.name format ++ " " ++ idText operand
  | .floatConvert source target mode operand =>
    "cvt." ++ Enumeration.name target ++ "." ++ Enumeration.name source ++ "." ++
      Enumeration.name mode ++ " " ++ idText operand
  | .floatCompare condition format lhs rhs =>
    "c." ++ toString condition.toNat ++ "." ++ Enumeration.name format ++ " " ++ pairText lhs rhs
  | .moveClass target operand => "move." ++ Enumeration.name target ++ " " ++ idText operand

def flushText (entry : GuestRegister × ValueId) : String :=
  entry.1.text ++ "=" ++ idText entry.2

/-- An exit site as it follows its value. -/
def Site.text (site : ExitSite) : String :=
  let flushed :=
    if site.flush.isEmpty then ""
    else " flush[" ++ " ".intercalate (site.flush.map flushText) ++ "]"
  "  @" ++ Text.hex site.pc.toNat ++ (if site.delaySlot then "+ds" else "") ++
    " retired=" ++ toString site.retired.toNat ++ flushed

def Value.text (value : Value) : String :=
  value.kind.text ++
    match value.site with
    | some site => site.text
    | none => ""

def Block.listing (block : Block) : List String :=
  block.values.map fun (id, value) => Text.padLeft 6 ' ' (idText id) ++ " = " ++ value.text

end MipsRecompiler.Ir
