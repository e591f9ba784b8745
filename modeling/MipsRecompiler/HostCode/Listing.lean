import MipsRecompiler.HostCode.Decode

/-!
# Listings of host code

One operation on each line behind its offset, with the exit site of those that can leave.
-/

set_option autoImplicit false

namespace MipsRecompiler.HostCode

open Ir (Arguments Site)

def commas (operands : List Operand) : String :=
  ", ".intercalate (operands.map Operand.text)

def HostOp.text {φ : Type} : HostOp Operand φ → String
  | .move target source => "mov " ++ commas [target, source]
  | .loadGuest target reg => "ldg " ++ target.text ++ ", " ++ reg.text
  | .flushGuest reg source => "stg " ++ reg.text ++ ", " ++ source.text
  | .binary op target lhs rhs _ => Enumeration.name op ++ " " ++ commas [target, lhs, rhs]
  | .not target source => "not " ++ commas [target, source]
  | .cast type target source => "cast." ++ Enumeration.name type ++ " " ++ commas [target, source]
  | .shift op width target value amount =>
    Enumeration.name op ++ "." ++ Enumeration.name width ++ " " ++ commas [target, value, amount]
  | .check mode target lhs rhs =>
    "set." ++ Enumeration.name mode ++ " " ++ commas [target, lhs, rhs]
  | .translate access size target address _ =>
    "tlb." ++ Enumeration.name access ++ toString size.toNat ++ " " ++ commas [target, address]
  | .load type target address =>
    "ld." ++ Enumeration.name type ++ " " ++ target.text ++ ", [" ++ address.text ++ "]"
  | .store size address value =>
    "st" ++ toString size.toNat ++ " [" ++ address.text ++ "], " ++ value.text
  | .loadState field target => "lds " ++ target.text ++ ", " ++ field.text
  | .storeState field source => "sts " ++ field.text ++ ", " ++ source.text
  | .mulDiv op lhs rhs => Enumeration.name op ++ " " ++ commas [lhs, rhs]
  | .setExitPc pc => "exitpc " ++ pc.text
  | .setExitPcIf condition whenTrue whenFalse =>
    "exitpc " ++ condition.text ++ " ? " ++ whenTrue.text ++ " : " ++ whenFalse.text
  | .exitIf condition (.exception descriptor) _ =>
    "raise." ++ Enumeration.name descriptor.cause.code ++ " if " ++ condition.text
  | .exitIf condition (.branch pc) _ =>
    "leave " ++ Text.hex pc.toNat ++ " if " ++ condition.text
  | .call routine target arguments _ =>
    let result := match target with
      | some operand => operand.text ++ " = "
      | none => ""
    "call " ++ result ++ routine.name ++
      String.join (arguments.toList.map fun operand => " " ++ operand.text)
  | .floatBinary op format target lhs rhs =>
    "f" ++ Enumeration.name op ++ "." ++ Enumeration.name format ++ " " ++
      commas [target, lhs, rhs]
  | .floatUnary op format target source =>
    "f" ++ Enumeration.name op ++ "." ++ Enumeration.name format ++ " " ++
      commas [target, source]
  | .floatConvert source target mode result operand =>
    "cvt." ++ Enumeration.name target ++ "." ++ Enumeration.name source ++ "." ++
      Enumeration.name mode ++ " " ++ commas [result, operand]
  | .floatCompare condition format lhs rhs =>
    "c." ++ toString condition.toNat ++ "." ++ Enumeration.name format ++ " " ++
      commas [lhs, rhs]
  | .finish retired => "end " ++ toString retired.toNat

/-- The site through which an operation can leave. -/
def HostOp.site? {σ φ : Type} : HostOp σ φ → Option (Site φ)
  | .binary _ _ _ _ site | .call _ _ _ site => site
  | .translate _ _ _ _ site | .exitIf _ _ site => some site
  | _ => none

def siteText (site : Site PackedFlush) : Except CorruptBlock String := do
  let flushed ← site.flush.read.mapM fun entry => do
    let (reg, operand) ← entry
    return " " ++ reg.text ++ "=" ++ operand.text
  return " -> exit " ++ Text.hex site.pc.toNat ++ (if site.delaySlot then " (delay)" else "") ++
    " retired " ++ toString site.retired.toNat ++ String.join flushed

def itemText (item : Item) : Except CorruptBlock String := do
  let op ← item.op
  let exit ← match op.site? with
    | some site => siteText site
    | none => pure ""
  return Text.hexPadded 4 item.offset ++ "  " ++ op.text ++ exit

/-- The lines of a listing, or the first malformed place. -/
def listing (code : List UInt8) : Except CorruptBlock (List String) := do
  let program ← Program.read code
  let lines ← program.items.mapM itemText
  return ("; " ++ toString program.spillSlots ++ " spill slots") :: lines

end MipsRecompiler.HostCode
