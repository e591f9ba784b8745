import MipsRecompiler.Instruction.Illegal

/-!
# Why a block cannot be compiled

The causes, and how they are reported.
-/

set_option autoImplicit false

namespace MipsRecompiler

inductive CompileError where
  | illegal (reason : IllegalInstruction)
  | branchInDelaySlot (pc : DoubleWord)
  /-- More values are live at once than registers and spill slots can hold. -/
  | spillExhausted (slots : Nat)
  | blockTooLarge (size capacity : Nat)
  | unallocated (value : Nat)
  /-- A value can leave the block, and does not say how. -/
  | missingExitSite (value : Nat)
  /-- An instruction came to a rule that is not its own. -/
  | internal (pc : DoubleWord) (what : String)
  deriving DecidableEq, Repr, Inhabited

def CompileError.kind : CompileError → String
  | illegal reason => reason.kind
  | branchInDelaySlot _ => "BranchInDelaySlot"
  | spillExhausted _ => "SpillExhausted"
  | blockTooLarge _ _ => "BlockTooLarge"
  | unallocated _ => "Unallocated"
  | missingExitSite _ => "MissingExitSite"
  | internal _ _ => "Internal"

def CompileError.message : CompileError → String
  | illegal reason => reason.message
  | branchInDelaySlot pc =>
    "branch at " ++ Text.hex pc.toNat ++ " sits in the delay slot of another branch"
  | spillExhausted slots => "spill area exhausted after " ++ toString slots ++ " slots"
  | blockTooLarge size capacity =>
    "block of " ++ toString size ++ " bytes can never fit in a " ++ toString capacity ++
      " byte code cache"
  | unallocated value => "IR value v" ++ toString value ++ " is used but has no allocation"
  | missingExitSite value =>
    "IR value v" ++ toString value ++ " can leave the block but has no exit site"
  | internal pc what =>
    "internal error translating " ++ Text.hex pc.toNat ++ ": " ++ what

end MipsRecompiler
