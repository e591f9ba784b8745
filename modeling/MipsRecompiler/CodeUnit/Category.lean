import MipsRecompiler.Cpu.SystemControl
import MipsRecompiler.Instruction.Illegal

/-!
# Instruction categories

How an instruction affects where a unit of guest code ends.
-/

set_option autoImplicit false

namespace MipsRecompiler

/-- How an instruction affects the unit that it belongs to. -/
inductive Category where
  | normal
  | store
  | cache
  | branch
  | branchLikely
  | tlbWrite
  /-- Always leaves the block, or changes how what follows has to be compiled. -/
  | blockEnder
  deriving DecidableEq, Repr, Inhabited

namespace Category

instance : Enumeration Category where
  all := [.normal, .store, .cache, .branch, .branchLikely, .tlbWrite, .blockEnder]
  name
    | .normal => "Normal"
    | .store => "Store"
    | .cache => "Cache"
    | .branch => "Branch"
    | .branchLikely => "BranchLikely"
    | .tlbWrite => "TlbWrite"
    | .blockEnder => "BlockEnder"
  mem_all category := by cases category <;> decide

def isBranch : Category → Bool
  | .branch | .branchLikely => true
  | _ => false

end Category

def Instruction.categoryOf (inst : Instruction) (form : Form) (operation : Operation) :
    Category :=
  if operation.isLikelyBranch then .branchLikely
  else if operation.isBranch then .branch
  else
    match operation with
    | .exceptionReturn | .systemCall | .breakpoint => .blockEnder
    | .moveToControl _ => if inst.rd = SystemControl.status then .blockEnder else .normal
    | .tlbWriteIndexed | .tlbWriteRandom => .tlbWrite
    | .cacheControl => .cache
    | _ => if form = .store ∨ form = .floatStore then .store else .normal

def Instruction.classify (inst : Instruction) (pc : DoubleWord) :
    Except IllegalInstruction (Form × Operation × Category) := do
  let (form, operation) ← inst.legal pc
  return (form, operation, inst.categoryOf form operation)

end MipsRecompiler
