import MipsRecompiler.Ir.Block

/-!
# Improving blocks

Three passes in a fixed order. Folding turns operations on constants into constants and leaves
values behind that nothing uses, dead code elimination removes those, and narrowing gives the
constants that are left the smallest type.
-/

set_option autoImplicit false

namespace MipsRecompiler.Ir.Block

/-- The type and value of an operation whose operands are constants. A trapping operation that
overflows has none. -/
def evaluate? (block : Block) (kind : Kind) : Option (ValueType × DoubleWord) :=
  let constant (id : ValueId) : Option DoubleWord := (block.kind id).constant?
  match kind with
  | .binary op lhs rhs => do
    let a ← constant lhs
    let b ← constant rhs
    return (.u64, ← op.eval? a b)
  | .not operand => do return (.u64, ~~~(← constant operand))
  | .cast type operand => do return (type, type.cast (← constant operand))
  | .shift op width value amount => do
    let a ← constant value
    let b ← constant amount
    return (.u64, op.apply width a b)
  | .check mode lhs rhs => do
    let a ← constant lhs
    let b ← constant rhs
    return (.u64, if mode.holds a b then 1 else 0)
  | _ => none

/-- Folds one value if it can be folded. A folded value cannot leave the block. -/
def foldValue (block : Block) (id : ValueId) : Option Block :=
  (block.evaluate? (block.kind id)).map fun (type, value) =>
    block.replace id { kind := .constant type value, site := none }

def updateAll (change : Block → ValueId → Option Block) (block : Block) :
    List ValueId → Nat × Block
  | [] => (0, block)
  | id :: ids =>
    match change block id with
    | some changed =>
      let (count, result) := updateAll change changed ids
      (count + 1, result)
    | none => updateAll change block ids

/-- Turns operations on constants into constants. Returns how many. -/
def foldConstants (block : Block) : Nat × Block :=
  updateAll foldValue block block.ids

def markUses (live : Array Bool) (value : Value) : Array Bool :=
  value.uses.foldl (fun live id => live.setIfInBounds id true) live

/-- Walks from the last value to the first. A value stays if it is a root or used by one that
stays. -/
def sweep (live : Array Bool) (block : Block) : List ValueId → Nat × Block
  | [] => (0, block)
  | id :: ids =>
    let value := block.value id
    if value.kind.isRoot || live.getD id false then sweep (markUses live value) block ids
    else
      let (count, result) := sweep live (block.remove id) ids
      (count + 1, result)

/-- Removes the values that no root reaches. Returns how many. -/
def eliminateDeadCode (block : Block) : Nat × Block :=
  sweep (Array.replicate block.bound false) block block.ids.reverse

end Block

/-- The smallest type that extends with its sign to a value, or the whole doubleword. -/
def ValueType.narrowest (value : DoubleWord) : ValueType :=
  ([.s8, .s16, .s32].find? fun type => type.cast value == value).getD .u64

namespace Block

def narrowValue (block : Block) (id : ValueId) : Option Block :=
  let old := block.value id
  match old.kind with
  | .constant type value =>
    let narrow := ValueType.narrowest value
    if narrow = type then none
    else some (block.replace id { old with kind := .constant narrow value })
  | _ => none

/-- Gives every constant its smallest type. Returns how many changed. -/
def narrowConstants (block : Block) : Nat × Block :=
  updateAll narrowValue block block.ids

structure OptimizeCounts where
  folded : Nat
  removed : Nat
  narrowed : Nat
  deriving DecidableEq, Repr, Inhabited

def optimize (block : Block) : OptimizeCounts × Block :=
  let (folded, block) := block.foldConstants
  let (removed, block) := block.eliminateDeadCode
  let (narrowed, block) := block.narrowConstants
  ({ folded, removed, narrowed }, block)

end Block

end MipsRecompiler.Ir
