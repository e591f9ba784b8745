import MipsRecompiler.Allocation.LinearScan
import MipsRecompiler.HostCode.Bytes

/-!
# From values to host code

Every value that does something at run time becomes one operation. A constant that stands in the
instructions that use it becomes none.
-/

set_option autoImplicit false

namespace MipsRecompiler.HostCode

open Ir (Arguments Block ExitSite Kind Site ValueId)

variable (block : Block) (allocation : Allocation)

def operandOf (id : ValueId) : Except CompileError Operand :=
  match allocation.get id with
  | .immediate =>
    match (block.kind id).constant? with
    | some value => .ok (.immediate value)
    | none => .error (.unallocated id)
  | .register .general reg => .ok (.general reg)
  | .register .float reg => .ok (.float reg)
  | .spilled _ slot => .ok (.spill slot)
  | .none => .error (.unallocated id)

/-- Where a result goes. It cannot go into an instruction. -/
def targetOf (id : ValueId) : Except CompileError Operand := do
  match ← operandOf block allocation id with
  | .immediate _ => throw (.unallocated id)
  | operand => return operand

def pendingSite (site : ExitSite) : Site PendingFlush :=
  site.map fun flush => flush.map fun (reg, id) => (reg, operandOf block allocation id)

def pendingArguments : Arguments ValueId → Arguments (Except CompileError Operand)
  | .none => .none
  | .one first => .one (operandOf block allocation first)
  | .two first second =>
    .two (operandOf block allocation first) (operandOf block allocation second)

/-- The exit site of a value that cannot do without one. -/
def requiredSite (id : ValueId) (site : Option ExitSite) :
    Except CompileError (Site PendingFlush) :=
  match site with
  | some site => .ok (pendingSite block allocation site)
  | none => .error (.missingExitSite id)

/-- The operation of a value, if it has one. What has to be there before anything is written is
checked here: the place of the result first, then the exit site. -/
def lower (id : ValueId) : Except CompileError (Option PendingOp) := do
  let value := block.value id
  let source := operandOf block allocation
  let target := targetOf block allocation id
  let optionalSite := value.site.map (pendingSite block allocation)
  match value.kind with
  | .constant _ constant =>
    if allocation.get id = .immediate then return none
    else return some (.move (← target) (.ok (.immediate constant)))
  | .moveClass _ operand => return some (.move (← target) (source operand))
  | .loadRegister reg => return some (.loadGuest (← target) reg)
  | .flushRegister reg operand => return some (.flushGuest reg (source operand))
  | .binary op lhs rhs =>
    return some (.binary op (← target) (source lhs) (source rhs) optionalSite)
  | .not operand => return some (.not (← target) (source operand))
  | .cast type operand => return some (.cast type (← target) (source operand))
  | .shift op width operand amount =>
    return some (.shift op width (← target) (source operand) (source amount))
  | .check mode lhs rhs => return some (.check mode (← target) (source lhs) (source rhs))
  | .translate address access size =>
    let result ← target
    let site ← requiredSite block allocation id value.site
    return some (.translate access size.bytes.toUInt8 result (source address) site)
  | .load type _ address => return some (.load type (← target) (source address))
  | .store size address operand =>
    return some (.store size.bytes.toUInt8 (source address) (source operand))
  | .loadState field => return some (.loadState field (← target))
  | .storeState field operand => return some (.storeState field (source operand))
  | .mulDiv op lhs rhs => return some (.mulDiv op (source lhs) (source rhs))
  | .setExitPc pc => return some (.setExitPc (source pc))
  | .setExitPcIf condition whenTrue whenFalse =>
    return some (.setExitPcIf (source condition) (source whenTrue) (source whenFalse))
  | .exitIf condition exit =>
    let site ← requiredSite block allocation id value.site
    return some (.exitIf (source condition) exit site)
  | .call routine arguments =>
    let result ← if routine.hasResult then some <$> target else pure none
    return some (.call (.ofRoutine routine) result (pendingArguments block allocation arguments)
      optionalSite)
  | .floatBinary op format lhs rhs =>
    return some (.floatBinary op format (← target) (source lhs) (source rhs))
  | .floatUnary op format operand =>
    return some (.floatUnary op format (← target) (source operand))
  | .floatConvert origin goal mode operand =>
    return some (.floatConvert origin goal mode (← target) (source operand))
  | .floatCompare condition format lhs rhs =>
    return some (.floatCompare condition format (source lhs) (source rhs))

def valuePieces (id : ValueId) : List Piece :=
  match lower block allocation id with
  | .ok (some op) => op.pieces
  | .ok none => []
  | .error missing => [.error missing]

/-- Writes a block: the number of spill slots, the operations of its values, and the end with
the number of guest instructions executed there. When something is missing, the bytes before it
come with the error. -/
def encode (retired : BitVec 32) : List UInt8 × Option CompileError :=
  let header : Piece := .ok (littleEndian 2 allocation.spillSlots)
  let finish : PendingOp := .finish retired
  joinPieces (header :: block.ids.flatMap (valuePieces block allocation) ++ finish.pieces)

end MipsRecompiler.HostCode
