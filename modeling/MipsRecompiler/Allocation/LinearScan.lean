import MipsRecompiler.Allocation.Platform
import MipsRecompiler.CompileError
import MipsRecompiler.Ir.Listing

/-!
# Register allocation

A linear scan over the block. A value lives from its own number to that of its last use. When no
register of its kind is free, the value that lives longest goes to a spill slot.
-/

set_option autoImplicit false

namespace MipsRecompiler

open Ir (RegisterClass ValueId Value Block)

inductive Placement where
  /-- Nowhere: it has no result, or was removed. -/
  | none
  /-- In the instructions that use it. -/
  | immediate
  | register (registerClass : RegisterClass) (reg : UInt8)
  | spilled (registerClass : RegisterClass) (slot : BitVec 16)
  deriving DecidableEq, Repr, Inhabited

/-- The placement as listings show it. A spill slot takes eight bytes. -/
def Placement.text : Placement → String
  | .none => ""
  | .immediate => "imm"
  | .register .general reg => "r" ++ toString reg.toNat
  | .register .float reg => "f" ++ toString reg.toNat
  | .spilled _ slot => "[sp+" ++ toString (8 * slot.toNat) ++ "]"

structure Allocation where
  placements : Array Placement
  spillSlots : Nat
  deriving DecidableEq, Repr, Inhabited

namespace Allocation

def empty : Allocation := ⟨#[], 0⟩

def get (allocation : Allocation) (id : ValueId) : Placement :=
  allocation.placements.getD id .none

def listing (allocation : Allocation) (block : Block) : List String :=
  block.ids.map fun id =>
    match (allocation.get id).text with
    | "" => Ir.idText id
    | place => Ir.idText id ++ " " ++ place

def maxSpillSlots : Nat := 8192

/-- For each number, the last value in the list that uses it. -/
def lastUses (block : Block) : Array (Option ValueId) :=
  block.values.foldl
    (fun last (id, value) =>
      value.uses.foldl (fun last used => last.setIfInBounds used (some id)) last)
    (Array.replicate block.bound Option.none)

/-- A value that holds a register until its last use. -/
structure Active where
  lastUse : ValueId
  value : ValueId
  reg : UInt8
  deriving DecidableEq, Repr, Inhabited

structure Pool where
  /-- Free registers, the next one first. -/
  free : List UInt8
  /-- Values in registers, by ascending last use. -/
  active : List Active
  deriving DecidableEq, Repr, Inhabited

namespace Pool

def ofPlatform (platform : Platform) (registerClass : RegisterClass) : Pool :=
  { free := (platform.registers registerClass).map HostRegister.id, active := [] }

def expire (pool : Pool) (now : ValueId) : Pool :=
  let (ended, active) := pool.active.span fun entry => entry.lastUse < now
  { free := ended.foldl (fun free entry => entry.reg :: free) pool.free, active }

/-- Enters a value behind those that end no later. -/
def insert (pool : Pool) (entry : Active) : Pool :=
  let (before, behind) := pool.active.span fun other => other.lastUse ≤ entry.lastUse
  { pool with active := before ++ entry :: behind }

end Pool

structure Scan where
  placements : Array Placement
  general : Pool
  float : Pool
  spillSlots : Nat
  deriving Repr, Inhabited

namespace Scan

def pool (scan : Scan) : RegisterClass → Pool
  | .general => scan.general
  | .float => scan.float

def setPool (scan : Scan) (registerClass : RegisterClass) (pool : Pool) : Scan :=
  match registerClass with
  | .general => { scan with general := pool }
  | .float => { scan with float := pool }

def place (scan : Scan) (id : ValueId) (placement : Placement) : Scan :=
  { scan with placements := scan.placements.setIfInBounds id placement }

def spill (scan : Scan) (registerClass : RegisterClass) (id : ValueId) :
    Except CompileError Scan :=
  if scan.spillSlots < maxSpillSlots then
    let slot := BitVec.ofNat 16 scan.spillSlots
    .ok { scan.place id (.spilled registerClass slot) with spillSlots := scan.spillSlots + 1 }
  else .error (.spillExhausted scan.spillSlots)

def hold (scan : Scan) (registerClass : RegisterClass) (pool : Pool) (entry : Active) :
    Scan :=
  (scan.place entry.value (.register registerClass entry.reg)).setPool registerClass
    (pool.insert entry)

def assign (scan : Scan) (registerClass : RegisterClass) (id lastUse : ValueId) :
    Except CompileError Scan :=
  let pool := (scan.pool registerClass).expire id
  match pool.free with
  | reg :: free =>
    .ok (scan.hold registerClass { pool with free } { lastUse, value := id, reg })
  | [] =>
    match pool.active.getLast? with
    | some longest =>
      if lastUse < longest.lastUse then do
        let spilled ← scan.spill registerClass longest.value
        let shorter := { pool with active := pool.active.dropLast }
        return spilled.hold registerClass shorter { lastUse, value := id, reg := longest.reg }
      else (scan.setPool registerClass pool).spill registerClass id
    | none => (scan.setPool registerClass pool).spill registerClass id

def visit (platform : Platform) (last : Array (Option ValueId)) (scan : Scan) (id : ValueId)
    (value : Value) : Except CompileError Scan :=
  match value.kind.resultClass? with
  | none => .ok scan
  | some registerClass =>
    let lastUse := (last.getD id Option.none).getD id
    match value.kind with
    | .constant type constant =>
      if platform.isImmediate type constant then .ok (scan.place id .immediate)
      else scan.assign registerClass id lastUse
    | _ => scan.assign registerClass id lastUse

end Scan

def ofBlock (block : Block) (platform : Platform) : Except CompileError Allocation := do
  let start : Scan :=
    { placements := Array.replicate block.bound .none
      general := .ofPlatform platform .general
      float := .ofPlatform platform .float
      spillSlots := 0 }
  let last := lastUses block
  let scan ← block.values.foldlM (fun scan (id, value) => scan.visit platform last id value)
    start
  return ⟨scan.placements, scan.spillSlots⟩

end Allocation

end MipsRecompiler
