import MipsRecompiler.Machine
import MipsRecompiler.Word.ByteMask

/-!
# Data accesses

Loads and stores as instructions perform them: whole units, the left and right parts of an
unaligned one, and linked pairs. The unaligned forms work on a lane that holds the accessed unit
in its most significant bytes, so one set of byte masks serves both widths.
-/

set_option autoImplicit false

namespace MipsRecompiler.Machine

variable {β : Type} [Bus β]

abbrev Access (β : Type) : Type → Type :=
  EStateM Fault (Machine β)

/-- The physical address of an aligned access, or the fault. -/
def physicalOf (address : DoubleWord) (access : AccessKind) (size : AccessSize) :
    Access β Word := do
  match (← get).translate address access size with
  | .ok physical => return physical
  | .error fault => throw fault

def readBus (physical : Word) (size : AccessSize) : Access β DoubleWord :=
  modifyGet fun machine =>
    let (value, bus) := Bus.read machine.bus physical size
    (value, { machine with bus })

def writeBus (physical : Word) (size : AccessSize) (value : DoubleWord) : Access β Unit :=
  modify fun machine => { machine with bus := Bus.write machine.bus physical size value }

def load (size : AccessSize) (signed : Bool) (address : DoubleWord) : Access β DoubleWord := do
  let physical ← physicalOf address .load size
  return size.widen signed (← readBus physical size)

/-- Stores the low bytes of a value in an aligned unit. -/
def store (size : AccessSize) (address value : DoubleWord) : Access β Unit := do
  let physical ← physicalOf address .store size
  writeBus physical size value

def unitOf (address : DoubleWord) (access : AccessKind) (size : AccessSize) :
    Access β Word :=
  physicalOf (address &&& ~~~size.offsetMask) access size

/-- The distance from the bottom of a lane to the unit in it. -/
def laneShift (size : AccessSize) : Nat :=
  64 - size.bits

def ofLane (size : AccessSize) (lane : DoubleWord) : DoubleWord :=
  size.widen true (lane >>> laneShift size)

/-- Merges the bytes from the address to the end of its unit into the top of a register. -/
def loadLeft (size : AccessSize) (address register : DoubleWord) : Access β DoubleWord := do
  let physical ← unitOf address .load size
  let memory := (← readBus physical size) <<< laneShift size
  let offset := size.offsetOf address
  let mask := ByteMask.lanes (size.bytes - offset) 0
  return ofLane size (mask.insert (register <<< laneShift size) (memory <<< (8 * offset)))

/-- Merges the bytes from the start of the unit to the address into the bottom of a register. -/
def loadRight (size : AccessSize) (address register : DoubleWord) : Access β DoubleWord := do
  let physical ← unitOf address .load size
  let memory := (← readBus physical size) <<< laneShift size
  let offset := size.offsetOf address
  let behind := size.bytes - 1 - offset
  let mask := ByteMask.lanes (offset + 1) behind
  return ofLane size (mask.insert (register <<< laneShift size) (memory >>> (8 * behind)))

/-- Stores the top bytes of a register from the address to the end of its unit. -/
def storeLeft (size : AccessSize) (address register : DoubleWord) : Access β Unit := do
  let physical ← unitOf address .store size
  let lane := (← readBus physical size) <<< laneShift size
  let offset := size.offsetOf address
  let mask := ByteMask.lanes (size.bytes - offset) offset
  let new := mask.insert lane ((register <<< laneShift size) >>> (8 * offset))
  writeBus physical size (new >>> laneShift size)

/-- Stores the bottom bytes of a register from the start of the unit to the address. -/
def storeRight (size : AccessSize) (address register : DoubleWord) : Access β Unit := do
  let physical ← unitOf address .store size
  let lane := (← readBus physical size) <<< laneShift size
  let offset := size.offsetOf address
  let behind := size.bytes - 1 - offset
  let mask := ByteMask.lanes (offset + 1) 0
  let new := mask.insert lane ((register <<< laneShift size) <<< (8 * behind))
  writeBus physical size (new >>> laneShift size)

/-- Loads a unit and links it: the next conditional store may succeed. -/
def loadLinked (size : AccessSize) (address : DoubleWord) : Access β DoubleWord := do
  let physical ← physicalOf address .load size
  let value ← readBus physical size
  modify fun machine => machine.mapCpu fun cpu =>
    { cpu with
      llBit := true
      control := cpu.control.set SystemControl.llAddr ((physical >>> 4).setWidth 64) }
  return size.widen true value

/-- Stores a unit if the link is unbroken. The result is 1 if it was, else 0. -/
def storeConditional (size : AccessSize) (address value : DoubleWord) :
    Access β DoubleWord := do
  let physical ← physicalOf address .store size
  if (← get).cpu.llBit then
    writeBus physical size value
    return 1
  else
    return 0

end MipsRecompiler.Machine
