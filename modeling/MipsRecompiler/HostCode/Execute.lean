import MipsRecompiler.HostCode.Decode
import MipsRecompiler.Memory.Access

/-!
# Running host code

A block runs over a frame of host registers and spill slots, all zero at first, until it ends or
leaves through a site. It then reports how many guest instructions it has executed. What was done
before malformed code is met stays done.
-/

set_option autoImplicit false

namespace MipsRecompiler

open Ir (GuestRegister StateField)

namespace CpuState

def readGuest (cpu : CpuState) (reg : GuestRegister) : DoubleWord :=
  if reg.isFloat then cpu.fgr.read reg.within else cpu.gpr.read reg.within

/-- Writes a guest register raw. The zero register stays as it is. -/
def writeGuest (cpu : CpuState) (reg : GuestRegister) (value : DoubleWord) : CpuState :=
  if reg.isFloat then { cpu with fgr := cpu.fgr.write reg.within value }
  else cpu.writeGpr reg.within value

def readField (cpu : CpuState) : StateField → DoubleWord
  | .hi => cpu.hi
  | .lo => cpu.lo
  | .fcr31 => cpu.fcr31.setWidth 64
  | .control reg => cpu.control.get (Ir.selectedRegister reg)

def writeField (cpu : CpuState) (field : StateField) (value : DoubleWord) : CpuState :=
  match field with
  | .hi => { cpu with hi := value }
  | .lo => { cpu with lo := value }
  | .fcr31 => { cpu with fcr31 := value.setWidth 32 }
  | .control reg => { cpu with control := cpu.control.set (Ir.selectedRegister reg) value }

end CpuState

namespace Machine

variable {β : Type} [Bus β]

/-- Runs a routine. Missing arguments are zero, and a routine without a result gives zero. -/
def callRoutine (routine : Ir.Routine) (arguments : List DoubleWord) : Access β DoubleWord := do
  let first := arguments.getD 0 0
  let second := arguments.getD 1 0
  let change (act : Machine β → Machine β) : Access β DoubleWord := do
    modify act
    return 0
  match routine with
  | .moveFromControl reg double =>
    return (← get).cpu.control.read (Ir.selectedRegister reg) double
  | .moveToControl reg double =>
    change (·.mapControl (·.write (Ir.selectedRegister reg) first double))
  | .tlbRead => change tlbRead
  | .tlbWriteIndexed => change tlbWriteIndexed
  | .tlbWriteRandom => change tlbWriteRandom
  | .tlbProbe => change tlbProbe
  | .exceptionReturn =>
    modifyGet fun machine =>
      let (target, cpu) := machine.cpu.leaveException
      (target, { machine with cpu })
  | .loadLeft size => loadLeft size first second
  | .loadRight size => loadRight size first second
  | .storeLeft size =>
    storeLeft size first second
    return 0
  | .storeRight size =>
    storeRight size first second
    return 0
  | .loadLinked size => loadLinked size first
  | .storeConditional size => storeConditional size first second

end Machine

namespace HostCode

open Ir (Site)

/-- The host registers and spill slots of a running block. -/
structure Frame where
  general : Vector DoubleWord 32
  float : Vector DoubleWord 32
  spill : Array DoubleWord
  /-- Where the guest continues at the end of the block. -/
  exitPc : Option DoubleWord
  deriving Repr

namespace Frame

def ofSpillSlots (slots : Nat) : Frame where
  general := Vector.replicate 32 0
  float := Vector.replicate 32 0
  spill := Array.replicate slots 0
  exitPc := none

/-- The value at an operand, if the frame has the place. -/
def read? (frame : Frame) : Operand → Option DoubleWord
  | .general reg => frame.general[reg.toNat]?
  | .float reg => frame.float[reg.toNat]?
  | .spill slot => frame.spill[slot.toNat]?
  | .immediate value => some value

def write? (frame : Frame) (target : Operand) (value : DoubleWord) : Option Frame :=
  match target with
  | .general reg =>
    if bound : reg.toNat < 32 then
      some { frame with general := frame.general.set reg.toNat value bound }
    else none
  | .float reg =>
    if bound : reg.toNat < 32 then
      some { frame with float := frame.float.set reg.toNat value bound }
    else none
  | .spill slot =>
    if bound : slot.toNat < frame.spill.size then
      some { frame with spill := frame.spill.set slot.toNat value bound }
    else none
  | .immediate _ => none

end Frame

structure Running (β : Type) where
  frame : Frame
  machine : Machine β

abbrev Run (β : Type) : Type → Type :=
  EStateM CorruptBlock (Running β)

namespace Run

variable {β : Type}

/-- Something that has to be there, or the operation at this offset is malformed. -/
def require {α : Type} (offset : Nat) (value : Option α) : Run β α :=
  match value with
  | some value => return value
  | none => throw ⟨offset⟩

def read (offset : Nat) (operand : Operand) : Run β DoubleWord := do
  require offset ((← get).frame.read? operand)

def write (offset : Nat) (target : Operand) (value : DoubleWord) : Run β Unit := do
  let frame ← require offset ((← get).frame.write? target value)
  modify fun running => { running with frame }

def changeCpu (change : CpuState → CpuState) : Run β Unit :=
  modify fun running => { running with machine := running.machine.mapCpu change }

/-- Decides where the guest continues at the end of the block. -/
def setExitPc (pc : DoubleWord) : Run β Unit :=
  modify fun running => { running with frame := { running.frame with exitPc := some pc } }

def leave (offset : Nat) (site : Site PackedFlush) : Run β (BitVec 32) := do
  for entry in site.flush.read do
    match entry with
    | .ok (reg, operand) =>
      let value ← read offset operand
      changeCpu (·.writeGuest reg value)
    | .error corrupt => throw corrupt
  return site.retired

def raise (offset : Nat) (site : Site PackedFlush) (exception : ExceptionDescriptor) :
    Run β (Option (BitVec 32)) := do
  let retired ← leave offset site
  changeCpu (·.raise exception)
  return some retired

def raiseAt (offset : Nat) (site : Site PackedFlush) (cause : ExceptionCause) :
    Run β (Option (BitVec 32)) :=
  raise offset site { cause, pc := site.pc, delaySlot := site.delaySlot }

/-- A memory access, whose fault is a value here. -/
def access {α : Type} (action : Machine.Access β α) : Run β (Except Fault α) :=
  fun running =>
    match action running.machine with
    | .ok value machine => .ok (.ok value) { running with machine }
    | .error fault machine => .ok (.error fault) { running with machine }

variable [Bus β]

def readBus (address : DoubleWord) (size : AccessSize) : Run β DoubleWord :=
  modifyGet fun running =>
    let (value, bus) := Bus.read running.machine.bus (address.setWidth 32) size
    (value, { running with machine := { running.machine with bus } })

def writeBus (address : DoubleWord) (size : AccessSize) (value : DoubleWord) :
    Run β Unit :=
  modify fun running =>
    let bus := Bus.write running.machine.bus (address.setWidth 32) size value
    { running with machine := { running.machine with bus } }

/-- Runs the operation at an offset. The result is the number of guest instructions executed if
the block is left. -/
def perform (offset : Nat) (op : ReadOp) : Run β (Option (BitVec 32)) := do
  match op with
  | .move target source =>
    write offset target (← read offset source)
    return none
  | .loadGuest target reg =>
    write offset target ((← get).machine.cpu.readGuest reg)
    return none
  | .flushGuest reg source =>
    let value ← read offset source
    changeCpu (·.writeGuest reg value)
    return none
  | .binary op target lhs rhs site =>
    let a ← read offset lhs
    let b ← read offset rhs
    match op.eval? a b with
    | some value =>
      write offset target value
      return none
    | none => raiseAt offset (← require offset site) (.ofCode .overflow)
  | .not target source =>
    write offset target (~~~(← read offset source))
    return none
  | .cast type target source =>
    write offset target (type.cast (← read offset source))
    return none
  | .shift op width target value amount =>
    let a ← read offset value
    let b ← read offset amount
    write offset target (op.apply width a b)
    return none
  | .check mode target lhs rhs =>
    let a ← read offset lhs
    let b ← read offset rhs
    write offset target (if mode.holds a b then 1 else 0)
    return none
  | .translate kind size target address site =>
    let size ← require offset (AccessSize.ofBytes? size.toNat)
    let address ← read offset address
    match (← get).machine.translate address kind size with
    | .ok physical =>
      write offset target (physical.setWidth 64)
      return none
    | .error fault => raiseAt offset site (.ofFault fault)
  | .load type target address =>
    let value ← readBus (← read offset address) type.size
    write offset target (type.cast value)
    return none
  | .store size address value =>
    let size ← require offset (AccessSize.ofBytes? size.toNat)
    let address ← read offset address
    let value ← read offset value
    writeBus address size value
    return none
  | .loadState field target =>
    write offset target ((← get).machine.cpu.readField field)
    return none
  | .storeState field source =>
    let value ← read offset source
    changeCpu (·.writeField field value)
    return none
  | .mulDiv op lhs rhs =>
    let a ← read offset lhs
    let b ← read offset rhs
    let (hi, lo) := op.apply a b
    changeCpu fun cpu => { cpu with hi, lo }
    return none
  | .setExitPc pc =>
    setExitPc (← read offset pc)
    return none
  | .setExitPcIf condition whenTrue whenFalse =>
    let chosen := if (← read offset condition) ≠ 0 then whenTrue else whenFalse
    setExitPc (← read offset chosen)
    return none
  | .exitIf condition exit site =>
    if (← read offset condition) = 0 then return none
    match exit with
    | .exception descriptor => raise offset site descriptor
    | .branch pc =>
      let retired ← leave offset site
      changeCpu fun cpu => { cpu with pc }
      return some retired
  | .call code target arguments site =>
    let values ← arguments.toList.mapM (read offset)
    let routine ← require offset code.routine?
    match ← access (Machine.callRoutine routine values) with
    | .ok result =>
      if let some target := target then write offset target result
      return none
    | .error fault => raiseAt offset (← require offset site) (.ofFault fault)
  | .floatBinary op format target lhs rhs =>
    let a ← read offset lhs
    let b ← read offset rhs
    write offset target (FloatingPoint.binary op format a b)
    return none
  | .floatUnary op format target source =>
    write offset target (FloatingPoint.unary op format (← read offset source))
    return none
  | .floatConvert source target mode result operand =>
    write offset result (FloatingPoint.convert source target mode (← read offset operand))
    return none
  | .floatCompare condition format lhs rhs =>
    let a ← read offset lhs
    let b ← read offset rhs
    changeCpu (·.setFloatCondition (FloatingPoint.compare condition.toNat format a b))
    return none
  | .finish retired =>
    let pc ← require offset (← get).frame.exitPc
    changeCpu fun cpu => { cpu with pc }
    return some retired

/-- Runs operations until one leaves the block. A block has no end only if its last operation is
malformed. -/
def performAll : List Item → Run β (BitVec 32)
  | [] => throw ⟨0⟩
  | item :: items => do
    match item.op with
    | .error corrupt => throw corrupt
    | .ok op =>
      match ← perform item.offset op with
      | some retired => return retired
      | none => performAll items

end Run

variable {β : Type} [Bus β]

/-- Runs a block on a machine: the number of guest instructions executed, and the machine
afterwards. -/
def execute (code : List UInt8) (machine : Machine β) :
    Except CorruptBlock (BitVec 32) × Machine β :=
  match Program.read code with
  | .error corrupt => (.error corrupt, machine)
  | .ok program =>
    match Run.performAll program.items { frame := .ofSpillSlots program.spillSlots, machine } with
    | .ok retired running => (.ok retired, running.machine)
    | .error corrupt running => (.error corrupt, running.machine)

end HostCode

end MipsRecompiler
