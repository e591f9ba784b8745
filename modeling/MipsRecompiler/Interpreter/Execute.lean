import MipsRecompiler.Instruction.Illegal
import MipsRecompiler.Memory.Access

/-!
# Executing one instruction

The effect of an instruction on the machine, apart from the program counter, and where execution
goes next.
-/

set_option autoImplicit false

namespace MipsRecompiler.Interpreter

variable {β : Type} [Bus β]

inductive Flow where
  /-- On to the following instruction. -/
  | next
  /-- Through the delay slot, unless a likely branch that is not taken skips it. -/
  | branch (target : DoubleWord) (taken likely : Bool)
  /-- To the target at once. -/
  | jump (target : DoubleWord)
  deriving DecidableEq, Repr, Inhabited

inductive Interruption where
  | exception (cause : ExceptionCause)
  | illegal (reason : IllegalInstruction)
  deriving DecidableEq, Repr, Inhabited

abbrev Execution (β : Type) : Type → Type :=
  EStateM Interruption (Machine β)

/-- A memory access whose faults become guest exceptions. -/
def accessing {α : Type} (access : Machine.Access β α) : Execution β α := fun machine =>
  match access machine with
  | .ok value machine => .ok value machine
  | .error fault machine => .error (.exception (.ofFault fault)) machine

def raising {α : Type} (code : ExceptionCode) : Execution β α :=
  throw (.exception (.ofCode code))

/-- What an instruction word says, unless that is reserved. -/
def legally {α : Type} (result : Except IllegalInstruction α) : Execution β α :=
  match result with
  | .ok value => pure value
  | .error reason => throw (.illegal reason)

def changeCpu (change : CpuState → CpuState) : Execution β Flow := do
  modify (·.mapCpu change)
  return .next

def writeGpr (reg : RegisterNumber) (value : DoubleWord) : Execution β Flow :=
  changeCpu (·.writeGpr reg value)

/-- Writes a general register unless the result overflowed. -/
def writeChecked (reg : RegisterNumber) (result : Option DoubleWord) :
    Execution β Flow :=
  match result with
  | some value => writeGpr reg value
  | none => raising .overflow

def changeMachine (change : Machine β → Machine β) : Execution β Flow := do
  modify change
  return .next

/-- The address that a jump or branch and its link continue at: behind the delay slot. -/
def link (reg : RegisterNumber) (pc : DoubleWord) : Execution β Unit :=
  modify (·.mapCpu (·.writeGpr reg (pc + 8)))

/-- The second operand and the target of arithmetic in this form. Traps compare with a sign
extended immediate, also when the comparison is unsigned. -/
def arithmeticOperands (inst : Instruction) (form : Form) (rt : DoubleWord) :
    DoubleWord × RegisterNumber :=
  match form with
  | .immediate true => (inst.signedImmediate, inst.rt)
  | .immediate false => (inst.unsignedImmediate, inst.rt)
  | .trapImmediate _ => (inst.signedImmediate, 0)
  | _ => (rt, inst.rd)

def floatResult (format : FloatFormat) (reg : RegisterNumber)
    (value : CpuState → DoubleWord) : Execution β Flow :=
  changeCpu fun cpu => cpu.writeFloat format reg (value cpu)

/-- Performs an operation. The floating point unit is checked first, and a link register is
written before a branch is refused. -/
def perform (inst : Instruction) (pc : DoubleWord) (form : Form) (operation : Operation) :
    Execution β Flow := do
  let cpu := (← get).cpu
  let rs := cpu.readGpr inst.rs
  let rt := cpu.readGpr inst.rt
  let (operand, target) := arithmeticOperands inst form rt
  let address := rs + inst.signedImmediate
  let compared := if form = .branchTwo then rt else 0
  let relative := inst.branchTarget pc
  if operation.usesFloat && !cpu.control.floatUsable then
    throw (.exception (.coprocessorUnusable 1))
  match operation with
  | .nop | .cacheControl => return .next
  | .jump => return .branch (inst.jumpTarget pc) true false
  | .jumpLink =>
    link 31 pc
    return .branch (inst.jumpTarget pc) true false
  | .jumpRegister => return .branch rs true false
  | .jumpRegisterLink =>
    link inst.rd pc
    return .branch rs true false
  | .branch mode => return .branch relative (mode.holds rs compared) false
  | .branchLikely mode => return .branch relative (mode.holds rs compared) true
  | .branchLink mode =>
    link 31 pc
    return .branch relative (mode.holds rs compared) false
  | .branchLinkLikely mode =>
    link 31 pc
    return .branch relative (mode.holds rs compared) true
  | .branchFloat onTrue likely => return .branch relative (cpu.floatCondition == onTrue) likely
  | .addTrapWord => writeChecked target (addWord? rs operand)
  | .addTrapDouble => writeChecked target (addDouble? rs operand)
  | .subTrapWord => writeChecked target (subWord? rs operand)
  | .subTrapDouble => writeChecked target (subDouble? rs operand)
  | .addWord => writeGpr target (signExtendWord (rs + operand))
  | .addDouble => writeGpr target (rs + operand)
  | .subWord => writeGpr target (signExtendWord (rs - operand))
  | .subDouble => writeGpr target (rs - operand)
  | .setLess => writeGpr target (if Comparison.lt.holds rs operand then 1 else 0)
  | .setLessUnsigned => writeGpr target (if Comparison.ltU.holds rs operand then 1 else 0)
  | .and => writeGpr target (rs &&& operand)
  | .or => writeGpr target (rs ||| operand)
  | .xor => writeGpr target (rs ^^^ operand)
  | .nor => writeGpr target (~~~(rs ||| operand))
  | .insertUpper => writeGpr inst.rt inst.upperImmediate
  | .shift op width =>
    let amount : DoubleWord := match form with
      | .shiftImmediate offset => BitVec.ofNat 64 (inst.shiftAmount.val + offset)
      | _ => rs
    writeGpr inst.rd (op.apply width rt amount)
  | .mulDiv op =>
    let (hi, lo) := op.apply rs rt
    changeCpu fun cpu => { cpu with hi, lo }
  | .moveFromProduct .hi => writeGpr inst.rd cpu.hi
  | .moveFromProduct .lo => writeGpr inst.rd cpu.lo
  | .moveToProduct .hi => changeCpu fun cpu => { cpu with hi := rs }
  | .moveToProduct .lo => changeCpu fun cpu => { cpu with lo := rs }
  | .memory size | .memoryUnsigned size =>
    if form = .store then
      accessing (Machine.store size address rt)
      return .next
    else
      let signed := operation = .memory size
      writeGpr inst.rt (← accessing (Machine.load size signed address))
  | .memoryLeft size =>
    if form = .store then
      accessing (Machine.storeLeft size address rt)
      return .next
    else writeGpr inst.rt (← accessing (Machine.loadLeft size address rt))
  | .memoryRight size =>
    if form = .store then
      accessing (Machine.storeRight size address rt)
      return .next
    else writeGpr inst.rt (← accessing (Machine.loadRight size address rt))
  | .memoryLinked size =>
    if form = .store then
      writeGpr inst.rt (← accessing (Machine.storeConditional size address rt))
    else writeGpr inst.rt (← accessing (Machine.loadLinked size address))
  | .trap mode => if mode.holds rs operand then raising .trap else return .next
  | .systemCall => raising .syscall
  | .breakpoint => raising .breakpoint
  | .moveFromControl double => writeGpr inst.rt (cpu.control.read inst.rd double)
  | .moveToControl double => changeMachine (·.mapControl (·.write inst.rd rt double))
  | .tlbRead => changeMachine Machine.tlbRead
  | .tlbWriteIndexed => changeMachine Machine.tlbWriteIndexed
  | .tlbWriteRandom => changeMachine Machine.tlbWriteRandom
  | .tlbProbe => changeMachine Machine.tlbProbe
  | .exceptionReturn =>
    let (target, cpu) := cpu.leaveException
    modify fun machine => { machine with cpu }
    return .jump target
  | .moveFromFloat double =>
    writeGpr inst.rt <|
      if double then cpu.readFloat64 inst.rd else (cpu.readFloat32 inst.rd).signExtend 64
  | .moveToFloat double =>
    changeCpu fun cpu =>
      if double then cpu.writeFloat64 inst.rd rt
      else cpu.writeFloat32 inst.rd (rt.setWidth 32)
  | .moveFromFloatControl => writeGpr inst.rt (cpu.readFloatControl inst.rd)
  | .moveToFloatControl => changeCpu (·.writeFloatControl inst.rd rt)
  | .floatMemory size =>
    let format : FloatFormat := if size = .double then .double else .single
    if form = .floatStore then
      accessing (Machine.store size address (cpu.readFloat format inst.rt))
      return .next
    else
      let value ← accessing (Machine.load size false address)
      floatResult format inst.rt fun _ => value
  | .floatArithmetic op =>
    let format ← legally (inst.arithmeticFormat pc)
    floatResult format inst.fd fun cpu =>
      FloatingPoint.binary op format (cpu.readFloat format inst.fs) (cpu.readFloat format inst.ft)
  | .floatUnary op =>
    let format ← legally (inst.arithmeticFormat pc)
    floatResult format inst.fd fun cpu =>
      FloatingPoint.unary op format (cpu.readFloat format inst.fs)
  | .floatMove =>
    let format ← legally (inst.arithmeticFormat pc)
    floatResult format inst.fd (·.readFloat format inst.fs)
  | .floatConvert target mode =>
    let source ← legally (inst.conversionSource pc target)
    floatResult target inst.fd fun cpu =>
      FloatingPoint.convert source target mode (cpu.readFloat source inst.fs)
  | .floatCompare =>
    let format ← legally (inst.arithmeticFormat pc)
    changeCpu fun cpu => cpu.setFloatCondition <|
      FloatingPoint.compare inst.condition.val format
        (cpu.readFloat format inst.fs) (cpu.readFloat format inst.ft)

/-- Fetches the instruction at an address and executes it. -/
def fetchAndPerform (pc : DoubleWord) : Execution β Flow := do
  let physical ← accessing (Machine.physicalOf pc .fetch .word)
  let word ← modifyGet fun machine =>
    let (word, bus) := Bus.fetch machine.bus physical
    (word, { machine with bus })
  let inst : Instruction := ⟨word⟩
  let (form, operation) ← legally (inst.legal pc)
  perform inst pc form operation

end MipsRecompiler.Interpreter
