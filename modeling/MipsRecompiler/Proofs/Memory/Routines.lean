import MipsRecompiler.Proofs.Cpu.ControlWrites
import MipsRecompiler.Proofs.Cpu.Exceptions
import MipsRecompiler.Proofs.Effects

/-!
# What accesses and routines change

An access that faults changes nothing. Loads leave memory alone, and most routines leave the table
and the registers alone that addresses and floating point instructions depend on.
-/

set_option autoImplicit false

namespace MipsRecompiler

/-- A bus whose reads have no effect. -/
class QuietBus (β : Type) [Bus β] : Prop where
  read_bus : ∀ (bus : β) (physical : Word) (size : AccessSize),
    (Bus.read bus physical size).2 = bus

/-- A bus whose reads give no more bits than were asked for and have no effect, and whose writes
look at no more bits than they write. -/
class LawfulBus (β : Type) [Bus β] : Prop where
  read_fits : ∀ (bus : β) (physical : Word) (size : AccessSize),
    ((Bus.read bus physical size).1.setWidth size.bits).setWidth 64 =
      (Bus.read bus physical size).1
  read_bus : ∀ (bus : β) (physical : Word) (size : AccessSize),
    (Bus.read bus physical size).2 = bus
  write_cut : ∀ (bus : β) (physical : Word) (size : AccessSize) (value : DoubleWord),
    Bus.write bus physical size ((value.setWidth size.bits).setWidth 64) =
      Bus.write bus physical size value

attribute [simp] LawfulBus.read_bus

instance LawfulBus.quiet {β : Type} [Bus β] [LawfulBus β] : QuietBus β :=
  ⟨LawfulBus.read_bus⟩

private theorem foldl_high (bytes : List UInt8) (value : DoubleWord) (width : Nat)
    (high : ∀ index, width ≤ index → value.getLsbD index = false) {index : Nat}
    (beyond : width + 8 * bytes.length ≤ index) :
    (bytes.foldl (fun (value : DoubleWord) byte => (value <<< 8) ||| byte.toBitVec.setWidth 64)
      value).getLsbD index = false := by
  induction bytes generalizing value width with
  | nil => exact high index beyond
  | cons byte rest ih =>
      simp only [List.length_cons] at beyond
      refine ih _ (width + 8) (fun other above => ?_) (by omega)
      rw [BitVec.getLsbD_or, BitVec.getLsbD_shiftLeft, BitVec.getLsbD_setWidth,
        high (other - 8) (by omega), BitVec.getLsbD_of_ge byte.toBitVec _ (by omega)]
      simp

private theorem bigEndian_fits {width : Nat} {bytes : List UInt8}
    (length : 8 * bytes.length = width) :
    ((bigEndian bytes).setWidth width).setWidth 64 = bigEndian bytes := by
  apply BitVec.eq_of_getLsbD_eq
  intro index bound
  by_cases inside : index < width
  · simp [inside, bound]
  · have high : (bigEndian bytes).getLsbD index = false :=
      foldl_high bytes 0 0 (by simp) (by omega)
    simp [inside, high]

private theorem bigEndianBytes_cut (count : Nat) (value : DoubleWord) :
    bigEndianBytes count ((value.setWidth (8 * count)).setWidth 64) =
      bigEndianBytes count value := by
  refine List.map_congr_left fun index member => ?_
  have inside := List.mem_range.mp member
  congr 1
  apply BitVec.eq_of_getLsbD_eq
  intro bit bound
  have kept : 8 * (count - 1 - index) + bit < 8 * count := by omega
  by_cases small : 8 * (count - 1 - index) + bit < 64
  · simp [BitVec.getLsbD_setWidth, BitVec.getLsbD_ushiftRight, kept, small]
  · have beyond : 64 ≤ 8 * (count - 1 - index) + bit := Nat.le_of_not_lt small
    simp [BitVec.getLsbD_setWidth, BitVec.getLsbD_ushiftRight, BitVec.getLsbD_of_ge, beyond]

instance : LawfulBus Ram where
  read_fits ram physical size := by
    simp only [Bus.read, Ram.read]
    split
    · exact bigEndian_fits (by simp [ByteStore.getBytes, AccessSize.bits])
    · simp
  read_bus _ _ _ := rfl
  write_cut ram physical size value := by
    simp only [Bus.write, Ram.write, AccessSize.bits, bigEndianBytes_cut]

/-- A load widens what the bus gives as its instruction says. -/
theorem LawfulBus.cast_ofLoad {β : Type} [Bus β] [LawfulBus β] (bus : β) (physical : Word)
    (size : AccessSize) (signed : Bool) :
    (Ir.ValueType.ofLoad size signed).cast (Bus.read bus physical size).1 =
      size.widen signed (Bus.read bus physical size).1 := by
  have fits := LawfulBus.read_fits bus physical size
  generalize (Bus.read bus physical size).1 = value at fits
  cases signed with
  | false => cases size <;> exact fits
  | true =>
      cases size with
      | double =>
          simp [Ir.ValueType.ofLoad, Ir.ValueType.cast, Ir.ValueType.isSigned, Ir.ValueType.size,
            AccessSize.widen, widenBytes, AccessSize.bits, AccessSize.bytes]
      | _ => rfl

@[simp] theorem Ir.ValueType.size_ofLoad (size : AccessSize) (signed : Bool) :
    (Ir.ValueType.ofLoad size signed).size = size := by
  cases size <;> cases signed <;> rfl

namespace Machine

variable {β : Type} [Bus β]

omit [Bus β] in
theorem physicalOf_bind {α : Type} (address : DoubleWord) (access : AccessKind)
    (size : AccessSize) (next : Word → Access β α) (machine : Machine β) :
    (physicalOf address access size >>= next) machine =
      match machine.translate address access size with
      | .ok physical => next physical machine
      | .error fault => .error fault machine := by
  simp only [bind, EStateM.bind, physicalOf, getState]
  cases machine.translate address access size <;> rfl

omit [Bus β] in
private theorem physicalOf_bind_error {α : Type} {address : DoubleWord} {access : AccessKind}
    {size : AccessSize} {next : Word → Access β α} {machine after : Machine β} {fault : Fault}
    (fails : (physicalOf address access size >>= next) machine = .error fault after)
    (total : ∀ physical, next physical machine ≠ .error fault after) : after = machine := by
  rw [physicalOf_bind] at fails
  cases translated : machine.translate address access size with
  | ok physical =>
      rw [translated] at fails
      exact absurd fails (total physical)
  | error reason =>
      rw [translated] at fails
      cases fails
      rfl

omit [Bus β] in
private theorem physicalOf_bind_ok {α : Type} {address : DoubleWord} {access : AccessKind}
    {size : AccessSize} {next : Word → Access β α} {machine after : Machine β} {result : α}
    (gives : (physicalOf address access size >>= next) machine = .ok result after) :
    ∃ physical, next physical machine = .ok result after := by
  rw [physicalOf_bind] at gives
  cases translated : machine.translate address access size with
  | ok physical =>
      rw [translated] at gives
      exact ⟨physical, gives⟩
  | error reason =>
      rw [translated] at gives
      cases gives

omit [Bus β] in
theorem bind_pure {α τ : Type} (access : Access β α) (value : τ) (machine : Machine β) :
    (access >>= fun _ => pure value) machine =
      match access machine with
      | .ok _ after => .ok value after
      | .error fault after => .error fault after := by
  simp only [bind, EStateM.bind]
  cases access machine <;> rfl

omit [Bus β] in
private theorem bind_pure_ok {α τ : Type} {access : Access β α} {value result : τ}
    {machine after : Machine β}
    (gives : (access >>= fun _ => pure value) machine = .ok result after) :
    ∃ one, access machine = .ok one after := by
  rw [bind_pure] at gives
  cases ends : access machine with
  | ok one next =>
      rw [ends] at gives
      cases gives
      exact ⟨one, rfl⟩
  | error reason next =>
      rw [ends] at gives
      cases gives

omit [Bus β] in
private theorem bind_pure_error {α τ : Type} {access : Access β α} {value : τ}
    {machine after : Machine β} {fault : Fault}
    (fails : (access >>= fun _ => pure value) machine = .error fault after) :
    access machine = .error fault after := by
  rw [bind_pure] at fails
  cases ends : access machine with
  | ok one next =>
      rw [ends] at fails
      cases fails
  | error reason next =>
      rw [ends] at fails
      cases fails
      rfl

/-- An access that faults has changed nothing. -/
theorem callRoutine_error {routine : Ir.Routine} {arguments : List DoubleWord}
    {machine after : Machine β} {fault : Fault}
    (fails : callRoutine routine arguments machine = .error fault after) : after = machine := by
  cases routine with
  | moveFromControl | moveToControl | tlbRead | tlbWriteIndexed | tlbWriteRandom | tlbProbe
    | exceptionReturn => cases fails
  | loadLeft | loadRight | loadLinked => exact physicalOf_bind_error fails fun _ faults => by cases faults
  | storeLeft | storeRight =>
      exact physicalOf_bind_error (bind_pure_error fails) fun _ faults => by cases faults
  | storeConditional size =>
      refine physicalOf_bind_error fails fun physical => ?_
      simp only [bind, EStateM.bind, getState]
      split
      · intro faults
        cases faults
      · intro faults
        cases faults

theorem load_eq (size : AccessSize) (signed : Bool) (address : DoubleWord)
    (machine : Machine β) :
    load size signed address machine =
      match machine.translate address .load size with
      | .ok physical =>
        .ok (size.widen signed (Bus.read machine.bus physical size).1)
          { machine with bus := (Bus.read machine.bus physical size).2 }
      | .error fault => .error fault machine :=
  physicalOf_bind _ _ _ _ _

theorem store_eq (size : AccessSize) (address value : DoubleWord) (machine : Machine β) :
    store size address value machine =
      match machine.translate address .store size with
      | .ok physical => .ok () { machine with bus := Bus.write machine.bus physical size value }
      | .error fault => .error fault machine :=
  physicalOf_bind _ _ _ _ _

/-- Memory is as it was, and so is how addresses translate. -/
structure Quiet (before after : Machine β) : Prop where
  bus : after.bus = before.bus
  tlb : after.tlb = before.tlb
  space : after.cpu.control.addressSpace = before.cpu.control.addressSpace

section Quiet

omit [Bus β]

variable {before between after : Machine β}

theorem Quiet.refl (machine : Machine β) : Quiet machine machine :=
  ⟨rfl, rfl, rfl⟩

theorem Quiet.trans (first : Quiet before between) (second : Quiet between after) :
    Quiet before after :=
  ⟨second.bus.trans first.bus, second.tlb.trans first.tlb, second.space.trans first.space⟩

theorem Quiet.of_entryHi (bus : after.bus = before.bus) (tlb : after.tlb = before.tlb)
    (entryHi : after.cpu.control.get SystemControl.entryHi =
      before.cpu.control.get SystemControl.entryHi) : Quiet before after :=
  ⟨bus, tlb, by rw [SystemControl.addressSpace, entryHi, SystemControl.addressSpace]⟩

theorem Quiet.translate (quiet : Quiet before after) (address : DoubleWord) (access : AccessKind)
    (size : AccessSize) :
    after.translate address access size = before.translate address access size := by
  simp only [Machine.translate, Tlb.translate, Tlb.resolve, quiet.tlb, quiet.space]

theorem raise_quiet (machine : Machine β) (exception : ExceptionDescriptor) :
    Quiet machine (machine.raise exception) :=
  ⟨rfl, rfl, CpuState.addressSpace_raise⟩

end Quiet

private theorem leaveException_control (cpu : CpuState) {reg : RegisterNumber}
    (differs : SystemControl.status ≠ reg) :
    cpu.leaveException.2.control.get reg = cpu.control.get reg := by
  unfold CpuState.leaveException
  dsimp only
  split <;> exact SystemControl.get_set_of_ne differs

theorem callRoutine_quiet [LawfulBus β] {routine : Ir.Routine} {arguments : List DoubleWord}
    {machine after : Machine β} {result : DoubleWord}
    (none : Effect.ofRoutine? routine = none)
    (gives : callRoutine routine arguments machine = .ok result after) :
    Quiet machine after := by
  cases routine with
  | moveToControl | tlbRead | tlbWriteIndexed | tlbWriteRandom | storeLeft | storeRight
    | storeConditional => cases none
  | moveFromControl reg double =>
      cases gives
      exact .refl machine
  | tlbProbe =>
      cases gives
      exact .of_entryHi rfl rfl (SystemControl.get_set_of_ne (by decide))
  | exceptionReturn =>
      cases gives
      exact .of_entryHi rfl rfl (leaveException_control machine.cpu (by decide))
  | loadLeft | loadRight =>
      obtain ⟨physical, gives⟩ := physicalOf_bind_ok gives
      cases gives
      exact ⟨LawfulBus.read_bus _ _ _, rfl, rfl⟩
  | loadLinked =>
      obtain ⟨physical, gives⟩ := physicalOf_bind_ok gives
      cases gives
      exact .of_entryHi (LawfulBus.read_bus _ _ _) rfl (SystemControl.get_set_of_ne (by decide))

theorem callRoutine_confined [LawfulBus β] {routine : Ir.Routine} {arguments : List DoubleWord}
    {machine after : Machine β} {result : DoubleWord} {effect : Effect}
    (named : Effect.ofRoutine? routine = some effect)
    (gives : callRoutine routine arguments machine = .ok result after) :
    Event.Confined ⟨effect, machine, after⟩ := by
  cases routine with
  | moveFromControl | tlbProbe | exceptionReturn | loadLeft | loadRight | loadLinked => cases named
  | moveToControl reg double =>
      cases named
      cases gives
      refine ⟨rfl, rfl, fun differs => ?_⟩
      exact congrArg (BitVec.setWidth 8)
        (SystemControl.get_write_of_ne differs (by decide) (by decide) _ double)
  | tlbRead | tlbWriteIndexed | tlbWriteRandom =>
      cases named
      cases gives
      rfl
  | storeLeft | storeRight =>
      cases named
      obtain ⟨_, gives⟩ := bind_pure_ok gives
      obtain ⟨physical, gives⟩ := physicalOf_bind_ok gives
      cases gives
      rfl
  | storeConditional =>
      cases named
      obtain ⟨physical, gives⟩ := physicalOf_bind_ok gives
      simp only [bind, EStateM.bind, getState] at gives
      split at gives <;> cases gives <;> rfl

/-- The bits of Status that floating point instructions depend on. -/
structure SameFloat (before after : SystemControl) : Prop where
  usable : after.floatUsable = before.floatUsable
  full : after.fullFloatRegisters = before.fullFloatRegisters

theorem SameFloat.refl (control : SystemControl) : SameFloat control control :=
  ⟨rfl, rfl⟩

theorem SameFloat.trans {before between after : SystemControl} (first : SameFloat before between)
    (second : SameFloat between after) : SameFloat before after :=
  ⟨second.usable.trans first.usable, second.full.trans first.full⟩

theorem SameFloat.of_status {before after : SystemControl}
    (same : after.get SystemControl.status = before.get SystemControl.status) :
    SameFloat before after := by
  constructor
  · simp only [SystemControl.floatUsable, same]
  · simp only [SystemControl.fullFloatRegisters, same]

theorem SameFloat.set {before : SystemControl} {reg : RegisterNumber} {value : DoubleWord}
    (differs : reg ≠ SystemControl.status) : SameFloat before (before.set reg value) :=
  .of_status (SystemControl.get_set_of_ne differs)

theorem leaveException_sameFloat (cpu : CpuState) :
    SameFloat cpu.control cpu.leaveException.2.control := by
  unfold CpuState.leaveException
  dsimp only
  split <;> constructor <;>
    simp [SystemControl.floatUsable, SystemControl.fullFloatRegisters,
      SystemControl.errorLevelBit, SystemControl.exceptionLevelBit]

/-- Only a write of a system control register changes what floating point instructions depend
on. -/
theorem callRoutine_sameFloat {routine : Ir.Routine} {arguments : List DoubleWord}
    {machine after : Machine β} {result : DoubleWord}
    (other : ∀ reg double, routine ≠ .moveToControl reg double)
    (gives : callRoutine routine arguments machine = .ok result after) :
    SameFloat machine.cpu.control after.cpu.control := by
  cases routine with
  | moveToControl reg double => exact absurd rfl (other reg double)
  | moveFromControl reg double =>
      cases gives
      exact .refl _
  | tlbWriteIndexed =>
      cases gives
      exact .refl _
  | tlbRead =>
      cases gives
      refine .of_status ?_
      simp only [tlbRead, mapControl, mapCpu, Tlb.readIndexed, TlbEntry.toControl]
      repeat rw [SystemControl.get_set_of_ne (by decide)]
  | tlbWriteRandom =>
      cases gives
      exact .set (by decide)
  | tlbProbe =>
      cases gives
      exact .set (by decide)
  | exceptionReturn =>
      cases gives
      exact leaveException_sameFloat machine.cpu
  | loadLeft | loadRight =>
      obtain ⟨physical, gives⟩ := physicalOf_bind_ok gives
      cases gives
      exact .refl _
  | storeLeft | storeRight =>
      obtain ⟨_, gives⟩ := bind_pure_ok gives
      obtain ⟨physical, gives⟩ := physicalOf_bind_ok gives
      cases gives
      exact .refl _
  | loadLinked =>
      obtain ⟨physical, gives⟩ := physicalOf_bind_ok gives
      cases gives
      exact .set (by decide)
  | storeConditional =>
      obtain ⟨physical, gives⟩ := physicalOf_bind_ok gives
      simp only [bind, EStateM.bind, getState] at gives
      split at gives <;> cases gives <;> exact .refl _

theorem mayRaise_of_error {routine : Ir.Routine} {arguments : List DoubleWord}
    {machine after : Machine β} {fault : Fault}
    (fails : callRoutine routine arguments machine = .error fault after) :
    routine.mayRaise = true := by
  cases routine <;> first | rfl | cases fails

private theorem leaveException_gpr (cpu : CpuState) : cpu.leaveException.2.gpr = cpu.gpr := by
  unfold CpuState.leaveException
  dsimp only
  split <;> rfl

/-- Routines leave the general registers to the block. -/
theorem callRoutine_gpr {routine : Ir.Routine} {arguments : List DoubleWord}
    {machine after : Machine β} {result : DoubleWord}
    (gives : callRoutine routine arguments machine = .ok result after) :
    after.cpu.gpr = machine.cpu.gpr := by
  cases routine with
  | moveToControl | moveFromControl | tlbRead | tlbWriteIndexed | tlbWriteRandom | tlbProbe =>
      cases gives
      rfl
  | exceptionReturn =>
      cases gives
      exact leaveException_gpr machine.cpu
  | loadLeft | loadRight | loadLinked =>
      obtain ⟨physical, gives⟩ := physicalOf_bind_ok gives
      cases gives
      rfl
  | storeLeft | storeRight =>
      obtain ⟨_, gives⟩ := bind_pure_ok gives
      obtain ⟨physical, gives⟩ := physicalOf_bind_ok gives
      cases gives
      rfl
  | storeConditional =>
      obtain ⟨physical, gives⟩ := physicalOf_bind_ok gives
      simp only [bind, EStateM.bind, getState] at gives
      split at gives <;> cases gives <;> rfl

end Machine

end MipsRecompiler
