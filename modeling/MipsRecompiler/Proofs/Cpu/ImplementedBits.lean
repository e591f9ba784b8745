import MipsRecompiler.Proofs.Cpu.Exceptions
import MipsRecompiler.Proofs.Memory.Routines

/-!
# Implemented bits

Which bits of the system control registers can be set. Software writes are masked, but the table
instructions, exceptions and linked loads store to the same registers themselves. All of them keep
to the implemented bits but one: a fault of the table records the upper part of its address whole.
-/

set_option autoImplicit false

namespace MipsRecompiler

def Within (value mask : DoubleWord) : Prop :=
  value &&& mask = value

instance (value mask : DoubleWord) : Decidable (Within value mask) :=
  inferInstanceAs (Decidable (value &&& mask = value))

namespace Within

variable {value other mask wider : DoubleWord}

theorem masked : Within (value &&& mask) mask := by
  rw [Within, BitVec.and_assoc, BitVec.and_self]

theorem mono (within : Within value mask) (masks : Within mask wider) : Within value wider := by
  rw [Within] at within masks ⊢
  rw [← within, BitVec.and_assoc, masks]

theorem and_left (within : Within value mask) : Within (value &&& other) mask := by
  rw [Within] at within ⊢
  rw [BitVec.and_assoc, BitVec.and_comm other, ← BitVec.and_assoc, within]

theorem or (first : Within value mask) (second : Within other mask) :
    Within (value ||| other) mask := by
  rw [Within] at first second ⊢
  rw [BitVec.and_comm, BitVec.and_or_distrib_left, BitVec.and_comm, first, BitVec.and_comm,
    second]

theorem allOnes : Within value (BitVec.allOnes 64) :=
  BitVec.and_allOnes

end Within

theorem within_low_iff {value : DoubleWord} : Within value 0x1f ↔ value ≤ 31 := by
  rw [Within, ← BitVec.toNat_inj, BitVec.toNat_and, BitVec.le_def,
    show (0x1f : DoubleWord).toNat = 2 ^ 5 - 1 from rfl, Nat.and_two_pow_sub_one_eq_mod]
  omega

/-! ## Registers and table entries -/

namespace SystemControl

/-- The bits that a register can hold, given those of EntryHi. -/
def registerBits (entryHi : DoubleWord) : RegisterNumber → DoubleWord
  | 0 => 0x8000003f
  | 1 => 0x1f
  | 2 | 3 => entryLoBits
  | 5 => pageMaskBits
  | 6 => 0x3f
  | 10 => entryHi
  | 11 => 0xffffffff
  | _ => .allOnes 64

/-- The bits of EntryHi that a fault of the table can leave there. -/
def faultEntryHiBits : DoubleWord := 0xffffffffffffe0ff

/-- Every register keeps to its bits. -/
def Implemented (entryHi : DoubleWord) (control : SystemControl) : Prop :=
  ∀ reg, Within (control.get reg) (registerBits entryHi reg)

variable {control : SystemControl} {entryHiMask : DoubleWord}

theorem Implemented.set {reg : RegisterNumber} {value : DoubleWord}
    (implemented : control.Implemented entryHiMask)
    (within : Within value (registerBits entryHiMask reg)) :
    (control.set reg value).Implemented entryHiMask := by
  intro other
  rw [get_set]
  split
  next same =>
    subst same
    exact within
  next => exact implemented other

theorem implemented_reset : reset.Implemented entryHiMask := by
  have clear : (⟨.clear⟩ : SystemControl).Implemented entryHiMask := by
    intro reg
    have zero : (⟨.clear⟩ : SystemControl).get reg = 0 := by
      simp [get, RegisterFile.read, RegisterFile.clear]
    rw [zero]
    exact BitVec.zero_and
  have random : Within 31 (registerBits entryHiMask SystemControl.random) :=
    within_low_iff.mpr (by decide)
  exact (((clear.set random).set Within.allOnes).set Within.allOnes).set Within.allOnes

theorem Implemented.write {reg : RegisterNumber} {value : DoubleWord} {double : Bool}
    (implemented : control.Implemented entryHiMask) (wide : Within entryHiBits entryHiMask) :
    (control.write reg value double).Implemented entryHiMask := by
  simp only [SystemControl.write]
  generalize (if double then value else signExtendWord value) = value
  split
  next =>
    have failure : Within 0x80000000 0x8000003f := by decide
    have slot : Within 0x3f 0x8000003f := by decide
    exact implemented.set ((Within.masked.mono failure).or (Within.masked.mono slot))
  next => exact implemented
  next => exact implemented
  next => exact implemented
  next => exact implemented.set Within.masked
  next => exact implemented.set Within.masked
  next => exact implemented.set Within.allOnes
  next => exact implemented.set Within.masked
  next =>
    have random : Within 31 (registerBits entryHiMask SystemControl.random) :=
      within_low_iff.mpr (by decide)
    exact (implemented.set random).set Within.masked
  next => exact implemented.set (Within.masked.mono wide)
  next => exact (implemented.set Within.allOnes).set Within.masked
  next => exact implemented.set Within.allOnes
  next => exact implemented.set Within.allOnes
  next =>
    -- No other register has bits that are missing.
    apply implemented.set
    unfold registerBits
    split
    all_goals first
      | contradiction
      | exact Within.allOnes

end SystemControl

/-- The entry holds only bits that the registers can show. -/
structure TlbEntry.Implemented (entry : TlbEntry) : Prop where
  pageMask : Within (entry.pageMask.setWidth 64) SystemControl.pageMaskBits
  entryHi : Within entry.entryHi SystemControl.entryHiBits
  entryLo0 : Within entry.entryLo0 SystemControl.entryLoBits
  entryLo1 : Within entry.entryLo1 SystemControl.entryLoBits

namespace TlbEntry

variable {control : SystemControl} {entryHiMask : DoubleWord} {entry : TlbEntry}

theorem implemented_blank : blank.Implemented := by
  constructor <;> decide

theorem implemented_ofControl (implemented : control.Implemented entryHiMask) :
    (ofControl control).Implemented where
  pageMask := by
    have whole : (SystemControl.pageMaskBits.setWidth 32).setWidth 64 =
        SystemControl.pageMaskBits := by decide
    simp only [ofControl, BitVec.setWidth_and, whole]
    exact Within.masked
  entryHi := Within.masked
  entryLo0 := implemented 2
  entryLo1 := implemented 3

theorem Implemented.toControl (shown : entry.Implemented)
    (implemented : control.Implemented entryHiMask)
    (wide : Within SystemControl.entryHiBits entryHiMask) :
    (entry.toControl control).Implemented entryHiMask := by
  have shared : Within (if entry.isGlobal then 1 else 0) SystemControl.entryLoBits := by
    split <;> decide
  have entryHi : Within entry.entryHi entryHiMask := shown.entryHi.mono wide
  apply SystemControl.Implemented.set
  · apply SystemControl.Implemented.set
    · exact (implemented.set shown.pageMask).set entryHi
    · exact shown.entryLo0.and_left.or shared
  · exact shown.entryLo1.and_left.or shared

end TlbEntry

namespace Tlb

def Implemented (tlb : Tlb) : Prop :=
  ∀ (slot : Nat) (bound : slot < 32), tlb.entries[slot].Implemented

variable {tlb : Tlb} {control : SystemControl} {entryHiMask : DoubleWord}

theorem implemented_reset : reset.Implemented := by
  intro slot bound
  simp only [reset, Vector.getElem_replicate]
  exact TlbEntry.implemented_blank

theorem Implemented.writeSlot {slot : Fin 32} (entries : tlb.Implemented)
    (implemented : control.Implemented entryHiMask) :
    (tlb.writeSlot slot control).Implemented := by
  intro other bound
  simp only [Tlb.writeSlot, Vector.getElem_set]
  split
  next => exact TlbEntry.implemented_ofControl implemented
  next => exact entries other bound

theorem Implemented.writeRandom (entries : tlb.Implemented)
    (implemented : control.Implemented entryHiMask) :
    (tlb.writeRandom control).1.Implemented ∧
      (tlb.writeRandom control).2.Implemented entryHiMask := by
  constructor
  · exact entries.writeSlot implemented
  · apply implemented.set
    have random : control.get SystemControl.random ≤ 31 := within_low_iff.mp (implemented 1)
    apply within_low_iff.mpr
    split
    next => decide
    next above => bv_omega

theorem Implemented.probe (implemented : control.Implemented entryHiMask) :
    (tlb.probe control).Implemented entryHiMask := by
  apply implemented.set
  split
  next slot _ =>
    have small : ∀ slot : Fin 32, Within (BitVec.ofNat 64 slot.val) 0x8000003f := by decide
    exact small slot
  next =>
    have failure : Within 0x80000000 0x8000003f := by decide
    exact failure

end Tlb

/-! ## Exceptions -/

namespace ExceptionDescriptor

/-- If the exception stores an address in EntryHi, then its page number keeps to the mask. -/
def Fits (entryHiMask : DoubleWord) (exception : ExceptionDescriptor) : Prop :=
  exception.cause.code.isTlb = true →
    ∀ address, exception.cause.badAddress = some address →
      Within (address &&& ~~~0x1fff) entryHiMask

theorem fits_fault (exception : ExceptionDescriptor) :
    exception.Fits SystemControl.faultEntryHiBits := by
  intro _ address _
  have pages : Within (~~~0x1fff) SystemControl.faultEntryHiBits := by decide
  exact Within.masked.mono pages

end ExceptionDescriptor

namespace CpuState

variable {cpu : CpuState} {entryHiMask : DoubleWord}

theorem implemented_recordAddress {control : SystemControl} {code : ExceptionCode}
    {address : DoubleWord} (implemented : control.Implemented entryHiMask)
    (wide : Within SystemControl.entryHiBits entryHiMask)
    (fits : code.isTlb = true → Within (address &&& ~~~0x1fff) entryHiMask) :
    (recordAddress control code address).Implemented entryHiMask := by
  have addressed : (control.set SystemControl.badVAddr address).Implemented entryHiMask :=
    implemented.set Within.allOnes
  unfold recordAddress
  split
  · dsimp only
    split
    next isTlb =>
      have space : Within 0xff SystemControl.entryHiBits := by decide
      apply SystemControl.Implemented.set
      · exact addressed.set Within.allOnes
      · exact (fits isTlb).or (Within.masked.mono (space.mono wide))
    next => exact addressed
  · exact implemented

theorem implemented_raise {exception : ExceptionDescriptor}
    (implemented : cpu.control.Implemented entryHiMask)
    (wide : Within SystemControl.entryHiBits entryHiMask)
    (fits : exception.Fits entryHiMask) :
    (cpu.raise exception).control.Implemented entryHiMask := by
  have returning : (if cpu.control.exceptionLevel then cpu.control
      else cpu.control.set SystemControl.epc exception.pc).Implemented entryHiMask := by
    split
    · exact implemented
    · exact implemented.set Within.allOnes
  have caused : ((if cpu.control.exceptionLevel then cpu.control
      else cpu.control.set SystemControl.epc exception.pc).set SystemControl.cause
        (raisedCause cpu.control exception)).Implemented entryHiMask :=
    returning.set Within.allOnes
  unfold raise
  dsimp only
  cases recorded : exception.cause.badAddress with
  | none => exact caused.set Within.allOnes
  | some address =>
    have addressed := implemented_recordAddress caused wide
      (fun isTlb => fits isTlb address recorded)
    exact addressed.set Within.allOnes

theorem implemented_leaveException (implemented : cpu.control.Implemented entryHiMask) :
    cpu.leaveException.2.control.Implemented entryHiMask := by
  unfold leaveException
  dsimp only
  split
  · exact implemented.set Within.allOnes
  · exact implemented.set Within.allOnes

end CpuState

namespace Tlb

variable {tlb : Tlb} {control : SystemControl} {address : DoubleWord} {kind : AccessKind}
  {fault : Fault}

theorem eq_of_lookup_error {low : Word} {space : BitVec 8}
    (faults : tlb.lookup low kind space = .error fault) :
    fault.badAddress = low.signExtend 64 := by
  simp only [lookup] at faults
  split at faults
  · cases faults
    rfl
  · split at faults
    · cases faults
      rfl
    · split at faults
      · cases faults
        rfl
      · cases faults

/-- A fault is about the address that was asked for, and the table reports one only where the
address is a sign extended word. -/
theorem eq_of_resolve_error (faults : tlb.resolve control address kind = .error fault) :
    fault.badAddress = address ∧
      (fault.code.isTlb = true → address = (address.setWidth 32).signExtend 64) := by
  simp only [resolve] at faults
  split at faults
  next =>
    cases faults
    constructor
    · rfl
    · intro isTlb
      cases kind <;> simp [AccessKind.addressError, ExceptionCode.isTlb] at isTlb
  next canonical =>
    have extended : address = (address.setWidth 32).signExtend 64 := Decidable.not_not.mp canonical
    split at faults
    · cases faults
    · have recorded := eq_of_lookup_error faults
      exact ⟨recorded.trans extended.symm, fun _ => extended⟩

end Tlb

/-! ## Runs -/

inductive ControlAction where
  | write (reg : RegisterNumber) (value : DoubleWord) (double : Bool)
  | tlbRead
  | tlbWriteIndexed
  | tlbWriteRandom
  | tlbProbe
  /-- An access that enters the handler if its address cannot be translated. -/
  | access (address : DoubleWord) (kind : AccessKind) (pc : DoubleWord) (delaySlot : Bool)
  | raise (exception : ExceptionDescriptor)
  | leaveException
  | loadLinked (size : AccessSize) (address : DoubleWord)

/-- An address that the action stores in EntryHi keeps to the mask. -/
def ControlAction.Fits (entryHiMask : DoubleWord) : ControlAction → Prop
  | .access address _ _ _ =>
    address = (address.setWidth 32).signExtend 64 → Within (address &&& ~~~0x1fff) entryHiMask
  | .raise exception => exception.Fits entryHiMask
  | _ => True

namespace ControlAction

theorem fits_fault (action : ControlAction) : action.Fits SystemControl.faultEntryHiBits := by
  cases action with
  | access address kind pc delaySlot =>
    intro _
    have pages : Within (~~~0x1fff) SystemControl.faultEntryHiBits := by decide
    exact Within.masked.mono pages
  | raise exception => exact exception.fits_fault
  | _ => trivial

end ControlAction

namespace Machine

variable {β : Type} [Bus β]

def act (machine : Machine β) : ControlAction → Machine β
  | .write reg value double => machine.mapControl fun control => control.write reg value double
  | .tlbRead => machine.tlbRead
  | .tlbWriteIndexed => machine.tlbWriteIndexed
  | .tlbWriteRandom => machine.tlbWriteRandom
  | .tlbProbe => machine.tlbProbe
  | .access address kind pc delaySlot =>
    match machine.tlb.resolve machine.cpu.control address kind with
    | .ok _ => machine
    | .error fault => machine.raise { cause := .ofFault fault, pc, delaySlot }
  | .raise exception => machine.raise exception
  | .leaveException => machine.mapCpu fun cpu => cpu.leaveException.2
  | .loadLinked size address =>
    match loadLinked size address machine with
    | .ok _ after | .error _ after => after

/-- Every register and every entry of the table keeps to its bits. -/
structure Implemented (entryHiMask : DoubleWord) (machine : Machine β) : Prop where
  control : machine.cpu.control.Implemented entryHiMask
  entries : machine.tlb.Implemented

variable {machine : Machine β} {entryHiMask : DoubleWord}

omit [Bus β] in
theorem Implemented.raise {exception : ExceptionDescriptor}
    (implemented : machine.Implemented entryHiMask)
    (wide : Within SystemControl.entryHiBits entryHiMask) (fits : exception.Fits entryHiMask) :
    (machine.raise exception).Implemented entryHiMask := by
  have entered := CpuState.implemented_raise implemented.control wide fits
  exact ⟨entered, implemented.entries⟩

theorem Implemented.act {action : ControlAction} (implemented : machine.Implemented entryHiMask)
    (wide : Within SystemControl.entryHiBits entryHiMask) (fits : action.Fits entryHiMask) :
    (machine.act action).Implemented entryHiMask := by
  have ⟨control, entries⟩ := implemented
  cases action with
  | write reg value double => exact ⟨control.write wide, entries⟩
  | tlbRead => exact ⟨(entries _ (Fin.isLt _)).toControl control wide, entries⟩
  | tlbWriteIndexed => exact ⟨control, entries.writeSlot control⟩
  | tlbWriteRandom =>
    obtain ⟨written, counted⟩ := entries.writeRandom control
    exact ⟨counted, written⟩
  | tlbProbe => exact ⟨Tlb.Implemented.probe control, entries⟩
  | access address kind pc delaySlot =>
    simp only [Machine.act]
    split
    next => exact implemented
    next fault faults =>
      obtain ⟨recorded, extended⟩ := Tlb.eq_of_resolve_error faults
      have stored : ExceptionDescriptor.Fits entryHiMask
          { cause := .ofFault fault, pc, delaySlot } := by
        intro isTlb other same
        rw [← Option.some.inj same, recorded]
        exact fits (extended isTlb)
      exact implemented.raise wide stored
  | raise exception => exact implemented.raise wide fits
  | leaveException => exact ⟨CpuState.implemented_leaveException control, entries⟩
  | loadLinked size address =>
    simp only [Machine.act, loadLinked, physicalOf_bind]
    cases machine.translate address .load size with
    | error fault => exact implemented
    | ok physical => exact ⟨control.set Within.allOnes, entries⟩

theorem Implemented.run (actions : List ControlAction) (implemented : machine.Implemented entryHiMask)
    (wide : Within SystemControl.entryHiBits entryHiMask)
    (fits : ∀ action ∈ actions, action.Fits entryHiMask) :
    (actions.foldl Machine.act machine).Implemented entryHiMask := by
  induction actions generalizing machine with
  | nil => exact implemented
  | cons action rest ih =>
    rw [List.forall_mem_cons] at fits
    exact ih (implemented.act wide fits.1) fits.2

omit [Bus β] in
theorem implemented_reset (bus : β) : Implemented entryHiMask ⟨.reset, .reset, bus⟩ :=
  ⟨SystemControl.implemented_reset, Tlb.implemented_reset⟩

/-- Whatever happens after reset, only EntryHi can hold bits that are not implemented. -/
theorem implemented_run_of_reset (bus : β) (actions : List ControlAction) :
    (actions.foldl act ⟨.reset, .reset, bus⟩).Implemented SystemControl.faultEntryHiBits := by
  have wide : Within SystemControl.entryHiBits SystemControl.faultEntryHiBits := by decide
  exact (implemented_reset bus).run actions wide fun action _ => action.fits_fault

/-- EntryHi holds none either while every fault of the table is in the lower half. -/
theorem implemented_run_of_lower (bus : β) (actions : List ControlAction)
    (fits : ∀ action ∈ actions, action.Fits SystemControl.entryHiBits) :
    (actions.foldl act ⟨.reset, .reset, bus⟩).Implemented SystemControl.entryHiBits :=
  (implemented_reset bus).run actions (BitVec.and_self) fits

/-- A fault of the table in the upper half always leaves bits in EntryHi that are not
implemented. -/
theorem not_within_of_upper_fault {address pc : DoubleWord} {kind : AccessKind}
    {delaySlot : Bool} {fault : Fault}
    (faults : machine.tlb.resolve machine.cpu.control address kind = .error fault)
    (isTlb : fault.code.isTlb = true) (upper : address.msb = true) :
    ¬ Within ((machine.act (.access address kind pc delaySlot)).cpu.control.get
      SystemControl.entryHi) SystemControl.entryHiBits := by
  obtain ⟨recorded, extended⟩ := Tlb.eq_of_resolve_error faults
  have filled : address.getLsbD 61 = true := by
    have low := extended isTlb
    rw [low, BitVec.msb_signExtend] at upper
    rw [low, BitVec.getLsbD_signExtend]
    simpa using upper
  have entered : (machine.act (.access address kind pc delaySlot)).cpu.control.get
      SystemControl.entryHi =
        (address &&& ~~~0x1fff) ||| (machine.cpu.control.get SystemControl.entryHi &&& 0xff) := by
    have raised : (machine.cpu.raise { cause := .ofFault fault, pc, delaySlot }).control.get
        SystemControl.entryHi = _ :=
      CpuState.entryHi_raise isTlb (congrArg some recorded)
    simp only [act, faults]
    exact raised
  rw [entered]
  intro within
  have bit := congrArg (·.getLsbD 61) within
  simp [SystemControl.entryHiBits] at bit
  rw [← BitVec.getLsbD_eq_getElem, filled] at bit
  cases bit

example : ((⟨.reset, .reset, .ofSize 0⟩ : Machine Ram).act
    (.access 0xffffffffc0000000 .load 0xffffffff80000000 false)).cpu.control.get
      SystemControl.entryHi = 0xffffffffc0000000 := by decide +kernel

end Machine

/-! ## Reading a register and writing it back -/

namespace SystemControl

variable {control : SystemControl} {entryHiMask : DoubleWord}

/-- Writing back what was read leaves every masked register of the table alone but EntryHi. -/
theorem get_write_read {reg : RegisterNumber} (implemented : control.Implemented entryHiMask)
    (masked : reg ∈ [index, entryLo0, entryLo1, pageMask]) :
    (control.write reg (control.read reg true) true).get reg = control.get reg := by
  have bits := implemented reg
  simp only [List.mem_cons, List.not_mem_nil, or_false] at masked
  rcases masked with rfl | rfl | rfl | rfl
  · simp only [write, read, if_true, get_set_self]
    rw [← BitVec.and_or_distrib_left]
    exact bits
  all_goals
    simp only [write, read, if_true, get_set_self]
    exact bits

theorem get_write_read_entryHi_iff :
    (control.write entryHi (control.read entryHi true) true).get entryHi = control.get entryHi ↔
      Within (control.get entryHi) entryHiBits := by
  simp only [write, read, if_true, get_set_self, Within]

end SystemControl

end MipsRecompiler
