import MipsRecompiler.Cpu.Exception

/-!
# Exceptions

What entering the handler does to each register, and what comes of exceptions that are raised while
the first one is still being handled. Such a run keeps the return address of the first, and the
handler is left as if there had been no other. Cause is made anew by each of them, so it tells of
the last one. With the second one it no longer says that the return address is that of a branch.
-/

set_option autoImplicit false

namespace MipsRecompiler

namespace SystemControl

/-- The registers that an exception can write. -/
def exceptionRegisters : List RegisterNumber :=
  [status, cause, epc, badVAddr, context, entryHi]

/-- Whether Cause says that the return address is that of a branch. -/
def inDelaySlot (control : SystemControl) : Bool :=
  (control.get cause).getLsbD 31

def exceptionNumber (control : SystemControl) : BitVec 5 :=
  (control.get cause).extractLsb' 2 5

def coprocessorNumber (control : SystemControl) : BitVec 2 :=
  (control.get cause).extractLsb' 28 2

/-- Where the refill handler is. The one for all other exceptions stands behind it. -/
def vectorBase (control : SystemControl) : DoubleWord :=
  if control.bootVectors then 0xffffffffbfc00200 else 0xffffffff80000000

theorem addressSpace_set {control : SystemControl} {reg : RegisterNumber} {value : DoubleWord}
    (differs : reg ≠ entryHi) : (control.set reg value).addressSpace = control.addressSpace := by
  rw [addressSpace, get_set_of_ne differs, addressSpace]

end SystemControl

open SystemControl

namespace CpuState

variable {cpu before between after : CpuState} {control : SystemControl} {reg : RegisterNumber}
  {exception first : ExceptionDescriptor} {address : DoubleWord}

/-! ## Entering the handler -/

private theorem get_recordAddress_of_ne {code : ExceptionCode} (notBad : badVAddr ≠ reg)
    (notContext : context ≠ reg) (notHigh : entryHi ≠ reg) :
    (recordAddress control code address).get reg = control.get reg := by
  unfold recordAddress
  split
  · dsimp only
    split
    · rw [get_set_of_ne notHigh, get_set_of_ne notContext, get_set_of_ne notBad]
    · exact get_set_of_ne notBad
  · rfl

private theorem get_caused (cpu : CpuState) (exception : ExceptionDescriptor)
    (reg : RegisterNumber) :
    ((if cpu.control.exceptionLevel then cpu.control
      else cpu.control.set epc exception.pc).set cause (raisedCause cpu.control exception)).get
        reg =
      if cause = reg then raisedCause cpu.control exception
      else if epc = reg ∧ cpu.control.exceptionLevel = false then exception.pc
      else cpu.control.get reg := by
  rw [get_set]
  cases cpu.control.exceptionLevel with
  | true => simp
  | false => simp [get_set]

/-- What an exception does to the registers that do not depend on its address. -/
theorem get_raise (cpu : CpuState) (exception : ExceptionDescriptor) (notBad : badVAddr ≠ reg)
    (notContext : context ≠ reg) (notHigh : entryHi ≠ reg) :
    (cpu.raise exception).control.get reg =
      if status = reg then cpu.control.get status ||| exceptionLevelBit
      else if cause = reg then raisedCause cpu.control exception
      else if epc = reg ∧ cpu.control.exceptionLevel = false then exception.pc
      else cpu.control.get reg := by
  simp only [raise]
  rw [get_set]
  cases exception.cause.badAddress with
  | none =>
      rw [get_caused, get_caused]
      rfl
  | some address =>
      dsimp only
      rw [get_recordAddress_of_ne notBad notContext notHigh, get_caused,
        get_recordAddress_of_ne (by decide) (by decide) (by decide), get_caused]
      rfl

theorem status_raise :
    (cpu.raise exception).control.get status = cpu.control.get status ||| exceptionLevelBit := by
  rw [get_raise _ _ (by decide) (by decide) (by decide), if_pos rfl]

theorem cause_raise :
    (cpu.raise exception).control.get cause = raisedCause cpu.control exception := by
  rw [get_raise _ _ (by decide) (by decide) (by decide), if_neg (by decide), if_pos rfl]

theorem epc_raise :
    (cpu.raise exception).control.get epc =
      if cpu.control.exceptionLevel then cpu.control.get epc else exception.pc := by
  rw [get_raise _ _ (by decide) (by decide) (by decide), if_neg (by decide), if_neg (by decide)]
  cases cpu.control.exceptionLevel <;> rfl

theorem exceptionLevel_raise : (cpu.raise exception).control.exceptionLevel = true := by
  simp [exceptionLevel, status_raise, exceptionLevelBit]

theorem vectorBase_raise :
    (cpu.raise exception).control.vectorBase = cpu.control.vectorBase := by
  simp [vectorBase, bootVectors, status_raise, exceptionLevelBit]

theorem pc_raise :
    (cpu.raise exception).pc = cpu.control.vectorBase +
      if exception.cause.refill && !cpu.control.exceptionLevel then 0 else 0x180 := by
  have base : (cpu.raise exception).control.vectorBase = cpu.control.vectorBase := vectorBase_raise
  rw [← base]
  rfl

/-! ## The address of a fault -/

theorem get_raise_of_isTlb (isTlb : exception.cause.code.isTlb = true)
    (recorded : exception.cause.badAddress = some address) (notStatus : status ≠ reg)
    (notCause : cause ≠ reg) (notEpc : epc ≠ reg) :
    (cpu.raise exception).control.get reg =
      if entryHi = reg then (address &&& ~~~0x1fff) ||| (cpu.control.get entryHi &&& 0xff)
      else if context = reg then
        (cpu.control.get context &&& ~~~contextPageBits) ||| ((address >>> 9) &&& contextPageBits)
      else if badVAddr = reg then address
      else cpu.control.get reg := by
  have records : exception.cause.code.recordsAddress = true := by
    simp [ExceptionCode.recordsAddress, isTlb]
  have kept {other : RegisterNumber} (notCause : cause ≠ other) (notEpc : epc ≠ other) :=
    (get_caused cpu exception other).trans
      ((if_neg notCause).trans (if_neg fun both => notEpc both.1))
  simp only [raise, recordAddress, recorded, records, isTlb, if_true]
  rw [get_set_of_ne notStatus, get_set_of_ne (show badVAddr ≠ entryHi by decide),
    get_set_of_ne (show badVAddr ≠ context by decide), kept (by decide) (by decide),
    kept (by decide) (by decide), get_set, get_set, get_set, kept notCause notEpc]

theorem badVAddr_raise (isTlb : exception.cause.code.isTlb = true)
    (recorded : exception.cause.badAddress = some address) :
    (cpu.raise exception).control.get badVAddr = address := by
  rw [get_raise_of_isTlb isTlb recorded (by decide) (by decide) (by decide), if_neg (by decide),
    if_neg (by decide), if_pos rfl]

theorem context_raise (isTlb : exception.cause.code.isTlb = true)
    (recorded : exception.cause.badAddress = some address) :
    (cpu.raise exception).control.get context =
      (cpu.control.get context &&& ~~~contextPageBits) |||
        ((address >>> 9) &&& contextPageBits) := by
  rw [get_raise_of_isTlb isTlb recorded (by decide) (by decide) (by decide), if_neg (by decide),
    if_pos rfl]

/-- A fault of the table leaves the page of its address in EntryHi, beside the address space. -/
theorem entryHi_raise (isTlb : exception.cause.code.isTlb = true)
    (recorded : exception.cause.badAddress = some address) :
    (cpu.raise exception).control.get entryHi =
      (address &&& ~~~0x1fff) ||| (cpu.control.get entryHi &&& 0xff) := by
  rw [get_raise_of_isTlb isTlb recorded (by decide) (by decide) (by decide), if_pos rfl]

private theorem entryHi_space (address entryHi : DoubleWord) :
    ((address &&& ~~~0x1fff) ||| (entryHi &&& 0xff)).setWidth 8 = entryHi.setWidth 8 := by
  have masks : ∀ index < 8, (0xff : DoubleWord).getLsbD index = true ∧
      (0x1fff : DoubleWord).getLsbD index = true := by decide
  apply BitVec.eq_of_getLsbD_eq
  intro index bound
  obtain ⟨kept, page⟩ := masks index bound
  simp only [BitVec.getLsbD_setWidth, BitVec.getLsbD_or, BitVec.getLsbD_and, BitVec.getLsbD_not,
    kept, page]
  simp

private theorem recordAddress_space (control : SystemControl) (code : ExceptionCode)
    (address : DoubleWord) :
    (recordAddress control code address).addressSpace = control.addressSpace := by
  unfold recordAddress
  cases code.recordsAddress with
  | false => rfl
  | true =>
      cases code.isTlb with
      | false => exact addressSpace_set (by decide)
      | true =>
          dsimp only
          rw [if_pos rfl, if_pos rfl, addressSpace, get_set_self, get_set_of_ne (by decide),
            entryHi_space]
          rfl

theorem addressSpace_raise :
    (cpu.raise exception).control.addressSpace = cpu.control.addressSpace := by
  have caused : ((if cpu.control.exceptionLevel then cpu.control
      else cpu.control.set epc exception.pc).set cause
        (raisedCause cpu.control exception)).addressSpace = cpu.control.addressSpace := by
    rw [addressSpace, get_caused, if_neg (by decide), if_neg (by simp [epc, entryHi]),
      addressSpace]
  simp only [raise]
  rw [addressSpace_set (by decide)]
  cases exception.cause.badAddress with
  | none => exact caused
  | some address => exact (recordAddress_space _ _ address).trans caused

/-! ## The fields of Cause -/

private theorem kept_fields (cause : DoubleWord) :
    (cause &&& ~~~0xb000007c).extractLsb' 2 5 = 0 ∧
      (cause &&& ~~~0xb000007c).extractLsb' 28 2 = 0 ∧
      (cause &&& ~~~0xb000007c).getLsbD 31 = false := by
  simp [BitVec.extractLsb'_and]

private theorem code_fields (code : ExceptionCode) :
    (BitVec.ofNat 64 code.number <<< 2).extractLsb' 2 5 = BitVec.ofNat 5 code.number ∧
      (BitVec.ofNat 64 code.number <<< 2).extractLsb' 28 2 = 0 ∧
      (BitVec.ofNat 64 code.number <<< 2).getLsbD 31 = false := by
  cases code <;> decide

private theorem coprocessor_fields (coprocessor : BitVec 8) :
    ((coprocessor &&& 3).setWidth 64 <<< 28 : DoubleWord).extractLsb' 2 5 = 0 ∧
      ((coprocessor &&& 3).setWidth 64 <<< 28 : DoubleWord).extractLsb' 28 2 =
        coprocessor.setWidth 2 ∧
      ((coprocessor &&& 3).setWidth 64 <<< 28 : DoubleWord).getLsbD 31 = false := by
  revert coprocessor
  decide +kernel

private theorem slot_fields (inSlot : Bool) :
    (if inSlot then 0x80000000 else 0 : DoubleWord).extractLsb' 2 5 = 0 ∧
      (if inSlot then 0x80000000 else 0 : DoubleWord).extractLsb' 28 2 = 0 ∧
      (if inSlot then 0x80000000 else 0 : DoubleWord).getLsbD 31 = inSlot := by
  cases inSlot <;> decide

theorem exceptionNumber_raise :
    (cpu.raise exception).control.exceptionNumber =
      BitVec.ofNat 5 exception.cause.code.number := by
  rw [exceptionNumber, cause_raise]
  simp only [raisedCause, BitVec.extractLsb'_or, (kept_fields _).1, (code_fields _).1,
    (coprocessor_fields _).1, (slot_fields _).1]
  simp

theorem coprocessorNumber_raise :
    (cpu.raise exception).control.coprocessorNumber =
      exception.cause.coprocessor.setWidth 2 := by
  rw [coprocessorNumber, cause_raise]
  simp only [raisedCause, BitVec.extractLsb'_or, (kept_fields _).2.1, (code_fields _).2.1,
    (coprocessor_fields _).2.1, (slot_fields _).2.1]
  simp

theorem inDelaySlot_raise :
    (cpu.raise exception).control.inDelaySlot =
      (!cpu.control.exceptionLevel && exception.delaySlot) := by
  rw [inDelaySlot, cause_raise]
  simp only [raisedCause, BitVec.getLsbD_or, (kept_fields _).2.2, (code_fields _).2.2,
    (coprocessor_fields _).2.2, (slot_fields _).2.2]
  simp

/-! ## What is spared -/

/-- Everything is as it was but the program counter and the registers that exceptions write. -/
structure Spared (before after : CpuState) : Prop where
  gpr : after.gpr = before.gpr
  fgr : after.fgr = before.fgr
  hi : after.hi = before.hi
  lo : after.lo = before.lo
  fcr31 : after.fcr31 = before.fcr31
  llBit : after.llBit = before.llBit
  control : ∀ reg ∉ exceptionRegisters, after.control.get reg = before.control.get reg

theorem Spared.trans (early : Spared before between) (late : Spared between after) :
    Spared before after where
  gpr := late.gpr.trans early.gpr
  fgr := late.fgr.trans early.fgr
  hi := late.hi.trans early.hi
  lo := late.lo.trans early.lo
  fcr31 := late.fcr31.trans early.fcr31
  llBit := late.llBit.trans early.llBit
  control reg beside := (late.control reg beside).trans (early.control reg beside)

theorem spared_raise (cpu : CpuState) (exception : ExceptionDescriptor) :
    Spared cpu (cpu.raise exception) where
  gpr := rfl
  fgr := rfl
  hi := rfl
  lo := rfl
  fcr31 := rfl
  llBit := rfl
  control reg beside := by
    simp only [exceptionRegisters, List.mem_cons, List.not_mem_nil, or_false, not_or] at beside
    obtain ⟨notStatus, notCause, notEpc, notBad, notContext, notHigh⟩ := beside
    rw [get_raise _ _ (Ne.symm notBad) (Ne.symm notContext) (Ne.symm notHigh),
      if_neg (Ne.symm notStatus), if_neg (Ne.symm notCause),
      if_neg fun both => notEpc both.1.symm]

/-! ## Leaving the handler -/

/-- While no error is being handled, the handler is left for the return address. -/
theorem leaveException_of_errorLevel (noError : cpu.control.errorLevel = false) :
    cpu.leaveException = (cpu.control.get epc,
      { cpu with
        llBit := false
        control := cpu.control.set status (cpu.control.get status &&& ~~~exceptionLevelBit) }) := by
  simp [leaveException, noError]

theorem or_and_not_exceptionLevelBit {value : DoubleWord} (clear : value.getLsbD 1 = false) :
    (value ||| exceptionLevelBit) &&& ~~~exceptionLevelBit = value := by
  have bit : exceptionLevelBit = BitVec.twoPow 64 1 := by decide
  apply BitVec.eq_of_getLsbD_eq
  intro index bound
  rw [bit, BitVec.getLsbD_and, BitVec.getLsbD_or, BitVec.getLsbD_not, BitVec.getLsbD_twoPow]
  by_cases level : 1 = index
  · subst level
    simpa using clear
  · simp [level, bound]

/-! ## Exceptions in the handler -/

/-- The handler of an exception is still running: its return address is kept, and Status is as it
was but for the exception level. -/
structure Handling (first : ExceptionDescriptor) (before after : CpuState) : Prop where
  spared : Spared before after
  epc : after.control.get SystemControl.epc = first.pc
  status : after.control.get SystemControl.status =
    before.control.get SystemControl.status ||| exceptionLevelBit

theorem handling_raise (outside : cpu.control.exceptionLevel = false)
    (exception : ExceptionDescriptor) : Handling exception cpu (cpu.raise exception) where
  spared := spared_raise cpu exception
  epc := by rw [epc_raise, outside, if_neg Bool.false_ne_true]
  status := status_raise

namespace Handling

theorem exceptionLevel (handling : Handling first before after) :
    after.control.exceptionLevel = true := by
  simp [SystemControl.exceptionLevel, handling.status, exceptionLevelBit]

theorem errorLevel (handling : Handling first before after) :
    after.control.errorLevel = before.control.errorLevel := by
  simp [SystemControl.errorLevel, handling.status, exceptionLevelBit]

/-- Another exception leaves the handler of the first one running. -/
theorem raise (handling : Handling first before after) (exception : ExceptionDescriptor) :
    Handling first before (after.raise exception) where
  spared := handling.spared.trans (spared_raise after exception)
  epc := by rw [epc_raise, handling.exceptionLevel, if_pos rfl, handling.epc]
  status := by
    rw [status_raise, handling.status, BitVec.or_assoc, BitVec.or_self]

theorem foldl_raise (handling : Handling first before after)
    (exceptions : List ExceptionDescriptor) :
    Handling first before (exceptions.foldl CpuState.raise after) := by
  induction exceptions generalizing after with
  | nil => exact handling
  | cons exception rest ih => exact ih (handling.raise exception)

theorem vectorBase (handling : Handling first before after) :
    after.control.vectorBase = before.control.vectorBase := by
  simp [SystemControl.vectorBase, SystemControl.bootVectors, handling.status, exceptionLevelBit]

/-- The handler is left as if there had been no other exception. -/
theorem leaveException (handling : Handling first before after)
    (outside : before.control.exceptionLevel = false)
    (noError : before.control.errorLevel = false) :
    after.leaveException.1 = first.pc ∧
      after.leaveException.2.control.get SystemControl.status =
        before.control.get SystemControl.status := by
  rw [leaveException_of_errorLevel (handling.errorLevel.trans noError)]
  refine ⟨handling.epc, ?_⟩
  rw [get_set_self, handling.status, or_and_not_exceptionLevelBit outside]

end Handling

/-- Exceptions that are raised one after the other, the first of them outside of a handler. Only
the first one can use the refill vector. Cause tells of the last one, but the delay slot of the
first is forgotten as soon as there is another. -/
theorem raise_nested (outside : cpu.control.exceptionLevel = false)
    (first : ExceptionDescriptor) (later : List ExceptionDescriptor) :
    let last := later.getLastD first
    let final := later.foldl CpuState.raise (cpu.raise first)
    Handling first cpu final ∧
      final.control.exceptionNumber = BitVec.ofNat 5 last.cause.code.number ∧
      final.control.coprocessorNumber = last.cause.coprocessor.setWidth 2 ∧
      final.control.inDelaySlot = (later.isEmpty && first.delaySlot) ∧
      final.pc = cpu.control.vectorBase +
        (if later.isEmpty && first.cause.refill then 0 else 0x180) ∧
      (cpu.control.errorLevel = false → final.leaveException.1 = first.pc ∧
        final.leaveException.2.control.get status = cpu.control.get status) := by
  have alone := handling_raise outside first
  have all := alone.foldl_raise later
  obtain rfl | ⟨earlier, last, rfl⟩ := List.eq_nil_or_concat later
  · refine ⟨all, exceptionNumber_raise, coprocessorNumber_raise, ?_, ?_,
      all.leaveException outside⟩
    · simp [inDelaySlot_raise, outside]
    · simp [pc_raise, outside]
  · have handling := alone.foldl_raise earlier
    simp only [List.concat_eq_append, List.foldl_append, List.foldl_cons, List.foldl_nil,
      List.getLastD_concat] at all ⊢
    refine ⟨all, exceptionNumber_raise, coprocessorNumber_raise, ?_, ?_,
      all.leaveException outside⟩
    · simp [inDelaySlot_raise, handling.exceptionLevel]
    · simp [pc_raise, handling.exceptionLevel, handling.vectorBase]

-- A breakpoint in a delay slot, and a system call in its handler.
example :
    let first : ExceptionDescriptor :=
      { cause := .ofCode .breakpoint, pc := 0xffffffff80000100, delaySlot := true }
    let second : ExceptionDescriptor :=
      { cause := .ofCode .syscall, pc := 0xffffffff80000184, delaySlot := false }
    (reset.raise first).control.inDelaySlot = true ∧
      ((reset.raise first).raise second).control.get epc = first.pc ∧
      ((reset.raise first).raise second).control.inDelaySlot = false := by
  decide

end CpuState

end MipsRecompiler
