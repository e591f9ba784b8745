import MipsRecompiler.Proofs.Cpu.Exceptions
import MipsRecompiler.Proofs.Interpreter.Stepping

/-!
# Interrupted instructions

An instruction is checked before it writes, so one that is interrupted leaves the machine as it was,
and the exceptions that the interpreter enters are precise. Errors of the interpreter are not. It
forgets that it is in a delay slot before it fetches, and finds a branch there only after the link
register of that branch was written.
-/

set_option autoImplicit false

namespace MipsRecompiler.Interpreter

variable {β : Type}

/-- A machine before and after a branch, which writes no more than a link register. -/
def Linked (pc : DoubleWord) (before after : Machine β) : Prop :=
  after = before ∨ ∃ reg, after = before.mapCpu (·.writeGpr reg (pc + 8))

/-- The instruction was checked before it wrote: if it was interrupted, the machine is as it was,
and a branch only wrote its link. -/
def Checked (pc : DoubleWord) (guest : Machine β) :
    EStateM.Result Interruption (Machine β) Flow → Prop
  | .ok (.branch _ _ _) after => Linked pc guest after
  | .ok _ _ => True
  | .error _ after => after = guest

section Actions

variable {pc : DoubleWord} {guest : Machine β}

private theorem writeChecked_checked (reg : RegisterNumber) (result : Option DoubleWord) :
    Checked pc guest (writeChecked reg result guest) := by
  cases result with
  | some value => trivial
  | none => rfl

private theorem choice_checked {chosen : Prop} [Decidable chosen] {first second : Execution β Flow}
    (left : Checked pc guest (first guest)) (right : Checked pc guest (second guest)) :
    Checked pc guest ((if chosen then first else second) guest) := by
  split
  · exact left
  · exact right

private theorem guarded_checked {execute refuse : Execution β Flow} {interruption : Interruption}
    (refuses : refuse guest = .error interruption guest)
    (checked : Checked pc guest (execute guest)) :
    Checked pc guest ((if !guest.cpu.control.floatUsable then refuse else execute) guest) := by
  cases guest.cpu.control.floatUsable with
  | true => exact checked
  | false =>
      simp only [Bool.not_false, if_true, refuses]
      rfl

private theorem legally_checked {α : Type} (said : Except IllegalInstruction α)
    {next : α → Execution β Flow} (checked : ∀ value, Checked pc guest (next value guest)) :
    Checked pc guest ((legally said >>= next) guest) := by
  cases said with
  | ok value => exact checked value
  | error reason => rfl

/-- An access that faults without a trace, before anything is written. -/
private theorem accessing_checked {α : Type} {access : Machine.Access β α}
    {next : α → Execution β Flow}
    (faults : ∀ fault after, access guest = .error fault after → after = guest)
    (writes : ∀ value after, ∃ last, next value after = .ok .next last) :
    Checked pc guest ((accessing access >>= next) guest) := by
  rw [accessing_bind]
  cases ends : access guest with
  | ok value after =>
      obtain ⟨last, is⟩ := writes value after
      simp only [is]
      trivial
  | error fault after => exact faults fault after ends

variable [Bus β]

private theorem load_checked (size : AccessSize) (signed : Bool) (address : DoubleWord)
    {next : DoubleWord → Execution β Flow}
    (writes : ∀ value after, ∃ last, next value after = .ok .next last) :
    Checked pc guest ((accessing (Machine.load size signed address) >>= next) guest) := by
  refine accessing_checked (fun fault after faults => ?_) writes
  rw [Machine.load_eq] at faults
  split at faults <;> cases faults
  rfl

private theorem store_checked (size : AccessSize) (address value : DoubleWord) :
    Checked pc guest
      ((do
        accessing (Machine.store size address value)
        return .next : Execution β Flow) guest) := by
  refine accessing_checked (fun fault after faults => ?_) fun _ _ => ⟨_, rfl⟩
  rw [Machine.store_eq] at faults
  split at faults <;> cases faults
  rfl

private theorem loadRoutine_checked (routine : Ir.Routine) (arguments : List DoubleWord)
    {access : Machine.Access β DoubleWord} {reg : RegisterNumber}
    (is : Machine.callRoutine routine arguments guest = access guest) :
    Checked pc guest
      ((do
        let value ← accessing access
        writeGpr reg value : Execution β Flow) guest) :=
  accessing_checked (fun _ _ faults => Machine.callRoutine_error (is.trans faults))
    fun _ _ => ⟨_, rfl⟩

private theorem storeRoutine_checked (routine : Ir.Routine) (arguments : List DoubleWord)
    {access : Machine.Access β Unit}
    (is : Machine.callRoutine routine arguments guest =
      (access >>= fun _ => pure 0) guest) :
    Checked pc guest
      ((do
        accessing access
        return .next : Execution β Flow) guest) := by
  refine accessing_checked (fun fault after faults => ?_) fun _ _ => ⟨_, rfl⟩
  rw [Machine.bind_pure, faults] at is
  exact Machine.callRoutine_error is

end Actions

section Instructions

variable [Bus β] {pc : DoubleWord}

theorem perform_checked (inst : Instruction) (pc : DoubleWord) (form : Form)
    (operation : Operation) (guest : Machine β) :
    Checked pc guest (perform inst pc form operation guest) := by
  cases operation with
  | nop | cacheControl | addWord | addDouble | subWord | subDouble | setLess | setLessUnsigned
    | and | or | xor | nor | insertUpper | shift | mulDiv | moveFromControl | moveToControl
    | tlbRead | tlbWriteIndexed | tlbWriteRandom | tlbProbe | exceptionReturn => trivial
  | moveFromProduct source => cases source <;> trivial
  | moveToProduct target => cases target <;> trivial
  | systemCall | breakpoint => rfl
  | jump | jumpRegister | branch | branchLikely => exact .inl rfl
  | jumpLink | jumpRegisterLink | branchLink | branchLinkLikely => exact .inr ⟨_, rfl⟩
  | branchFloat onTrue likely => exact guarded_checked rfl (.inl rfl)
  | addTrapWord | addTrapDouble | subTrapWord | subTrapDouble => exact writeChecked_checked _ _
  | trap mode => exact choice_checked rfl trivial
  | memory size =>
      have checked : Checked pc guest
          (perform inst pc form (if true then .memory size else .memoryUnsigned size) guest) := by
        rw [perform_memory]
        exact choice_checked (store_checked _ _ _) (load_checked _ _ _ fun _ _ => ⟨_, rfl⟩)
      exact checked
  | memoryUnsigned size =>
      have checked : Checked pc guest
          (perform inst pc form (if false then .memory size else .memoryUnsigned size) guest) := by
        rw [perform_memory]
        exact choice_checked (store_checked _ _ _) (load_checked _ _ _ fun _ _ => ⟨_, rfl⟩)
      exact checked
  | memoryLeft size =>
      exact choice_checked (storeRoutine_checked (.storeLeft size) [_, _] rfl)
        (loadRoutine_checked (.loadLeft size) [_, _] rfl)
  | memoryRight size =>
      exact choice_checked (storeRoutine_checked (.storeRight size) [_, _] rfl)
        (loadRoutine_checked (.loadRight size) [_, _] rfl)
  | memoryLinked size =>
      rw [perform_memoryLinked]
      split
      · exact loadRoutine_checked (.storeConditional size) [_, _] rfl
      · exact loadRoutine_checked (.loadLinked size) [_] rfl
  | moveFromFloat | moveToFloat | moveFromFloatControl | moveToFloatControl =>
      exact guarded_checked rfl trivial
  | floatMemory size =>
      refine guarded_checked rfl (choice_checked (store_checked _ _ _) ?_)
      exact load_checked _ _ _ fun _ _ => ⟨_, rfl⟩
  | floatArithmetic | floatUnary | floatMove | floatConvert | floatCompare =>
      exact guarded_checked rfl (legally_checked _ fun _ => trivial)

theorem executeWord_checked (word : Word) (pc : DoubleWord) (guest : Machine β) :
    Checked pc guest (executeWord word pc guest) :=
  legally_checked _ fun (form, operation) => perform_checked ⟨word⟩ pc form operation guest

theorem fetchAndPerform_checked [QuietBus β] (pc : DoubleWord) (guest : Machine β) :
    Checked pc guest (fetchAndPerform pc guest) := by
  cases translates : guest.translate pc .fetch .word with
  | error fault =>
      rw [fetchAndPerform_fault translates]
      rfl
  | ok physical =>
      rw [fetchAndPerform_word translates]
      exact executeWord_checked _ pc guest

end Instructions

/-! ## Exceptions -/

section Exceptions

variable [Bus β] {interpreter : Interpreter β} {cause : ExceptionCause}

/-- The exception that the next step enters, if it enters one. -/
def exception? (interpreter : Interpreter β) : Option ExceptionCause :=
  match fetchAndPerform interpreter.machine.cpu.pc interpreter.machine with
  | .error (.exception cause) _ => some cause
  | _ => none

/-- The exception is raised on the machine as it was before the step. -/
theorem step_of_exception? [QuietBus β] (enters : interpreter.exception? = some cause) :
    interpreter.step = (.ok (), ⟨interpreter.machine.raise
      { cause
        pc := if interpreter.inDelaySlot then interpreter.machine.cpu.pc - 4
          else interpreter.machine.cpu.pc
        delaySlot := interpreter.inDelaySlot }, none⟩) := by
  have checked := fetchAndPerform_checked interpreter.machine.cpu.pc interpreter.machine
  unfold exception? at enters
  split at enters
  · rename_i other after performs
    rw [performs] at checked
    cases enters
    cases checked
    exact step_exception performs
  · cases enters

/-- Exceptions are precise. The instruction that raises one has had no effect, and the handler can
return to it, or to the branch whose delay slot it is in. -/
theorem exceptions_precise [QuietBus β] (interpreter : Interpreter β) (cause : ExceptionCause)
    (enters : interpreter.exception? = some cause) :
    let before := interpreter.machine
    ∃ next, interpreter.step = (.ok (), next) ∧ next.inDelaySlot = false ∧
      before.cpu.Spared next.machine.cpu ∧ next.machine.bus = before.bus ∧
      next.machine.tlb = before.tlb ∧
      next.machine.cpu.control.exceptionLevel = true ∧
      next.machine.cpu.control.exceptionNumber = BitVec.ofNat 5 cause.code.number ∧
      (before.cpu.control.exceptionLevel = false →
        next.machine.cpu.control.get SystemControl.epc =
          (if interpreter.inDelaySlot then before.cpu.pc - 4 else before.cpu.pc) ∧
        next.machine.cpu.control.inDelaySlot = interpreter.inDelaySlot ∧
        (before.cpu.control.errorLevel = false →
          next.machine.cpu.leaveException.1 = next.machine.cpu.control.get SystemControl.epc)) := by
  refine ⟨_, step_of_exception? enters, rfl, CpuState.spared_raise _ _, rfl, rfl,
    CpuState.exceptionLevel_raise, CpuState.exceptionNumber_raise, fun outside => ?_⟩
  have handling := CpuState.handling_raise outside
  refine ⟨(handling _).epc, ?_, fun noError => ?_⟩
  · refine CpuState.inDelaySlot_raise.trans ?_
    rw [outside, Bool.not_false, Bool.true_and]
  · exact ((handling _).leaveException outside noError).1.trans (handling _).epc.symm

/-- A guest whose merging store, in a delay slot, is to a page that is not mapped. -/
def faultingSlot : Interpreter Ram :=
  { machine :=
      { cpu := { CpuState.reset with pc := 0xffffffff80000004 }.writeGpr 8 0x40000001
        tlb := .reset
        bus := (Ram.ofSize 256).write 4 .word 0xa9090000 }
    delayTarget := some 0xffffffff80000040 }

theorem faultingSlot_precise :
    faultingSlot.exception? = some
        { code := .tlbStore, badAddress := some 0x40000000, refill := true } ∧
      ∃ next, faultingSlot.step = (.ok (), next) ∧ next.inDelaySlot = false ∧
        faultingSlot.machine.cpu.Spared next.machine.cpu ∧
        next.machine.cpu.control.get SystemControl.epc = 0xffffffff80000000 ∧
        next.machine.cpu.control.inDelaySlot = true ∧
        next.machine.cpu.leaveException.1 = 0xffffffff80000000 := by
  have enters : faultingSlot.exception? = some
      { code := .tlbStore, badAddress := some 0x40000000, refill := true } := by decide +kernel
  obtain ⟨next, steps, outside, spared, -, -, -, -, returns⟩ :=
    exceptions_precise faultingSlot _ enters
  obtain ⟨epc, slot, leaves⟩ := returns (by decide)
  exact ⟨enters, next, steps, outside, spared, epc, slot, (leaves (by decide)).trans epc⟩

end Exceptions

/-! ## Errors -/

section Errors

variable [Bus β] [QuietBus β] {interpreter next : Interpreter β} {reason : InterpreterError}

/-- A step fails at an instruction that cannot be executed, or at a branch in a delay slot. -/
theorem step_error_cases (fails : interpreter.step = (.error reason, next)) :
    (∃ illegal, reason = .illegal illegal ∧ next = ⟨interpreter.machine, none⟩ ∧
      fetchAndPerform interpreter.machine.cpu.pc interpreter.machine =
        .error (.illegal illegal) interpreter.machine) ∨
      (reason = .branchInDelaySlot interpreter.machine.cpu.pc ∧
        interpreter.inDelaySlot = true ∧ next.delayTarget = none ∧
        Linked interpreter.machine.cpu.pc interpreter.machine next.machine) := by
  obtain ⟨guest, delayTarget⟩ := interpreter
  have checked := fetchAndPerform_checked guest.cpu.pc guest
  cases performs : fetchAndPerform guest.cpu.pc guest with
  | error interruption after =>
      rw [performs] at checked
      cases checked
      cases interruption with
      | exception cause =>
          rw [step_exception performs] at fails
          cases fails
      | illegal illegal =>
          rw [step_illegal performs] at fails
          cases fails
          exact .inl ⟨illegal, rfl, rfl, rfl⟩
  | ok flow after =>
      rw [performs] at checked
      cases flow with
      | next =>
          rw [step_next performs] at fails
          cases fails
      | jump target =>
          rw [step_jump performs] at fails
          cases fails
      | branch target taken likely =>
          cases delayTarget with
          | none =>
              rw [step_branch performs] at fails
              cases fails
          | some behind =>
              simp only [step, performs, Option.isSome_some, if_true] at fails
              cases fails
              exact .inr ⟨rfl, rfl, rfl, checked⟩

/-- A step that fails forgets that it was in a delay slot. Beside that, only the link register of a
branch that was refused there can have changed. -/
theorem step_error (fails : interpreter.step = (.error reason, next)) :
    next.delayTarget = none ∧
      (next.machine = interpreter.machine ∨
        reason = .branchInDelaySlot interpreter.machine.cpu.pc ∧
          ∃ reg, next.machine = interpreter.machine.mapCpu
            (·.writeGpr reg (interpreter.machine.cpu.pc + 8))) := by
  obtain ⟨illegal, rfl, rfl, -⟩ | ⟨refused, -, forgets, same | linked⟩ := step_error_cases fails
  · exact ⟨rfl, .inl rfl⟩
  · exact ⟨forgets, .inl same⟩
  · exact ⟨forgets, .inr ⟨refused, linked⟩⟩

theorem step_error_outside (outside : interpreter.inDelaySlot = false)
    (fails : interpreter.step = (.error reason, next)) : next = interpreter := by
  obtain ⟨illegal, -, rfl, -⟩ | ⟨-, inside, -⟩ := step_error_cases fails
  · obtain ⟨guest, delayTarget⟩ := interpreter
    cases delayTarget with
    | none => rfl
    | some behind => cases outside
  · cases outside.symm.trans inside

/-- An instruction that cannot be executed is refused as often as it is tried. -/
theorem step_illegal_again {illegal : IllegalInstruction}
    (fails : interpreter.step = (.error (.illegal illegal), next)) :
    next.step = (.error (.illegal illegal), next) := by
  obtain ⟨_, ⟨⟩, rfl, performs⟩ | ⟨refused, -⟩ := step_error_cases fails
  · exact step_illegal performs
  · cases refused

-- A jump in a delay slot is refused, but not a second time, and its link was written.
example :
    let guest : Machine Ram :=
      { cpu := { CpuState.reset with pc := 0xffffffff80000004 }
        tlb := .reset
        bus := (Ram.ofSize 256).write 4 .word 0x0c000040 }
    let refused := step { machine := guest, delayTarget := some 0xffffffff80000014 }
    refused.1.isOk = false ∧ refused.2.machine.cpu.readGpr 31 = 0xffffffff8000000c ∧
      refused.2.step.1.isOk = true := by
  decide +kernel

end Errors

end MipsRecompiler.Interpreter
