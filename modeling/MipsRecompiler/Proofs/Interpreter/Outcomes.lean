import MipsRecompiler.CodeUnit.Category
import MipsRecompiler.Interpreter.Execute
import MipsRecompiler.Proofs.Cpu.GuestRegisters
import MipsRecompiler.Proofs.Memory.Routines

/-!
# What performing an instruction comes to

Where execution goes next depends on the operation alone, and only few instructions change how
floating point registers are addressed. A word whose operation is known can still be reserved,
because of its format.
-/

set_option autoImplicit false

namespace MipsRecompiler

/-- The formats that the instruction names can be used with its operation. -/
def Instruction.FormatsLegal (inst : Instruction) (pc : DoubleWord) : Operation → Prop
  | .floatArithmetic _ | .floatUnary _ | .floatMove | .floatCompare =>
    ∃ format, inst.arithmeticFormat pc = .ok format
  | .floatConvert target _ => ∃ source, inst.conversionSource pc target = .ok source
  | _ => True

theorem Instruction.arithmeticFormat_error {inst : Instruction} {pc : DoubleWord}
    {reason : IllegalInstruction} (fails : inst.arithmeticFormat pc = .error reason) :
    reason = .reserved pc inst.word := by
  unfold Instruction.arithmeticFormat at fails
  split at fails <;> cases fails
  rfl

theorem Instruction.conversionSource_error {inst : Instruction} {pc : DoubleWord}
    {target : FloatFormat} {reason : IllegalInstruction}
    (fails : inst.conversionSource pc target = .error reason) :
    reason = .reserved pc inst.word := by
  unfold Instruction.conversionSource at fails
  split at fails <;> cases fails
  rfl

/-- A delay slot follows an instruction whose operation is a branch. -/
@[simp] theorem Instruction.categoryOf_isBranch (inst : Instruction) (form : Form)
    (operation : Operation) :
    (inst.categoryOf form operation).isBranch = operation.isBranch := by
  unfold Instruction.categoryOf
  cases likely : operation.isLikelyBranch with
  | true =>
      cases operation with
      | branchLikely | branchLinkLikely | branchFloat => rfl
      | _ => cases likely
  | false =>
      cases branch : operation.isBranch with
      | true => rfl
      | false =>
          simp only [Bool.false_eq_true, if_false]
          split <;> first | rfl | (split <;> rfl)

namespace Interpreter

open Machine (SameFloat)

variable {β : Type}

/-- What came of an instruction, with a condition on how it was completed. It may have been
interrupted by an exception, but not because it is reserved. -/
def Completes (finished : Flow → Machine β → Prop) :
    EStateM.Result Interruption (Machine β) Flow → Prop
  | .ok flow after => finished flow after
  | .error (.exception _) _ => True
  | .error (.illegal _) _ => False

/-- Execution goes on to the following instruction, with floating point registers as before. -/
def Advances (guest : Machine β) : EStateM.Result Interruption (Machine β) Flow → Prop :=
  Completes fun flow after =>
    flow = .next ∧ SameFloat guest.cpu.control after.cpu.control

/-- Execution goes through a delay slot, with floating point registers as before. -/
def Branches (guest : Machine β) : EStateM.Result Interruption (Machine β) Flow → Prop :=
  Completes fun flow after =>
    (∃ target taken likely, flow = .branch target taken likely) ∧
      SameFloat guest.cpu.control after.cpu.control

def Straight : EStateM.Result Interruption (Machine β) Flow → Prop :=
  Completes fun flow _ => ∀ target taken likely, flow ≠ .branch target taken likely

theorem Advances.straight {guest : Machine β}
    {result : EStateM.Result Interruption (Machine β) Flow} (advances : Advances guest result) :
    Straight result := by
  cases result with
  | ok flow after =>
      obtain ⟨rfl, -⟩ := advances
      exact fun _ _ _ => nofun
  | error interruption after =>
      cases interruption with
      | exception => trivial
      | illegal => exact advances

section Actions

variable [Bus β] {guest : Machine β}

omit [Bus β] in
theorem accessing_bind {α : Type} (access : Machine.Access β α) (next : α → Execution β Flow)
    (machine : Machine β) :
    (accessing access >>= next) machine =
      match access machine with
      | .ok value after => next value after
      | .error fault after => .error (.exception (.ofFault fault)) after := by
  simp only [bind, EStateM.bind, accessing]
  cases access machine <;> rfl

/-- Both aligned operations as one. -/
theorem perform_memory {inst : Instruction} {pc : DoubleWord} {form : Form} {size : AccessSize}
    (signed : Bool) (guest : Machine β) :
    perform inst pc form (if signed then .memory size else .memoryUnsigned size) guest =
      (if form = .store then do
          accessing (Machine.store size (guest.cpu.readGpr inst.rs + inst.signedImmediate)
            (guest.cpu.readGpr inst.rt))
          return .next
        else do
          let value ← accessing (Machine.load size signed
            (guest.cpu.readGpr inst.rs + inst.signedImmediate))
          writeGpr inst.rt value : Execution β Flow) guest := by
  simp only [perform, bind, EStateM.bind, getState]
  cases signed <;> simp [Operation.usesFloat]

theorem perform_memoryLinked {inst : Instruction} {pc : DoubleWord} {form : Form}
    {size : AccessSize} (guest : Machine β) :
    perform inst pc form (.memoryLinked size) guest =
      (do
        let value ← accessing (if form = .store then
            Machine.storeConditional size (guest.cpu.readGpr inst.rs + inst.signedImmediate)
              (guest.cpu.readGpr inst.rt)
          else Machine.loadLinked size (guest.cpu.readGpr inst.rs + inst.signedImmediate))
        writeGpr inst.rt value : Execution β Flow) guest := by
  by_cases stores : form = .store
  · subst stores
    rfl
  · simp only [perform, bind, EStateM.bind, getState]
    simp only [Operation.usesFloat, stores, if_false]
    rfl

omit [Bus β] in
private theorem changeCpu_advances {change : CpuState → CpuState}
    (same : SameFloat guest.cpu.control (change guest.cpu).control) :
    Advances guest (changeCpu change guest) :=
  ⟨rfl, same⟩

omit [Bus β] in
private theorem writeGpr_advances (reg : RegisterNumber) (value : DoubleWord) :
    Advances guest (writeGpr reg value guest) := by
  refine changeCpu_advances ?_
  rw [← CpuState.writeGuest_general, CpuState.writeGuest_control]
  exact .refl _

omit [Bus β] in
private theorem writeChecked_advances (reg : RegisterNumber) (result : Option DoubleWord) :
    Advances guest (writeChecked reg result guest) := by
  cases result with
  | some value => exact writeGpr_advances reg value
  | none => trivial

omit [Bus β] in
private theorem floatResult_advances (format : FloatFormat) (reg : RegisterNumber)
    (value : CpuState → DoubleWord) : Advances guest (floatResult format reg value guest) := by
  refine changeCpu_advances ?_
  simp only [CpuState.writeFloat]
  split <;> exact .refl _

omit [Bus β] in
private theorem Advances.of_same {before : Machine β}
    {result : EStateM.Result Interruption (Machine β) Flow} (advances : Advances guest result)
    (same : SameFloat before.cpu.control guest.cpu.control) : Advances before result := by
  cases result with
  | ok flow after => exact ⟨advances.1, same.trans advances.2⟩
  | error interruption after =>
      cases interruption with
      | exception => trivial
      | illegal => exact advances

omit [Bus β] in
private theorem choice_advances {chosen : Prop} [Decidable chosen]
    {first second : Execution β Flow} (left : Advances guest (first guest))
    (right : Advances guest (second guest)) :
    Advances guest ((if chosen then first else second) guest) := by
  split
  · exact left
  · exact right

omit [Bus β] in
private theorem accessing_advances {α : Type} {access : Machine.Access β α}
    {next : α → Execution β Flow}
    (same : ∀ value after, access guest = .ok value after →
      SameFloat guest.cpu.control after.cpu.control)
    (advances : ∀ value after, Advances after (next value after)) :
    Advances guest ((accessing access >>= next) guest) := by
  rw [accessing_bind]
  cases ends : access guest with
  | ok value after => exact (advances value after).of_same (same value after ends)
  | error fault after => trivial

private theorem load_advances (size : AccessSize) (signed : Bool) (address : DoubleWord)
    {next : DoubleWord → Execution β Flow}
    (advances : ∀ value after, Advances after (next value after)) :
    Advances guest ((accessing (Machine.load size signed address) >>= next) guest) := by
  refine accessing_advances (fun value after loads => ?_) advances
  rw [Machine.load_eq] at loads
  split at loads <;> cases loads
  exact .refl _

private theorem store_advances (size : AccessSize) (address value : DoubleWord) :
    Advances guest
      ((do
        accessing (Machine.store size address value)
        return .next : Execution β Flow) guest) := by
  refine accessing_advances (fun result after stores => ?_) fun _ _ => ⟨rfl, .refl _⟩
  rw [Machine.store_eq] at stores
  split at stores <;> cases stores
  exact .refl _

private theorem loadRoutine_advances (routine : Ir.Routine) (arguments : List DoubleWord)
    {access : Machine.Access β DoubleWord} {reg : RegisterNumber}
    (other : ∀ reg double, routine ≠ .moveToControl reg double)
    (is : Machine.callRoutine routine arguments guest = access guest) :
    Advances guest
      ((do
        let value ← accessing access
        writeGpr reg value : Execution β Flow) guest) :=
  accessing_advances
    (fun _ _ gives => Machine.callRoutine_sameFloat other (is.trans gives))
    fun _ _ => writeGpr_advances _ _

private theorem storeRoutine_advances (routine : Ir.Routine) (arguments : List DoubleWord)
    {access : Machine.Access β Unit} (other : ∀ reg double, routine ≠ .moveToControl reg double)
    (is : Machine.callRoutine routine arguments guest =
      (access >>= fun _ => pure 0) guest) :
    Advances guest
      ((do
        accessing access
        return .next : Execution β Flow) guest) := by
  refine accessing_advances (fun value after gives => ?_) fun _ _ => ⟨rfl, .refl _⟩
  rw [Machine.bind_pure, gives] at is
  exact Machine.callRoutine_sameFloat other is

private theorem routine_advances (routine : Ir.Routine) {change : Machine β → Machine β}
    (other : ∀ reg double, routine ≠ .moveToControl reg double)
    (is : Machine.callRoutine routine [] guest = .ok 0 (change guest)) :
    Advances guest (changeMachine change guest) :=
  ⟨rfl, Machine.callRoutine_sameFloat other is⟩

omit [Bus β] in
private theorem write_sameFloat {reg : RegisterNumber} (beside : reg ≠ SystemControl.status)
    (control : SystemControl) (value : DoubleWord) (double : Bool) :
    SameFloat control (control.write reg value double) :=
  .of_status (SystemControl.get_write_of_ne beside (by decide) (by decide) value double)

omit [Bus β] in
private theorem legally_completes {α : Type} {finished : Flow → Machine β → Prop}
    {said : Except IllegalInstruction α} {next : α → Execution β Flow}
    (legal : ∃ value, said = .ok value)
    (completes : ∀ value, Completes finished (next value guest)) :
    Completes finished ((legally said >>= next) guest) := by
  obtain ⟨value, rfl⟩ := legal
  exact completes value

omit [Bus β] in
/-- Where the floating point unit is not usable, an instruction that needs it is interrupted. -/
private theorem guarded_completes {finished : Flow → Machine β → Prop}
    {execute refuse : Execution β Flow}
    (refuses : refuse guest = .error (.exception (.coprocessorUnusable 1)) guest)
    (completes : Completes finished (execute guest)) :
    Completes finished
      ((if !guest.cpu.control.floatUsable then refuse else execute) guest) := by
  cases guest.cpu.control.floatUsable with
  | true => exact completes
  | false =>
      simp only [Bool.not_false, if_true, refuses]
      trivial

end Actions

/-! ## Instructions -/

section Instructions

variable [Bus β] {inst : Instruction} {pc : DoubleWord} {form : Form} {operation : Operation}

omit [Bus β] in
private theorem linked_sameFloat (guest : Machine β) (reg : RegisterNumber) (value : DoubleWord) :
    SameFloat guest.cpu.control (guest.mapCpu (·.writeGpr reg value)).cpu.control := by
  simp only [Machine.mapCpu, ← CpuState.writeGuest_general, CpuState.writeGuest_control]
  exact .refl _

/-- A branch or jump goes through its delay slot. -/
theorem perform_branches (branch : operation.isBranch = true) (guest : Machine β) :
    Branches guest (perform inst pc form operation guest) := by
  cases operation with
  | jump | jumpRegister | branch | branchLikely => exact ⟨⟨_, _, _, rfl⟩, .refl _⟩
  | jumpLink | jumpRegisterLink | branchLink | branchLinkLikely =>
      exact ⟨⟨_, _, _, rfl⟩, linked_sameFloat guest _ _⟩
  | branchFloat onTrue likely =>
      refine guarded_completes rfl ?_
      exact ⟨⟨_, _, _, rfl⟩, .refl _⟩
  | _ => cases branch

/-- What is no branch, does not end a unit and has legal formats is simply completed. -/
theorem perform_advances (plain : operation.isBranch = false)
    (inside : inst.categoryOf form operation ≠ .blockEnder)
    (legal : inst.FormatsLegal pc operation) (guest : Machine β) :
    Advances guest (perform inst pc form operation guest) := by
  cases operation with
  | jump | jumpLink | jumpRegister | jumpRegisterLink | branch | branchLikely | branchLink
    | branchLinkLikely | branchFloat => cases plain
  | systemCall | breakpoint | exceptionReturn => exact absurd rfl inside
  | nop | cacheControl | tlbWriteIndexed => exact ⟨rfl, .refl _⟩
  | addTrapWord | addTrapDouble | subTrapWord | subTrapDouble => exact writeChecked_advances _ _
  | addWord | addDouble | subWord | subDouble | setLess | setLessUnsigned | and | or | xor | nor
    | insertUpper | shift | moveFromControl => exact writeGpr_advances _ _
  | moveFromProduct source => cases source <;> exact writeGpr_advances _ _
  | moveToProduct target => cases target <;> exact ⟨rfl, .refl _⟩
  | mulDiv => exact ⟨rfl, .refl _⟩
  | memory size =>
      have advances : Advances guest
          (perform inst pc form (if true then .memory size else .memoryUnsigned size) guest) := by
        rw [perform_memory]
        exact choice_advances (store_advances _ _ _)
          (load_advances _ _ _ fun _ _ => writeGpr_advances _ _)
      exact advances
  | memoryUnsigned size =>
      have advances : Advances guest
          (perform inst pc form (if false then .memory size else .memoryUnsigned size) guest) := by
        rw [perform_memory]
        exact choice_advances (store_advances _ _ _)
          (load_advances _ _ _ fun _ _ => writeGpr_advances _ _)
      exact advances
  | memoryLeft size =>
      exact choice_advances (storeRoutine_advances (.storeLeft size) [_, _] (by simp) rfl)
        (loadRoutine_advances (.loadLeft size) [_, _] (by simp) rfl)
  | memoryRight size =>
      exact choice_advances (storeRoutine_advances (.storeRight size) [_, _] (by simp) rfl)
        (loadRoutine_advances (.loadRight size) [_, _] (by simp) rfl)
  | memoryLinked size =>
      rw [perform_memoryLinked]
      split
      · exact loadRoutine_advances (.storeConditional size) [_, _] (by simp) rfl
      · exact loadRoutine_advances (.loadLinked size) [_] (by simp) rfl
  | trap mode => exact choice_advances trivial ⟨rfl, .refl _⟩
  | moveToControl double =>
      have beside : inst.rd ≠ SystemControl.status := fun is => inside (by
        simp [Instruction.categoryOf, Operation.isLikelyBranch, Operation.isBranch, is])
      exact ⟨rfl, write_sameFloat beside _ _ _⟩
  | tlbRead => exact routine_advances .tlbRead (by simp) rfl
  | tlbWriteRandom => exact routine_advances .tlbWriteRandom (by simp) rfl
  | tlbProbe => exact routine_advances .tlbProbe (by simp) rfl
  | moveFromFloat double => exact guarded_completes rfl (writeGpr_advances _ _)
  | moveToFloat double =>
      refine guarded_completes rfl (changeCpu_advances ?_)
      cases double <;> exact .refl _
  | moveFromFloatControl => exact guarded_completes rfl (writeGpr_advances _ _)
  | moveToFloatControl =>
      refine guarded_completes rfl (changeCpu_advances ?_)
      unfold CpuState.writeFloatControl
      split <;> exact .refl _
  | floatMemory size =>
      refine guarded_completes rfl (choice_advances (store_advances _ _ _) ?_)
      exact load_advances _ _ _ fun _ _ => floatResult_advances _ _ _
  | floatArithmetic op =>
      exact guarded_completes rfl (legally_completes legal fun _ => floatResult_advances _ _ _)
  | floatUnary op =>
      exact guarded_completes rfl (legally_completes legal fun _ => floatResult_advances _ _ _)
  | floatMove =>
      exact guarded_completes rfl (legally_completes legal fun _ => floatResult_advances _ _ _)
  | floatConvert target mode =>
      exact guarded_completes rfl (legally_completes legal fun _ => floatResult_advances _ _ _)
  | floatCompare =>
      exact guarded_completes rfl (legally_completes legal fun _ => changeCpu_advances (.refl _))

theorem perform_straight (plain : operation.isBranch = false)
    (legal : inst.FormatsLegal pc operation) (guest : Machine β) :
    Straight (perform inst pc form operation guest) := by
  by_cases inside : inst.categoryOf form operation = .blockEnder
  · cases operation with
    | systemCall => trivial
    | breakpoint => trivial
    | exceptionReturn => exact fun _ _ _ => nofun
    | moveToControl => exact fun _ _ _ => nofun
    | jump | jumpLink | jumpRegister | jumpRegisterLink | branch | branchLikely | branchLink
      | branchLinkLikely | branchFloat => cases plain
    | cacheControl | tlbWriteIndexed | tlbWriteRandom => cases inside
    | _ =>
        simp only [Instruction.categoryOf, Operation.isLikelyBranch, Operation.isBranch,
          Bool.false_eq_true, if_false] at inside
        split at inside <;> contradiction
  · exact (perform_advances plain inside legal guest).straight

theorem perform_legal (legal : inst.FormatsLegal pc operation) (guest : Machine β) :
    Completes (fun _ _ => True) (perform inst pc form operation guest) := by
  have weaken {finished : Flow → Machine β → Prop}
      (completes : Completes finished (perform inst pc form operation guest)) :
      Completes (fun _ _ => True) (perform inst pc form operation guest) := by
    cases result : perform inst pc form operation guest with
    | ok flow after => trivial
    | error interruption after =>
        rw [result] at completes
        cases interruption with
        | exception => trivial
        | illegal => exact completes
  cases branch : operation.isBranch with
  | true => exact weaken (perform_branches branch guest)
  | false => exact weaken (perform_straight branch legal guest)

/-- An instruction whose formats cannot be used is reserved if the floating point unit is
usable. -/
theorem perform_reserved {guest : Machine β} (usable : guest.cpu.control.floatUsable = true)
    (illegal : ¬ inst.FormatsLegal pc operation) :
    perform inst pc form operation guest = .error (.illegal (.reserved pc inst.word)) guest := by
  have arithmetic (asks : ¬ ∃ format, inst.arithmeticFormat pc = .ok format) :
      inst.arithmeticFormat pc = .error (.reserved pc inst.word) := by
    cases fails : inst.arithmeticFormat pc with
    | ok format => exact absurd ⟨format, fails⟩ asks
    | error reason => rw [Instruction.arithmeticFormat_error fails]
  have conversion (target : FloatFormat)
      (asks : ¬ ∃ source, inst.conversionSource pc target = .ok source) :
      inst.conversionSource pc target = .error (.reserved pc inst.word) := by
    cases fails : inst.conversionSource pc target with
    | ok source => exact absurd ⟨source, fails⟩ asks
    | error reason => rw [Instruction.conversionSource_error fails]
  cases operation with
  | floatArithmetic | floatUnary | floatMove | floatCompare =>
      simp only [perform, bind, EStateM.bind, getState, usable, arithmetic illegal]
      rfl
  | floatConvert target =>
      simp only [perform, bind, EStateM.bind, getState, usable, conversion target illegal]
      rfl
  | _ => exact absurd trivial illegal

end Instructions

end Interpreter

end MipsRecompiler
