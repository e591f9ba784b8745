import MipsRecompiler.Emission.Block
import MipsRecompiler.Proofs.Emission.Float
import MipsRecompiler.Proofs.Emission.Integer

/-!
# Every instruction

What is emitted for an instruction follows the interpreter, whatever the instruction.
-/

set_option autoImplicit false

namespace MipsRecompiler.Emission

open Ir
open Interpreter (Execution Flow Interruption perform_memory perform_memoryLinked)

variable {β : Type} [Bus β] {start : Machine β} {place : Place} {before : Stage β}

/-- What needs the floating point unit follows the interpreter if it does where the unit is
usable. Where it is not, the values behind the check do not matter. -/
private theorem guarded_follows {emit : Emit Unit} {execute refuse : Execution β Flow}
    (refuses : refuse before.guest =
      .error (.exception (.coprocessorUnusable 1)) before.guest)
    (follows : Follows start place before emit (execute before.guest)) :
    Follows start place before (do
        checkFloatUsable
        emit)
      ((if !before.guest.cpu.control.floatUsable then refuse else execute) before.guest) := by
  have checks : Emits start place before checkFloatUsable _ _ := Emits.checkFloatUsable
  cases usable : before.guest.cpu.control.floatUsable with
  | true =>
      rw [usable] at checks
      exact checks.bind fun _ => follows
  | false =>
      rw [usable] at checks
      simp only [Bool.not_false, if_true, refuses]
      exact checks.bind_left fun _ => Emits.shape start follows (by simp) (by simp)

private theorem Follows.of_eq {emit : Emit Unit}
    {result other : EStateM.Result Interruption (Machine β) Flow}
    (follows : Follows start place before emit result) (same : other = result) :
    Follows start place before emit other :=
  same ▸ follows

private theorem comparison_follows (mode : Comparison) (form : Form) (linking likely : Bool) :
    Follows start place before (branch mode (form = .branchTwo) linking likely)
      (.ok (.branch (place.entry.inst.branchTarget place.entry.pc)
        (mode.holds (before.guest.cpu.readGpr place.entry.inst.rs)
          (if form = .branchTwo then before.guest.cpu.readGpr place.entry.inst.rt else 0)) likely)
        (linked place linking 31 before.guest)) := by
  have follows : Follows start place before (branch mode (form = .branchTwo) linking likely) _ :=
    branch_follows mode (form = .branchTwo) linking likely
  simp only [decide_eq_true_eq] at follows
  exact follows

/-! ## Decoded instructions -/

/-- Only a trap has the form of an immediate trap. -/
private def TrapsAlone : Decoded → Prop
  | .operation _ (.trapImmediate _) operation => ∃ mode, operation = .trap mode
  | _ => True

private theorem decode_trapsAlone (inst : Instruction) : TrapsAlone inst.decode := by
  have special (funct : Nat) : TrapsAlone (Instruction.special funct) := by
    unfold Instruction.special
    split <;> trivial
  have selected (rt : Nat) : TrapsAlone (Instruction.selected rt) := by
    unfold Instruction.selected
    split <;> first | trivial | exact ⟨_, rfl⟩
  have controlMove (rs : Nat) : TrapsAlone (Instruction.controlMove rs) := by
    unfold Instruction.controlMove
    split <;> trivial
  have controlFunction (funct : Nat) : TrapsAlone (Instruction.controlFunction funct) := by
    unfold Instruction.controlFunction
    split <;> trivial
  have floatBranch (kind : Nat) : TrapsAlone (Instruction.floatBranch kind) := by
    unfold Instruction.floatBranch
    split <;> trivial
  have floatFunction (funct : Nat) : TrapsAlone (Instruction.floatFunction funct) := by
    unfold Instruction.floatFunction
    split
    case h_21 => split <;> trivial
    all_goals trivial
  have float : TrapsAlone (Instruction.float inst) := by
    unfold Instruction.float
    split <;> first | trivial | exact floatBranch _ | exact floatFunction _
  unfold Instruction.decode
  split <;> first | trivial | exact special _ | exact selected _ | exact float | skip
  split
  · exact controlMove _
  · exact controlFunction _

theorem legal_trapsAlone {inst : Instruction} {pc : DoubleWord} {form : Form}
    {operation : Operation} (legal : inst.legal pc = .ok (form, operation)) :
    ∀ signed, form = .trapImmediate signed → ∃ mode, operation = .trap mode := by
  rintro signed rfl
  have alone := decode_trapsAlone inst
  unfold Instruction.legal at legal
  split at legal
  · rename_i decoded
    cases legal
    rw [decoded] at alone
    exact alone
  all_goals cases legal

private theorem legally_ok {α τ : Type} {said : Except IllegalInstruction α} {emit : α → Emit τ}
    {progress next : Progress} {result : τ}
    (emitted : (legally said >>= emit) place progress = .ok result next) :
    ∃ value, said = .ok value := by
  cases said with
  | ok value => exact ⟨value, rfl⟩
  | error reason => cases emitted

/-- What was emitted for has legal formats. -/
theorem emitInstruction_formatsLegal {progress next : Progress} {result : Unit}
    (emitted : emitInstruction place progress = .ok result next) :
    place.entry.inst.FormatsLegal place.entry.pc place.entry.operation := by
  obtain ⟨configuration, ⟨pc, physical, inst, form, operation, category, delaySlot⟩, index⟩ := place
  cases operation with
  | floatArithmetic op =>
      have emitted : (checkFloatUsable >>= fun _ => floatArithmetic op) _ progress = _ := emitted
      obtain ⟨_, _, -, emitted⟩ := Emits.bind_ok emitted
      exact legally_ok emitted
  | floatUnary op =>
      have emitted : (checkFloatUsable >>= fun _ => floatUnary op) _ progress = _ := emitted
      obtain ⟨_, _, -, emitted⟩ := Emits.bind_ok emitted
      exact legally_ok emitted
  | floatMove =>
      have emitted : (checkFloatUsable >>= fun _ => floatMove) _ progress = _ := emitted
      obtain ⟨_, _, -, emitted⟩ := Emits.bind_ok emitted
      exact legally_ok emitted
  | floatConvert target mode =>
      have emitted : (checkFloatUsable >>= fun _ => floatConvert target mode) _ progress = _ :=
        emitted
      obtain ⟨_, _, -, emitted⟩ := Emits.bind_ok emitted
      obtain ⟨_, _, looked, emitted⟩ := Emits.bind_ok emitted
      cases looked
      exact legally_ok emitted
  | floatCompare =>
      have emitted : (checkFloatUsable >>= fun _ => floatCompare) _ progress = _ := emitted
      obtain ⟨_, _, -, emitted⟩ := Emits.bind_ok emitted
      exact legally_ok emitted
  | _ => trivial

/-! ## The instruction -/

theorem emitInstruction_follows [LawfulBus β]
    (plain : ∀ signed, place.entry.form = .trapImmediate signed →
      ∃ mode, place.entry.operation = .trap mode)
    (full : before.guest.cpu.control.fullFloatRegisters = place.configuration.fullFloatRegisters) :
    Follows start place before emitInstruction
      (Interpreter.perform place.entry.inst place.entry.pc place.entry.form place.entry.operation
        before.guest) := by
  obtain ⟨configuration, ⟨pc, physical, inst, form, operation, category, delaySlot⟩, index⟩ := place
  cases operation with
  | nop => exact Emits.read ((Emits.pure ()).follows_next rfl rfl)
  | cacheControl => exact Emits.read ((Emits.pure ()).follows_next rfl rfl)
  | jump => exact Emits.read (jump_follows false)
  | jumpLink => exact Emits.read (jump_follows true)
  | jumpRegister => exact Emits.read (jumpRegister_follows false)
  | jumpRegisterLink => exact Emits.read (jumpRegister_follows true)
  | branch mode => exact Emits.read (comparison_follows mode form false false)
  | branchLikely mode => exact Emits.read (comparison_follows mode form false true)
  | branchLink mode => exact Emits.read (comparison_follows mode form true false)
  | branchLinkLikely mode => exact Emits.read (comparison_follows mode form true true)
  | branchFloat onTrue likely =>
      exact Emits.read (guarded_follows rfl (branchFloat_follows onTrue likely))
  | addTrapWord =>
      exact Emits.read (arithmetic_follows (binary_computes .addTrapWord) (by simpa using plain))
  | addTrapDouble =>
      exact Emits.read (arithmetic_follows (binary_computes .addTrapDouble) (by simpa using plain))
  | subTrapWord =>
      exact Emits.read (arithmetic_follows (binary_computes .subTrapWord) (by simpa using plain))
  | subTrapDouble =>
      exact Emits.read (arithmetic_follows (binary_computes .subTrapDouble) (by simpa using plain))
  | addWord =>
      exact Emits.read (arithmetic_follows (wordResult_computes rfl fun _ _ => rfl)
        (by simpa using plain))
  | addDouble =>
      exact Emits.read (arithmetic_follows (binary_computes .add) (by simpa using plain))
  | subWord =>
      exact Emits.read (arithmetic_follows (wordResult_computes rfl fun _ _ => rfl)
        (by simpa using plain))
  | subDouble =>
      exact Emits.read (arithmetic_follows (binary_computes .sub) (by simpa using plain))
  | setLess =>
      exact Emits.read (arithmetic_follows (check_computes .lt) (by simpa using plain))
  | setLessUnsigned =>
      exact Emits.read (arithmetic_follows (check_computes .ltU) (by simpa using plain))
  | and => exact Emits.read (arithmetic_follows (binary_computes .and) (by simpa using plain))
  | or => exact Emits.read (arithmetic_follows (binary_computes .or) (by simpa using plain))
  | xor => exact Emits.read (arithmetic_follows (binary_computes .xor) (by simpa using plain))
  | nor => exact Emits.read (arithmetic_follows nor_computes (by simpa using plain))
  | insertUpper => exact Emits.read insertUpper_follows
  | shift op width => exact Emits.read (shift_follows _ op width)
  | mulDiv op => exact Emits.read (mulDiv_follows op)
  | moveFromProduct source => cases source <;> exact Emits.read (moveFromProduct_follows _)
  | moveToProduct target => cases target <;> exact Emits.read (moveToProduct_follows _)
  | memory size =>
      exact Follows.of_eq (Emits.read (loadStore_follows form size true)) (perform_memory true _)
  | memoryUnsigned size =>
      exact Follows.of_eq (Emits.read (loadStore_follows form size false)) (perform_memory false _)
  | memoryLeft size =>
      exact Emits.read (loadStorePart_follows form rfl (by simp) (by simp) (fun _ _ => rfl)
        fun _ _ => rfl)
  | memoryRight size =>
      exact Emits.read (loadStorePart_follows form rfl (by simp) (by simp) (fun _ _ => rfl)
        fun _ _ => rfl)
  | memoryLinked size =>
      exact Follows.of_eq (Emits.read (loadStoreLinked_follows form size)) (perform_memoryLinked _)
  | trap mode => exact Emits.read (trap_follows form mode)
  | systemCall => exact Emits.read (raise_follows .syscall)
  | breakpoint => exact Emits.read (raise_follows .breakpoint)
  | moveFromControl double => exact Emits.read (moveFromControl_follows double)
  | moveToControl double => exact Emits.read (moveToControl_follows double)
  | tlbRead => exact Emits.read (callPlain_follows rfl (by simp))
  | tlbWriteIndexed => exact Emits.read (callPlain_follows rfl (by simp))
  | tlbWriteRandom => exact Emits.read (callPlain_follows rfl (by simp))
  | tlbProbe => exact Emits.read (callPlain_follows rfl (by simp))
  | exceptionReturn => exact Emits.read exceptionReturn_follows
  | moveFromFloat double =>
      exact Emits.read (guarded_follows rfl (moveFromFloat_follows full double))
  | moveToFloat double => exact Emits.read (guarded_follows rfl (moveToFloat_follows full double))
  | moveFromFloatControl => exact Emits.read (guarded_follows rfl moveFromFloatControl_follows)
  | moveToFloatControl => exact Emits.read (guarded_follows rfl moveToFloatControl_follows)
  | floatMemory size =>
      exact Emits.read (guarded_follows rfl (loadStoreFloat_follows full form size))
  | floatArithmetic op => exact Emits.read (guarded_follows rfl (floatArithmetic_follows full op))
  | floatUnary op => exact Emits.read (guarded_follows rfl (floatUnary_follows full op))
  | floatMove => exact Emits.read (guarded_follows rfl (floatMove_follows full))
  | floatConvert target mode =>
      exact Emits.read (guarded_follows rfl (floatConvert_follows full target mode))
  | floatCompare => exact Emits.read (guarded_follows rfl (floatCompare_follows full))

end MipsRecompiler.Emission
