import MipsRecompiler.Emission.Branch
import MipsRecompiler.Interpreter.Execute
import MipsRecompiler.Proofs.Emission.Actions

/-!
# Following the interpreter

What is emitted for an instruction follows the interpreter if it comes to the guest that the
interpreter comes to, says where that goes on, and leaves the block where it takes an exception or
skips a delay slot.
-/

set_option autoImplicit false

namespace MipsRecompiler.Emission

open Ir
open Interpreter (Flow Interruption)

variable {β : Type}

/-- Where the guest continues at the end of the block, if the instruction says it. -/
def exitOf (pc : DoubleWord) (exit : Option DoubleWord) : Flow → Option DoubleWord
  | .next => exit
  | .jump target => some target
  | .branch target taken _ => some (if taken then target else pc + 8)

/-- The stage behind an instruction. Nothing is known about values any more. -/
def Stage.behind (stage : Stage β) (pc : DoubleWord) :
    EStateM.Result Interruption (Machine β) Flow → Stage β
  | .ok flow guest => { guest, known := [], targets := [], exit := exitOf pc stage.exit flow }
  | .error _ guest => { guest, known := [], targets := [], exit := stage.exit }

/-- How an instruction leaves the block: by an exception, or because it skips a delay slot. -/
def Place.leaving (place : Place) :
    EStateM.Result Interruption (Machine β) Flow → Option (BitVec 32 × Machine β)
  | .ok (.branch _ false true) guest =>
    some (BitVec.ofNat 32 (place.index + 1),
      guest.mapCpu fun cpu => { cpu with pc := place.entry.pc + 8 })
  | .ok _ _ => none
  | .error (.exception cause) guest => some (place.raises cause guest)
  | .error (.illegal _) _ => none

def Follows [Bus β] (start : Machine β) (place : Place) (before : Stage β) (emit : Emit Unit)
    (result : EStateM.Result Interruption (Machine β) Flow) : Prop :=
  Emits start place before emit (fun _ => before.behind place.entry.pc result)
    (place.leaving result)

section Behind

variable (stage : Stage β) (pc : DoubleWord)
  (result : EStateM.Result Interruption (Machine β) Flow)

@[simp] theorem behind_known : (stage.behind pc result).known = [] := by
  cases result <;> rfl

@[simp] theorem behind_targets : (stage.behind pc result).targets = [] := by
  cases result <;> rfl

end Behind

variable [Bus β] {start : Machine β} {place : Place} {before : Stage β}

theorem Emits.follows {emit : Emit Unit} {after : Unit → Stage β}
    {leaves : Option (BitVec 32 × Machine β)}
    {result : EStateM.Result Interruption (Machine β) Flow} {earlier : Stage β}
    (emits : Emits start place before emit after leaves)
    (same : place.leaving result = leaves)
    (stage : leaves = none →
      (earlier.behind place.entry.pc result).guest = (after ()).guest ∧
        (earlier.behind place.entry.pc result).exit = (after ()).exit) :
    Emits start place before emit (fun _ => earlier.behind place.entry.pc result)
      (place.leaving result) :=
  emits.conclude same (fun stays _ => stage stays) (by simp) (by simp)

theorem Emits.follows_next {emit : Emit Unit} {after : Unit → Stage β} {guest : Machine β}
    {earlier : Stage β} (emits : Emits start place before emit after none)
    (same : guest = (after ()).guest) (exit : earlier.exit = (after ()).exit) :
    Emits start place before emit
      (fun _ => earlier.behind place.entry.pc (.ok .next guest))
      (place.leaving (.ok .next guest)) :=
  emits.follows rfl fun _ => ⟨same, exit⟩

/-! ## Jumps and branches -/

theorem Emits.link (reg : RegisterNumber) :
    Emits start place before (Emission.link reg)
      (fun _ => before.changeCpu (·.writeGpr reg (place.entry.pc + 8))) none := by
  refine read ?_
  refine (number (place.entry.pc + 8)).bind fun target => ?_
  refine (setGpr List.mem_cons_self).weaken fun _ => ?_
  exact ⟨rfl, rfl, List.subset_cons_self _ _, fun _ => id⟩

/-- The guest behind a jump or branch, which may leave its return address in a register. -/
def linked (place : Place) (linking : Bool) (reg : RegisterNumber) (guest : Machine β) :
    Machine β :=
  if linking then guest.mapCpu (·.writeGpr reg (place.entry.pc + 8)) else guest

private theorem linkIf {emit : Emit Unit} {after : Unit → Stage β}
    {leaves : Option (BitVec 32 × Machine β)} (linking : Bool) (reg : RegisterNumber)
    (emits : Emits start place (before.withGuest (linked place linking reg before.guest)) emit
      after leaves) :
    Emits start place before (do
      if linking then Emission.link reg
      emit) after leaves := by
  cases linking with
  | false => exact emits
  | true => exact (Emits.link reg).bind fun _ => emits

theorem jump_follows (linking : Bool) :
    Follows start place before (jump linking)
      (.ok (.branch (place.entry.inst.jumpTarget place.entry.pc) true false)
        (linked place linking 31 before.guest)) := by
  refine Emits.read ?_
  refine (Emits.number _).bind fun target => ?_
  refine linkIf linking 31 ?_
  refine (Emits.setExitPc List.mem_cons_self).follows rfl fun _ => ⟨rfl, rfl⟩

theorem jumpRegister_follows (linking : Bool) :
    Follows start place before (jumpRegister linking)
      (.ok (.branch (before.guest.cpu.readGpr place.entry.inst.rs) true false)
        (linked place linking place.entry.inst.rd before.guest)) := by
  refine Emits.theInstruction ?_
  refine (Emits.gpr _).bind fun target => ?_
  refine linkIf linking _ ?_
  refine (Emits.setExitPc List.mem_cons_self).follows rfl fun _ => ⟨rfl, rfl⟩

/-- The branch itself, when its condition is known and its link written. -/
theorem branchIf_follows {condition : ValueId} {taken holds likely : Bool} {earlier : Stage β}
    (known : (condition, if holds then 1 else 0) ∈ before.known) (same : holds = taken) :
    Emits start place before (branchIf condition likely)
      (fun _ => earlier.behind place.entry.pc
        (.ok (.branch (place.entry.inst.branchTarget place.entry.pc) taken likely) before.guest))
      (place.leaving
        (.ok (.branch (place.entry.inst.branchTarget place.entry.pc) taken likely)
          before.guest)) := by
  subst same
  refine Emits.read ?_
  refine Emits.read ?_
  refine (Emits.number _).bind fun target => ?_
  refine (Emits.number _).bind fun behind => ?_
  refine (Emits.setExitPcIf (List.mem_cons_of_mem _ (List.mem_cons_of_mem _ known))
    (List.mem_cons_of_mem _ List.mem_cons_self) List.mem_cons_self).bind fun _ => ?_
  cases likely with
  | false =>
      refine (Emits.pure ()).follows (by cases holds <;> rfl) fun _ => ⟨rfl, ?_⟩
      cases holds <;> rfl
  | true =>
      have held := List.mem_cons_of_mem (behind, place.entry.pc + 8)
        (List.mem_cons_of_mem (target, place.entry.inst.branchTarget place.entry.pc) known)
      refine (Emits.number 1).bind fun one => ?_
      refine (Emits.binaryPlain rfl (List.mem_cons_of_mem _ held) List.mem_cons_self
        rfl).bind fun skipped => ?_
      cases holds with
      | true =>
          refine ((Emits.nullify List.mem_cons_self).congr (if_pos rfl)).bind fun _ => ?_
          exact (Emits.pure ()).follows rfl fun _ => ⟨rfl, rfl⟩
      | false =>
          refine ((Emits.nullify List.mem_cons_self).congr (if_neg (by decide))).bind_left
            fun _ => ?_
          exact Emits.shapes_pure () (by simp) (by simp)

private theorem compare_follows {mode : Comparison} {lhs rhs : ValueId} {a b : DoubleWord}
    (linking likely : Bool) (left : (lhs, a) ∈ before.known) (right : (rhs, b) ∈ before.known) :
    Follows start place before (do
        let condition ← check mode lhs rhs
        if linking then link 31
        branchIf condition likely)
      (.ok (.branch (place.entry.inst.branchTarget place.entry.pc) (mode.holds a b) likely)
        (linked place linking 31 before.guest)) := by
  refine (Emits.check left right).bind fun condition => ?_
  refine linkIf linking 31 ?_
  exact branchIf_follows List.mem_cons_self rfl

theorem branch_follows (mode : Comparison) (comparesTwo linking likely : Bool) :
    Follows start place before (branch mode comparesTwo linking likely)
      (.ok (.branch (place.entry.inst.branchTarget place.entry.pc)
        (mode.holds (before.guest.cpu.readGpr place.entry.inst.rs)
          (if comparesTwo then before.guest.cpu.readGpr place.entry.inst.rt else 0)) likely)
        (linked place linking 31 before.guest)) := by
  refine Emits.theInstruction ?_
  refine (Emits.gpr _).bind fun lhs => ?_
  cases comparesTwo with
  | true =>
      refine (Emits.gpr _).bind fun rhs => ?_
      exact compare_follows linking likely (List.mem_cons_of_mem _ List.mem_cons_self)
        List.mem_cons_self
  | false =>
      refine (Emits.number 0).bind fun rhs => ?_
      exact compare_follows linking likely (List.mem_cons_of_mem _ List.mem_cons_self)
        List.mem_cons_self

private theorem floatCondition_holds (cpu : CpuState) (onTrue : Bool) :
    (if onTrue then Comparison.ne else .eq).holds
      (cpu.fcr31.setWidth 64 &&& CpuState.floatConditionBit.setWidth 64) 0 =
      (cpu.floatCondition == onTrue) := by
  have mask : (CpuState.floatConditionBit.setWidth 64 : DoubleWord) = BitVec.twoPow 64 23 := by
    decide
  have bit : (cpu.fcr31.setWidth 64).getLsbD 23 = cpu.floatCondition := by
    simp [CpuState.floatCondition]
  rw [mask, BitVec.and_twoPow, bit]
  cases cpu.floatCondition <;> cases onTrue <;> decide

theorem branchFloat_follows (onTrue likely : Bool) :
    Follows start place before (branchFloat onTrue likely)
      (.ok (.branch (place.entry.inst.branchTarget place.entry.pc)
        (before.guest.cpu.floatCondition == onTrue) likely) before.guest) := by
  refine (Emits.loadState (by simp)).bind fun fcr31 => ?_
  refine (Emits.number _).bind fun mask => ?_
  refine (Emits.binaryPlain rfl (List.mem_cons_of_mem _ List.mem_cons_self) List.mem_cons_self
    rfl).bind fun bit => ?_
  refine (Emits.number 0).bind fun nothing => ?_
  refine (Emits.check (List.mem_cons_of_mem _ List.mem_cons_self) List.mem_cons_self).bind
    fun condition => ?_
  exact branchIf_follows List.mem_cons_self (floatCondition_holds before.guest.cpu onTrue)

end MipsRecompiler.Emission
