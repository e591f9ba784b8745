import MipsRecompiler.Interpreter.Step
import MipsRecompiler.Proofs.Interpreter.Outcomes

/-!
# Steps of the interpreter

Steps that follow each other, none of which fails, and what one step is when its instruction is
known.
-/

set_option autoImplicit false

namespace MipsRecompiler.Interpreter

variable {β : Type} [Bus β]

/-- This many steps lead from one interpreter to another, and none of them fails. -/
inductive Steps : Nat → Interpreter β → Interpreter β → Prop where
  | none (interpreter : Interpreter β) : Steps 0 interpreter interpreter
  | more {count : Nat} {first second last : Interpreter β} :
      first.step = (.ok (), second) → Steps count second last → Steps (count + 1) first last

namespace Steps

variable {first second last : Interpreter β}

theorem one (steps : first.step = (.ok (), second)) : Steps 1 first second :=
  .more steps (.none second)

theorem trans {count more : Nat} (early : Steps count first second)
    (late : Steps more second last) : Steps (count + more) first last := by
  induction early with
  | none => rwa [Nat.zero_add]
  | @more count first between second steps rest ih =>
      rw [Nat.add_right_comm]
      exact .more steps (ih late)

theorem run {count : Nat} (steps : Steps count first last) (summary : RunSummary) :
    Interpreter.run Option.none count summary first =
      ({ summary with steps := summary.steps + count }, last) := by
  induction steps generalizing summary with
  | none => rfl
  | more steps rest ih =>
      rw [Interpreter.run, if_neg (by simp), steps]
      simp only [ih, Nat.add_assoc, Nat.add_comm 1]

end Steps

omit [Bus β] in
private theorem physicalOf_fetch (guest : Machine β) (pc : DoubleWord) :
    (Machine.physicalOf pc .fetch .word : Machine.Access β Word) guest =
      match guest.translate pc .fetch .word with
      | .ok physical => .ok physical guest
      | .error fault => .error fault guest := by
  simp only [Machine.physicalOf, bind, EStateM.bind, getState]
  cases guest.translate pc .fetch .word <;> rfl

/-- Executes a word as if it had been fetched from an address. -/
def executeWord (word : Word) (pc : DoubleWord) : Execution β Flow := do
  let (form, operation) ← legally (Instruction.legal ⟨word⟩ pc)
  perform ⟨word⟩ pc form operation

/-- What is fetched is executed, with the bus as the fetch leaves it. -/
theorem fetchAndPerform_fetched {guest : Machine β} {pc : DoubleWord} {physical : Word}
    (translates : guest.translate pc .fetch .word = .ok physical) :
    fetchAndPerform pc guest =
      executeWord (Bus.fetch guest.bus physical).1 pc
        { guest with bus := (Bus.fetch guest.bus physical).2 } := by
  unfold fetchAndPerform
  rw [accessing_bind, physicalOf_fetch, translates]
  simp only [bind, EStateM.bind, modifyState]
  rfl

theorem fetchAndPerform_word [QuietBus β] {guest : Machine β} {pc : DoubleWord} {physical : Word}
    (translates : guest.translate pc .fetch .word = .ok physical) :
    fetchAndPerform pc guest = executeWord (Bus.fetch guest.bus physical).1 pc guest := by
  have bus : (Bus.fetch guest.bus physical).2 = guest.bus := QuietBus.read_bus _ _ _
  rw [fetchAndPerform_fetched translates, bus]

theorem fetchAndPerform_eq [LawfulBus β] {guest : Machine β} {pc : DoubleWord} {physical : Word}
    {inst : Instruction} {form : Form} {operation : Operation}
    (translates : guest.translate pc .fetch .word = .ok physical)
    (word : (Bus.fetch guest.bus physical).1 = inst.word)
    (legal : inst.legal pc = .ok (form, operation)) :
    fetchAndPerform pc guest = perform inst pc form operation guest := by
  rw [fetchAndPerform_word translates, word, executeWord, legal]
  rfl

theorem fetchAndPerform_fault {guest : Machine β} {pc : DoubleWord} {fault : Fault}
    (faults : guest.translate pc .fetch .word = .error fault) :
    fetchAndPerform pc guest = .error (.exception (.ofFault fault)) guest := by
  unfold fetchAndPerform
  rw [accessing_bind, physicalOf_fetch, faults]

/-! ## One step -/

section Step

variable {guest after : Machine β} {delayTarget : Option DoubleWord}

theorem step_next (performs : fetchAndPerform guest.cpu.pc guest = .ok .next after) :
    step ⟨guest, delayTarget⟩ =
      (.ok (), continueAt after (delayTarget.getD (guest.cpu.pc + 4)) none) := by
  simp only [step, performs]

theorem step_jump {target : DoubleWord}
    (performs : fetchAndPerform guest.cpu.pc guest = .ok (.jump target) after) :
    step ⟨guest, delayTarget⟩ = (.ok (), continueAt after target none) := by
  simp only [step, performs]

theorem step_branch {target : DoubleWord} {taken likely : Bool}
    (performs : fetchAndPerform guest.cpu.pc guest = .ok (.branch target taken likely) after) :
    step ⟨guest, none⟩ =
      (.ok (),
        if !taken && likely then continueAt after (guest.cpu.pc + 8) none
        else continueAt after (guest.cpu.pc + 4)
          (some (if taken then target else guest.cpu.pc + 8))) := by
  simp only [step, performs]
  cases taken <;> cases likely <;> rfl

theorem step_exception {cause : ExceptionCause}
    (performs : fetchAndPerform guest.cpu.pc guest = .error (.exception cause) after) :
    step ⟨guest, delayTarget⟩ =
      (.ok (), ⟨after.raise
        { cause
          pc := if delayTarget.isSome then guest.cpu.pc - 4 else guest.cpu.pc
          delaySlot := delayTarget.isSome }, none⟩) := by
  simp only [step, performs]

theorem step_illegal {reason : IllegalInstruction}
    (performs : fetchAndPerform guest.cpu.pc guest = .error (.illegal reason) after) :
    step ⟨guest, delayTarget⟩ = (.error (.illegal reason), ⟨after, none⟩) := by
  simp only [step, performs]

/-- A step whose instruction is not refused fails only at a branch in a delay slot. -/
theorem step_completes
    (completes : Completes (fun _ _ => True) (fetchAndPerform guest.cpu.pc guest)) :
    (step ⟨guest, delayTarget⟩).1 = .ok () ∨
      delayTarget.isSome = true ∧
      (∃ target taken likely after,
        fetchAndPerform guest.cpu.pc guest = .ok (.branch target taken likely) after) ∧
      (step ⟨guest, delayTarget⟩).1 = .error (.branchInDelaySlot guest.cpu.pc) := by
  cases performs : fetchAndPerform guest.cpu.pc guest with
  | error interruption after =>
      cases interruption with
      | exception cause =>
          rw [step_exception performs]
          exact .inl rfl
      | illegal reason =>
          rw [performs] at completes
          exact completes.elim
  | ok flow after =>
      cases flow with
      | next =>
          rw [step_next performs]
          exact .inl rfl
      | jump target =>
          rw [step_jump performs]
          exact .inl rfl
      | branch target taken likely =>
          cases delayTarget with
          | none =>
              rw [step_branch performs]
              exact .inl rfl
          | some behind =>
              refine .inr ⟨rfl, ⟨target, taken, likely, after, rfl⟩, ?_⟩
              simp only [step, performs, Option.isSome_some, if_true]

end Step

end MipsRecompiler.Interpreter
