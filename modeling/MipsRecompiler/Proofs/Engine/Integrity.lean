import MipsRecompiler.Proofs.CodeUnit.Compiling
import MipsRecompiler.Proofs.Engine.Persistence

/-!
# No step fails for a reason of its own

Whatever is done to an engine, the cache holds the code of every block in the directory, and that
code runs to its end. So a step fails only where the guest gives it a reason to: at an instruction
that is reserved or out of place, or at a block that has no room.
-/

set_option autoImplicit false

namespace MipsRecompiler

def RecompilerError.isInternal : RecompilerError → Bool
  | .corrupt _ => true
  | .compile (.unallocated _) | .compile (.missingExitSite _) | .compile (.internal _ _) => true
  | .compile _ => false

/-- Code that runs to its end on every machine. -/
def CompiledBlock.Runs (_ : Word) (_ : CompiledBlock) (code : List UInt8) : Prop :=
  ∃ block retired, HostCode.Implements code block retired

/-! ## Steps -/

namespace Engine

variable {β : Type} [Bus β] {engine : Engine β}

/-- A result that leaves the recompiler intact, and has no internal cause if it is a failure. -/
def Safe {α : Type} (holds : α → Engine β → Prop) :
    EStateM.Result RecompilerError (Engine β) α → Prop
  | .ok value next => next.recompiler.Intact CompiledBlock.Runs ∧ holds value next
  | .error reason next => next.recompiler.Intact CompiledBlock.Runs ∧ reason.isInternal = false

section Quiet

variable [QuietBus β] {physical : Word} {reason : RecompilerError} {next : Engine β}

theorem learns_runs {machine : Machine β}
    (translates : machine.translate machine.cpu.pc .fetch .word = .ok physical) :
    Learns (fun _ _ => CompiledBlock.Runs) machine physical := by
  intro codeUnit after kind compilation recompiler range place forms compiles lies
  exact ⟨_, _, (CodeUnit.form_formed translates forms).implements rfl compiles⟩

theorem Compiles.not_internal
    (compiles : Compiles engine physical (.current engine.machine.cpu.control)
      (.error reason next))
    (translates : engine.machine.translate engine.machine.cpu.pc .fetch .word = .ok physical) :
    reason.isInternal = false := by
  cases compiles with
  | unformed fails =>
      obtain ⟨-, ⟨illegal, rfl⟩ | ⟨place, rfl⟩⟩ := CodeUnit.form_error fails
      · rfl
      · rfl
  | uncompiled forms fails =>
      have formed := CodeUnit.form_formed translates forms
      rcases formed.compile_error rfl fails with ⟨illegal, rfl⟩ | ⟨slots, rfl⟩
      · rfl
      · rfl
  | unstored fails =>
      obtain ⟨size, capacity, rfl⟩ := Recompiler.store_error fails
      rfl

theorem Finds.not_internal (finds : Finds engine physical (.error reason next))
    (translates : engine.machine.translate engine.machine.cpu.pc .fetch .word = .ok physical) :
    reason.isInternal = false := by
  cases finds with
  | compiled compiles => exact compiles.not_internal translates

theorem Finds.safe {result : EStateM.Result RecompilerError (Engine β) CompiledBlock}
    (finds : Finds engine physical result) (intact : engine.recompiler.Intact CompiledBlock.Runs)
    (translates : engine.machine.translate engine.machine.cpu.pc .fetch .word = .ok physical) :
    Safe (fun block next => next.recompiler.directory.get? physical = some block) result := by
  have kept := finds.knows (.constant _) (learns_runs translates) intact
  cases result with
  | ok block next => exact ⟨kept, finds.listed⟩
  | error reason next => exact ⟨kept, finds.not_internal translates⟩

end Quiet

theorem executeBlock_safe {physical : Word} {block : CompiledBlock}
    (intact : engine.recompiler.Intact CompiledBlock.Runs)
    (found : engine.recompiler.directory.get? physical = some block) :
    Safe (fun _ _ => True) (executeBlock block engine) := by
  obtain ⟨code, holds, ir, retired, implements⟩ := intact.backed physical block found
  obtain ⟨count, after, directory, statistics, -, same, fewer⟩ :=
    executeBlock_eq (holds.get? intact.bounded) implements
  rw [same]
  exact ⟨intact.drop fewer _ _, trivial⟩

theorem step_safe [QuietBus β] (intact : engine.recompiler.Intact CompiledBlock.Runs) :
    Safe (fun _ _ => True) (step engine) := by
  have finds (physical : Word) := (findBlock_finds engine physical).safe intact
  have stepped := step_stepped engine
  generalize step engine = result at stepped
  cases stepped with
  | fault => exact ⟨intact, trivial⟩
  | unfound translates fails =>
      have safe := finds _ translates
      rw [fails] at safe
      exact safe
  | waited translates found =>
      have safe := finds _ translates
      rw [found] at safe
      exact ⟨safe.1.drop (fun _ _ found => found) _ _, trivial⟩
  | executed translates found =>
      have safe := finds _ translates
      rw [found] at safe
      exact executeBlock_safe safe.1 safe.2

theorem foldl_perform_intact [QuietBus β] (actions : List (Action β))
    (intact : engine.recompiler.Intact CompiledBlock.Runs) :
    (actions.foldl perform engine).recompiler.Intact CompiledBlock.Runs :=
  foldl_perform_keeps (fun _ _ => learns_runs) actions intact

/-- After any actions, a step does not fail for an internal reason, and the code of each block in
the directory is in the cache and runs to its end on every machine. -/
theorem step_not_internal [LawfulBus β] (memory : β) (settings : Settings)
    (actions : List (Action β)) :
    (∀ reason next, step (actions.foldl perform (ofMemory memory settings)) = .error reason next →
      reason.isInternal = false) ∧
    ∀ physical block, (actions.foldl perform
        (ofMemory memory settings)).recompiler.directory.get? physical = some block →
      ∃ code, (actions.foldl perform (ofMemory memory settings)).recompiler.cache.get? block.code =
          some code ∧
        ∀ {γ : Type} [Bus γ] (machine : Machine γ), ∃ retired after,
          HostCode.execute code machine = (.ok retired, after) := by
  have intact : (actions.foldl perform (ofMemory memory settings)).recompiler.Intact CompiledBlock.Runs :=
    foldl_perform_intact actions (Recompiler.ofSettings_intact settings)
  generalize actions.foldl perform (ofMemory memory settings) = engine at intact
  constructor
  · intro reason next fails
    have safe := step_safe intact
    rw [fails] at safe
    exact safe.2
  · intro physical block found
    obtain ⟨code, holds, ir, retired, implements⟩ := intact.backed physical block found
    refine ⟨code, holds.get? intact.bounded, fun machine => ?_⟩
    obtain ⟨count, after, -, executes⟩ := implements.executes machine
    exact ⟨count, after, executes⟩

/-- A guest that runs into an exception, whose memory is then replaced. -/
theorem edited_memory_step_not_internal :
    LawfulBus Ram ∧ ∀ reason next, step ([.step, .edit fun machine => { machine with bus := Ram.ofSize 64 },
        .schedule (some 5), .step].foldl perform (ofMemory (Ram.ofSize 256) {})) =
      .error reason next → reason.isInternal = false :=
  ⟨inferInstance, (step_not_internal (Ram.ofSize 256) {} [.step,
    .edit fun machine => { machine with bus := Ram.ofSize 64 }, .schedule (some 5), .step]).1⟩

end Engine

end MipsRecompiler
