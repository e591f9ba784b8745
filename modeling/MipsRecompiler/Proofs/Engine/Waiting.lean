import MipsRecompiler.Proofs.CodeUnit.Idle
import MipsRecompiler.Proofs.Engine.Persistence

/-!
# Skipping idle loops

A step may skip an idle loop while an event is scheduled. Nothing is lost by that: however often
the block is executed instead, the engine stays the same, but for what it counts.
-/

set_option autoImplicit false

namespace MipsRecompiler

/-- Code of an idle loop changes no machine that stands at the start of its block. -/
def CompiledBlock.Rests (_ : Word) (block : CompiledBlock) (code : List UInt8) : Prop :=
  block.idleLoop = true → ∀ {γ : Type} [Bus γ] (machine : Machine γ),
    machine.cpu.pc = block.startPc → HostCode.execute code machine = (.ok 2, machine)

namespace Engine

variable {β : Type} [Bus β] {engine between : Engine β} {physical : Word} {block : CompiledBlock}

/-! ## Every idle loop that is found rests -/

theorem learns_rests (machine : Machine β) (physical : Word) :
    Learns (fun _ _ => CompiledBlock.Rests) machine physical := by
  intro codeUnit after kind compilation recompiler range place forms compiles _ idle γ _ other stands
  obtain ⟨same, -⟩ := CodeUnit.compile_ok compiles
  obtain ⟨starts, -⟩ := CodeUnit.form_starts forms
  refine CodeUnit.idle_executes forms compiles (same ▸ idle) (stands.trans ?_)
  exact (congrArg CodeUnit.startPc same).trans starts

theorem Finds.rests {result : EStateM.Result RecompilerError (Engine β) CompiledBlock}
    (finds : Finds engine physical result)
    (intact : engine.recompiler.Intact CompiledBlock.Rests) :
    (left result).recompiler.Intact CompiledBlock.Rests :=
  finds.knows (.constant _) (learns_rests engine.machine physical) intact

theorem foldl_perform_rests (actions : List (Action β))
    (intact : engine.recompiler.Intact CompiledBlock.Rests) :
    (actions.foldl perform engine).recompiler.Intact CompiledBlock.Rests :=
  foldl_perform_keeps (fun machine physical _ => learns_rests machine physical) actions intact

/-! ## Skipping and executing -/

def countBlocks (engine : Engine β) (times : Nat) : Engine β :=
  engine.counting fun statistics =>
    { statistics with blocksExecuted := statistics.blocksExecuted + times }

/-- Executes a block a number of times. Returns the cycles that it took together. -/
def executeTimes (block : CompiledBlock) : Nat → Run β Nat
  | 0 => return 0
  | times + 1 => do
    let cycles ← executeBlock block
    let more ← executeTimes block times
    return cycles + more

theorem step_skips {cycles : Nat}
    (translates : engine.machine.translate engine.machine.cpu.pc .fetch .word = .ok physical)
    (found : findBlock physical engine = .ok block between) (idle : block.idleLoop = true)
    (detects : engine.recompiler.settings.idleLoopDetection = true)
    (scheduled : engine.nextEvent = some cycles) :
    step engine = .ok (cycles + 1) between.countSkip := by
  obtain ⟨-, -, sameEvent, sameSettings⟩ := findBlock_ok found
  unfold step modify
  rw [bindState_ok (getState engine)]
  simp only [translates]
  rw [bindState_ok found, bindState_ok (getState between)]
  simp only [idle, sameSettings, detects, sameEvent, scheduled, Bool.and_self]
  rw [bindState_ok (modifyState _ between)]
  rfl

theorem executeBlock_rests {code : List UInt8}
    (held : engine.recompiler.cache.get? block.code = some code)
    (rests : HostCode.execute code engine.watched = (.ok 2, engine.watched)) :
    executeBlock block engine = .ok 2 (engine.countBlocks 1) := by
  simp only [executeBlock, held, rests]
  rfl

theorem executeTimes_rests (intact : engine.recompiler.Intact CompiledBlock.Rests)
    (found : engine.recompiler.directory.get? physical = some block)
    (stands : engine.machine.cpu.pc = block.startPc) (idle : block.idleLoop = true)
    (times : Nat) :
    executeTimes block times engine = .ok (2 * times) (engine.countBlocks times) := by
  induction times generalizing engine with
  | zero => rfl
  | succ times ih =>
      obtain ⟨code, holds, rests⟩ := intact.backed physical block found
      have once := executeBlock_rests (holds.get? intact.bounded) (rests idle engine.watched stands)
      have counted : (engine.countBlocks 1).recompiler.Intact CompiledBlock.Rests :=
        intact.drop (fun _ _ listed => listed) _ _
      rw [executeTimes, bindState_ok once, bindState_ok (ih counted found stands)]
      simp only [countBlocks, counting, Nat.mul_succ, Nat.add_comm, Nat.add_left_comm, pure,
        EStateM.pure]

/-- Skipping an idle loop is sound. Its code leaves every machine that stands at its start as it
was, however often it runs, and counts two instructions each time. So the engine after a step that
skips such a block, and the engine after any number of executions of the block, are that in which
the block was found, but for the cycles and the counters. -/
theorem idle_skip_sound {γ : Type} [Bus γ] :
    (∀ (tlb : Tlb) (control : SystemControl) (startPc : DoubleWord) (startPhysical : Word)
        (bus after : β) (codeUnit : CodeUnit) (configuration : Configuration) (kind : PlatformKind)
        (compilation : Compilation),
      CodeUnit.form tlb control startPc startPhysical bus = .ok codeUnit after →
      codeUnit.compile configuration kind.platform = .ok compilation →
      codeUnit.isIdleLoop = true →
      ∀ (machine : Machine γ) (times : Nat), machine.cpu.pc = startPc →
        HostCode.executeTimes compilation.code times machine =
          (List.replicate times (.ok 2), machine)) ∧
    ∀ (memory : β) (settings : Settings) (actions : List (Action β)) (physical : Word)
        (block : CompiledBlock) (between : Engine β) (cycles : Nat),
      let engine := actions.foldl perform (ofMemory memory settings)
      engine.machine.translate engine.machine.cpu.pc .fetch .word = .ok physical →
      findBlock physical engine = .ok block between →
      block.idleLoop = true →
      engine.recompiler.settings.idleLoopDetection = true →
      engine.nextEvent = some cycles →
      step engine = .ok (cycles + 1) between.countSkip ∧
      ∀ times, executeTimes block times between = .ok (2 * times) (between.countBlocks times) := by
  constructor
  · intro tlb control startPc startPhysical bus after codeUnit configuration kind compilation
      forms compiles idle machine times stands
    exact HostCode.executeTimes_rests (CodeUnit.idle_executes forms compiles idle stands) times
  · intro memory settings actions physical block between cycles engine translates found idle
      detects scheduled
    refine ⟨step_skips translates found idle detects scheduled, fun times => ?_⟩
    have intact : engine.recompiler.Intact CompiledBlock.Rests :=
      foldl_perform_rests actions (Recompiler.ofSettings_intact settings)
    have kept := (findBlock_finds engine physical).rests intact
    rw [found] at kept
    obtain ⟨listed, stands, -⟩ := findBlock_ok found
    exact executeTimes_rests kept listed stands idle times

/-- A guest that waits in a jump to itself, with nothing in the delay slot. -/
def waitingMemory : Ram :=
  (Ram.ofSize 64).write 8 .word 0x08000002

def waitingRun : List (Action Ram) :=
  [.loadState { CpuState.reset with pc := 0xffffffff80000008 }, .schedule (some 5)]

def waitingEngine : Engine Ram :=
  waitingRun.foldl perform (ofMemory waitingMemory {})

private def waitingCompiles : Bool :=
  match CodeUnit.form .reset .reset 0xffffffff80000008 8 waitingMemory with
  | .error _ _ => false
  | .ok codeUnit _ =>
    match codeUnit.compile .clear PlatformKind.x86_64.platform with
    | .error _ => false
    | .ok _ => codeUnit.isIdleLoop

private def waitingFinds : Bool :=
  match findBlock 8 waitingEngine with
  | .error _ _ => false
  | .ok block _ => block.idleLoop

/-- The step takes six cycles, and executing the block a thousand times would take two thousand. -/
theorem waitingEngine_skips :
    (∃ codeUnit compilation,
      CodeUnit.form .reset .reset 0xffffffff80000008 8 waitingMemory =
        .ok codeUnit waitingMemory ∧
      codeUnit.compile .clear PlatformKind.x86_64.platform = .ok compilation ∧
      HostCode.executeTimes compilation.code 1000 waitingEngine.machine =
        (List.replicate 1000 (.ok 2), waitingEngine.machine)) ∧
    ∃ block between, findBlock 8 waitingEngine = .ok block between ∧
      step waitingEngine = .ok 6 between.countSkip ∧
      executeTimes block 1000 between = .ok 2000 (between.countBlocks 1000) := by
  constructor
  · have computes : waitingCompiles = true := by decide +kernel
    unfold waitingCompiles at computes
    cases forms : CodeUnit.form .reset .reset 0xffffffff80000008 8 waitingMemory with
    | error reason bus =>
        rw [forms] at computes
        cases computes
    | ok codeUnit bus =>
        obtain ⟨rfl, -⟩ := CodeUnit.form_ok forms
        rw [forms] at computes
        dsimp only at computes
        cases compiles : codeUnit.compile .clear PlatformKind.x86_64.platform with
        | error reason =>
            rw [compiles] at computes
            cases computes
        | ok compilation =>
            rw [compiles] at computes
            exact ⟨codeUnit, compilation, rfl, compiles, idle_skip_sound.1 _ _ _ _ _ _ _ _ _ _ forms
              compiles computes _ 1000 (by decide +kernel)⟩
  · have computes : waitingFinds = true := by decide +kernel
    unfold waitingFinds at computes
    cases found : findBlock 8 waitingEngine with
    | error reason next =>
        rw [found] at computes
        cases computes
    | ok block between =>
        rw [found] at computes
        obtain ⟨skips, executes⟩ := (idle_skip_sound (γ := Ram)).2 waitingMemory {} waitingRun 8
          block between 5 (by decide +kernel) found computes (by decide +kernel) (by decide +kernel)
        exact ⟨block, between, rfl, skips, executes 1000⟩

end Engine

end MipsRecompiler
