import MipsRecompiler.Engine.Recompiler

/-!
# Running a guest

An engine is a guest machine together with its recompiler. A step runs one block and reports the
cycles that it took, one for each guest instruction.
-/

set_option autoImplicit false

namespace MipsRecompiler

/-- A guest machine that is run by a recompiler. -/
structure Engine (β : Type) where
  machine : Machine β
  recompiler : Recompiler
  /-- The cycles until something happens that a waiting guest could notice. While it is less than
  `2 ^ 64 - 1`, a step takes less than `2 ^ 64` cycles (`Engine.step_cycles_lt`). -/
  nextEvent : Option Nat := none

namespace Engine

variable {β : Type}

/-- A guest after reset. -/
def ofMemory (memory : β) (settings : Settings) : Engine β :=
  { machine := { cpu := .reset, tlb := .reset, bus := memory }
    recompiler := .ofSettings settings }

/-- Replaces the processor state and drops every block. -/
def loadState (engine : Engine β) (cpu : CpuState) : Engine β :=
  { engine with
    machine := { engine.machine with cpu }
    recompiler := engine.recompiler.flush }

/-- Edits the processor state. Blocks stay, and check what they depend on. -/
def editState (engine : Engine β) (edit : CpuState → CpuState) : Engine β :=
  { engine with machine := engine.machine.mapCpu edit }

def invalidate (engine : Engine β) (physical : Word) : Engine β :=
  { engine with recompiler := engine.recompiler.invalidate physical }

def flush (engine : Engine β) : Engine β :=
  { engine with recompiler := engine.recompiler.flush }

def counting (engine : Engine β) (change : Statistics → Statistics) : Engine β :=
  let recompiler := engine.recompiler
  { engine with
    recompiler := { recompiler with statistics := change recompiler.statistics } }

/-- One more block was found that had been compiled under another configuration. -/
def countMiss (engine : Engine β) : Engine β :=
  engine.counting fun statistics =>
    { statistics with configurationMisses := statistics.configurationMisses + 1 }

def countSkip (engine : Engine β) : Engine β :=
  engine.counting fun statistics =>
    { statistics with idleLoopSkips := statistics.idleLoopSkips + 1 }

/-- The machine as a block sees it that is executed. -/
def watched (engine : Engine β) : Machine (WatchedMemory β) :=
  { engine.machine with
    bus :=
      { memory := engine.machine.bus
        directory := engine.recompiler.directory
        invalidations := 0 } }

/-- Takes over what the code of a block came to, and the machine that it left. -/
def settle (engine : Engine β) (outcome : Except HostCode.CorruptBlock (BitVec 32))
    (after : Machine (WatchedMemory β)) : EStateM.Result RecompilerError (Engine β) Nat :=
  let recompiler := engine.recompiler
  let statistics := recompiler.statistics
  let counted :=
    { statistics with
      invalidations := statistics.invalidations + after.bus.invalidations
      blocksExecuted :=
        if outcome.isOk then statistics.blocksExecuted + 1 else statistics.blocksExecuted }
  let next : Engine β :=
    { engine with
      machine := { after with bus := after.bus.memory }
      recompiler :=
        { recompiler with directory := after.bus.directory, statistics := counted } }
  match outcome with
  | .ok retired => .ok retired.toNat next
  | .error corrupt => .error (.corrupt corrupt) next

variable [Bus β]

/-- An action of the engine that can fail. What was done before stays done. -/
abbrev Run (β : Type) : Type → Type :=
  EStateM RecompilerError (Engine β)

def attempt {α : Type} (result : Except CompileError α) : Run β α :=
  match result with
  | .ok value => return value
  | .error reason => throw (.compile reason)

def formUnit (physical : Word) : Run β CodeUnit := fun engine =>
  let machine := engine.machine
  match CodeUnit.form machine.tlb machine.cpu.control machine.cpu.pc physical machine.bus with
  | .ok codeUnit bus => .ok codeUnit { engine with machine := { machine with bus } }
  | .error reason bus =>
    .error (.compile reason) { engine with machine := { machine with bus } }

/-- Puts a compilation into the cache and enters it. -/
def keep (compilation : Compilation) (configuration : Configuration) : Run β CompiledBlock := do
  let (range, stored) ← attempt ((← get).recompiler.store compilation.code)
  let (block, entered) := stored.enter compilation range configuration
  modify fun engine => { engine with recompiler := entered }
  return block

def compile (physical : Word) (configuration : Configuration) : Run β CompiledBlock := do
  modify fun engine => { engine with recompiler := engine.recompiler.forget }
  let codeUnit ← formUnit physical
  let platform := (← get).recompiler.settings.platform.platform
  let compilation ← attempt (codeUnit.compile configuration platform)
  keep compilation configuration

/-- The block at the program counter, compiled unless there is one for this address and
configuration. -/
def findBlock (physical : Word) : Run β CompiledBlock := do
  let engine ← get
  let configuration := Configuration.current engine.machine.cpu.control
  match engine.recompiler.directory.get? physical with
  | none => compile physical configuration
  | some block =>
    if block.configuration ≠ configuration then
      modify countMiss
      compile physical configuration
    else if block.startPc ≠ engine.machine.cpu.pc then compile physical configuration
    else return block

/-- Runs a block. Its writes drop the blocks that they overwrite, also itself. -/
def executeBlock (block : CompiledBlock) : Run β Nat := fun engine =>
  match engine.recompiler.cache.get? block.code with
  | none => .error (.corrupt ⟨0⟩) engine
  | some code =>
    let (outcome, after) := HostCode.execute code engine.watched
    engine.settle outcome after

/-- Runs one block, takes one exception because there is nothing to fetch, or skips a block that
only waits. Returns the cycles that it took. -/
def step : Run β Nat := do
  let machine := (← get).machine
  let pc := machine.cpu.pc
  match machine.translate pc .fetch .word with
  | .error fault =>
    let exception : ExceptionDescriptor := { cause := .ofFault fault, pc, delaySlot := false }
    modify fun engine => { engine with machine := engine.machine.raise exception }
    return 1
  | .ok physical =>
    let block ← findBlock physical
    let engine ← get
    match block.idleLoop && engine.recompiler.settings.idleLoopDetection, engine.nextEvent with
    | true, some cycles =>
      modify countSkip
      return cycles + 1
    | _, _ => executeBlock block

structure RunSummary where
  steps : Nat := 0
  /-- The cycles of all steps. The counter has 64 bits and wraps. -/
  cycles : DoubleWord := 0
  /-- Why the step behind the last one failed, if it did. -/
  failure : Option RecompilerError := none
  deriving DecidableEq, Repr, Inhabited

/-- Runs at most this many steps, and stops before one at the address `stop`. -/
def run (stop : Option DoubleWord) : Nat → RunSummary → Engine β → RunSummary × Engine β
  | 0, summary, engine => (summary, engine)
  | limit + 1, summary, engine =>
    if stop = some engine.machine.cpu.pc then (summary, engine)
    else
      match step engine with
      | .error reason next => ({ summary with failure := some reason }, next)
      | .ok cycles next =>
        run stop limit
          { summary with
            steps := summary.steps + 1
            cycles := summary.cycles + BitVec.ofNat 64 cycles }
          next

end Engine

end MipsRecompiler
