import MipsRecompiler.Engine.Step

/-!
# Buffers

A recompiler builds, writes and runs all blocks in the same buffers. Whoever uses a buffer empties
it first, whatever was left there, by a block that was finished or by one that was given up. An
engine with its buffers therefore does what the engine does that starts each block afresh.
-/

set_option autoImplicit false

namespace MipsRecompiler

/-- The buffers that are kept from one block to the next. -/
structure Workspace where
  progress : Emission.Progress
  code : List UInt8
  spill : Array DoubleWord

def Workspace.empty : Workspace :=
  { progress := .empty, code := [], spill := #[] }

namespace Emission.Progress

def reset (progress : Progress) : Progress where
  draft :=
    { block := { entries := progress.draft.block.entries.take 0 }
      bindings := progress.draft.bindings.map fun _ => none }
  floatChecked := false
  exitPcSet := false

def withDraft (progress : Progress) (draft : Ir.Draft) : Progress :=
  { progress with draft }

def withBlock (progress : Progress) (block : Ir.Block) : Progress :=
  progress.withDraft { progress.draft with block }

end Emission.Progress

namespace CodeUnit

/-- Emits the values of a unit in place of others. If that fails, those before the failure stay. -/
def emitIn (codeUnit : CodeUnit) (configuration : Configuration) :
    EStateM CompileError Emission.Progress Unit := do
  modify .reset
  if codeUnit.instructions.isEmpty then return
  else
    Emission.emitAll configuration codeUnit.delaySlotFault 0 codeUnit.instructions
    modify fun progress => progress.withDraft (Emission.finish codeUnit.endPc progress)

end CodeUnit

/-- Writes a block in place of other code. If something is missing, the bytes before it stay. -/
def HostCode.encodeIn (block : Ir.Block) (allocation : Allocation) (retired : BitVec 32) :
    EStateM CompileError (List UInt8) Unit := fun buffer =>
  match encode block allocation retired with
  | (written, none) => .ok () (buffer.take 0 ++ written)
  | (written, some missing) => .error missing (buffer.take 0 ++ written)

/-- Compiles a unit in buffers that were used before. The values are improved where they are. -/
def CodeUnit.compileIn (codeUnit : CodeUnit) (configuration : Configuration)
    (platform : Platform) : EStateM CompileError Workspace Compilation := fun workspace =>
  match codeUnit.emitIn configuration workspace.progress with
  | .error reason progress => .error reason { workspace with progress }
  | .ok () emitted =>
    let block := emitted.draft.block.optimize.2
    let progress := emitted.withBlock block
    match Allocation.ofBlock block platform with
    | .error reason => .error reason { workspace with progress }
    | .ok allocation =>
      match HostCode.encodeIn block allocation (.ofNat 32 codeUnit.length) workspace.code with
      | .error missing code => .error missing { workspace with progress, code }
      | .ok () code =>
        .ok { codeUnit, block, allocation, code } { workspace with progress, code }

namespace HostCode

/-- The frame that a block starts with, on spill slots that were used before. -/
def Frame.reuse (spill : Array DoubleWord) (slots : Nat) : Frame :=
  { ofSpillSlots 0 with spill := spill.take 0 ++ Array.replicate slots 0 }

/-- Runs a block on spill slots that were used before. They are left alone unless the code says
how many it needs. -/
def executeIn {β : Type} [Bus β] (code : List UInt8) (machine : Machine β)
    (spill : Array DoubleWord) :
    (Except CorruptBlock (BitVec 32) × Machine β) × Array DoubleWord :=
  match Program.read code with
  | .error corrupt => ((.error corrupt, machine), spill)
  | .ok program =>
    match Run.performAll program.items { frame := .reuse spill program.spillSlots, machine } with
    | .ok retired running => ((.ok retired, running.machine), running.frame.spill)
    | .error corrupt running => ((.error corrupt, running.machine), running.frame.spill)

end HostCode

structure BufferedEngine (β : Type) where
  engine : Engine β
  workspace : Workspace

namespace BufferedEngine

variable {β : Type} {α : Type}

def ofMemory (memory : β) (settings : Settings) : BufferedEngine β :=
  { engine := .ofMemory memory settings, workspace := .empty }

abbrev Run (β : Type) : Type → Type :=
  EStateM RecompilerError (BufferedEngine β)

/-- A result with buffers beside its engine. -/
def carry (workspace : Workspace) :
    EStateM.Result RecompilerError (Engine β) α → EStateM.Result RecompilerError (BufferedEngine β) α
  | .ok value engine => .ok value { engine, workspace }
  | .error reason engine => .error reason { engine, workspace }

/-- What needs no buffer. -/
def plainly (action : Engine.Run β α) : Run β α := fun buffered =>
  carry buffered.workspace (action buffered.engine)

variable [Bus β]

def compileUnit (codeUnit : CodeUnit) (configuration : Configuration) : Run β Compilation :=
  fun ⟨engine, workspace⟩ =>
    let platform := engine.recompiler.settings.platform.platform
    match codeUnit.compileIn configuration platform workspace with
    | .ok compilation workspace => .ok compilation { engine, workspace }
    | .error reason workspace => .error (.compile reason) { engine, workspace }

/-- Compiles the unit at the program counter and enters it. What is entered is in the buffer. -/
def compile (physical : Word) (configuration : Configuration) : Run β CompiledBlock := do
  plainly (modify fun engine => { engine with recompiler := engine.recompiler.forget })
  let codeUnit ← plainly (Engine.formUnit physical)
  let compilation ← compileUnit codeUnit configuration
  plainly (Engine.keep compilation configuration)

/-- The block at the program counter, compiled unless there is one for this address and
configuration. -/
def findBlock (physical : Word) : Run β CompiledBlock := do
  let engine := (← get).engine
  let configuration := Configuration.current engine.machine.cpu.control
  match engine.recompiler.directory.get? physical with
  | none => compile physical configuration
  | some block =>
    if block.configuration ≠ configuration then
      plainly (modify Engine.countMiss)
      compile physical configuration
    else if block.startPc ≠ engine.machine.cpu.pc then compile physical configuration
    else return block

def executeBlock (block : CompiledBlock) : Run β Nat := fun ⟨engine, workspace⟩ =>
  match engine.recompiler.cache.get? block.code with
  | none => .error (.corrupt ⟨0⟩) { engine, workspace }
  | some code =>
    let ((outcome, after), spill) := HostCode.executeIn code engine.watched workspace.spill
    carry { workspace with spill } (engine.settle outcome after)

/-- The step of an engine, in its buffers. -/
def step : Run β Nat := do
  let machine := (← get).engine.machine
  let pc := machine.cpu.pc
  match machine.translate pc .fetch .word with
  | .error fault =>
    let exception : ExceptionDescriptor := { cause := .ofFault fault, pc, delaySlot := false }
    plainly (modify fun engine => { engine with machine := engine.machine.raise exception })
    return 1
  | .ok physical =>
    let block ← findBlock physical
    let engine := (← get).engine
    match block.idleLoop && engine.recompiler.settings.idleLoopDetection, engine.nextEvent with
    | true, some cycles =>
      plainly (modify Engine.countSkip)
      return cycles + 1
    | _, _ => executeBlock block

end BufferedEngine

end MipsRecompiler
