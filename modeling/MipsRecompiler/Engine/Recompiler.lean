import MipsRecompiler.Engine.BlockDirectory
import MipsRecompiler.Engine.Compile
import MipsRecompiler.HostCode.Execute
import MipsRecompiler.HostCode.Listing
import MipsRecompiler.Instruction.Disassembly
import MipsRecompiler.Ir.Listing

/-!
# The recompiler

Runs a guest block by block. A block is compiled when it is first met and kept until its code is
written over, the cache is flushed, or it turns out to have been compiled for another address or
configuration.
-/

set_option autoImplicit false

namespace MipsRecompiler

structure Settings where
  /-- The number of bytes of host code that are kept. -/
  codeCacheSize : Nat := 33554432
  platform : PlatformKind := .x86_64
  /-- Whether blocks that only wait are skipped while an event is scheduled. -/
  idleLoopDetection : Bool := true
  logCompilations : Bool := false
  deriving DecidableEq, Repr, Inhabited

/-- What a recompiler has done so far. No counter comes to `2 ^ 64` in fewer than `2 ^ 53` actions
(`Engine.counters_lt`). -/
structure Statistics where
  blocksCompiled : Nat := 0
  cacheFlushes : Nat := 0
  invalidations : Nat := 0
  configurationMisses : Nat := 0
  idleLoopSkips : Nat := 0
  blocksExecuted : Nat := 0
  deriving DecidableEq, Repr, Inhabited

namespace Statistics

/-- The counters by name, in order. -/
def counters (statistics : Statistics) : List (String × Nat) :=
  [("blocks_compiled", statistics.blocksCompiled),
    ("cache_flushes", statistics.cacheFlushes),
    ("invalidations", statistics.invalidations),
    ("sysconfig_misses", statistics.configurationMisses),
    ("idle_loop_skips", statistics.idleLoopSkips),
    ("blocks_executed", statistics.blocksExecuted)]

def lines (statistics : Statistics) : List String :=
  ["DynarecStats \x7b"] ++
    (statistics.counters.map fun (name, count) =>
      "    " ++ name ++ ": " ++ toString count ++ ",") ++
    ["\x7d"]

end Statistics

inductive RecompilerError where
  | compile (reason : CompileError)
  | corrupt (reason : HostCode.CorruptBlock)
  deriving DecidableEq, Repr, Inhabited

def RecompilerError.kind : RecompilerError → String
  | compile reason => reason.kind
  | corrupt reason => reason.kind

def RecompilerError.message : RecompilerError → String
  | compile reason => reason.message
  | corrupt reason => reason.message

/-- Memory under a directory: every write drops the blocks that were compiled from it. -/
structure WatchedMemory (β : Type) where
  memory : β
  directory : BlockDirectory
  /-- How many writes dropped something. -/
  invalidations : Nat

namespace WatchedMemory

variable {β : Type} [Bus β]

instance : Bus (WatchedMemory β) where
  read watched address size :=
    let (value, memory) := Bus.read watched.memory address size
    (value, { watched with memory })
  write watched address size value :=
    let memory := Bus.write watched.memory address size value
    let (dropped, directory) := watched.directory.invalidate address
    { memory, directory
      invalidations := if dropped then watched.invalidations + 1 else watched.invalidations }

end WatchedMemory

/-- The compiled blocks of a guest, without the guest itself. -/
structure Recompiler where
  settings : Settings
  cache : CodeCache
  directory : BlockDirectory
  statistics : Statistics
  /-- The last compilation and the range of its code, unless a later one failed. -/
  last : Option (Compilation × CodeRange)

namespace Recompiler

def ofSettings (settings : Settings) : Recompiler :=
  { settings
    cache := .ofCapacity settings.codeCacheSize
    directory := .empty
    statistics := {}
    last := none }

instance : Inhabited Recompiler := ⟨ofSettings {}⟩

def forget (recompiler : Recompiler) : Recompiler :=
  { recompiler with last := none }

/-- Guest memory was written from outside. -/
def invalidate (recompiler : Recompiler) (physical : Word) : Recompiler :=
  let (dropped, directory) := recompiler.directory.invalidate physical
  let statistics := recompiler.statistics
  if dropped then
    { recompiler with
      directory
      statistics := { statistics with invalidations := statistics.invalidations + 1 } }
  else recompiler

def flush (recompiler : Recompiler) : Recompiler :=
  let statistics := recompiler.statistics
  { recompiler with
    cache := recompiler.cache.flush
    directory := .empty
    statistics := { statistics with cacheFlushes := statistics.cacheFlushes + 1 } }

/-- Puts code into the cache, after a flush if it does not fit otherwise. -/
def store (recompiler : Recompiler) (code : List UInt8) :
    Except CompileError (CodeRange × Recompiler) :=
  let tooLarge := CompileError.blockTooLarge code.length recompiler.cache.capacity
  if recompiler.cache.capacity < code.length then .error tooLarge
  else
    match recompiler.cache.insert? code with
    | some (range, cache) => .ok (range, { recompiler with cache })
    | none =>
      let flushed := recompiler.flush
      match flushed.cache.insert? code with
      | some (range, cache) => .ok (range, { flushed with cache })
      | none => .error tooLarge

/-- Enters a compilation whose code is in the cache. -/
def enter (recompiler : Recompiler) (compilation : Compilation) (range : CodeRange)
    (configuration : Configuration) : CompiledBlock × Recompiler :=
  let codeUnit := compilation.codeUnit
  let block : CompiledBlock :=
    { code := range
      startPc := codeUnit.startPc
      length := codeUnit.length
      configuration
      idleLoop := codeUnit.isIdleLoop }
  let statistics := recompiler.statistics
  (block,
    { recompiler with
      directory := recompiler.directory.insert codeUnit.startPhysical block codeUnit.sourceWords
      statistics := { statistics with blocksCompiled := statistics.blocksCompiled + 1 }
      last := some (compilation, range) })

/-- The lines that show the last compiled block: its guest instructions, its values with their
places, and its host code. -/
def dump (recompiler : Recompiler) : List String :=
  match recompiler.last with
  | none => ["no block compiled"]
  | some (compilation, range) =>
    let codeUnit := compilation.codeUnit
    let guest := codeUnit.instructions.map fun entry =>
      "  " ++ Text.hexPadded 16 entry.pc.toNat ++ "  " ++
        Text.hexPadded 8 entry.inst.word.toNat ++ "  " ++ entry.inst.disassemble entry.pc
    let fault := codeUnit.delaySlotFault.toList.map fun fault =>
      "  delay slot fetch faults: " ++ Enumeration.name fault.code
    let values := compilation.block.values.map fun (id, value) =>
      "  " ++ Text.padLeft 6 ' ' (Ir.idText id) ++ " = " ++ Text.padRight 48 value.text ++ " " ++
        (compilation.allocation.get id).text
    let host := match recompiler.cache.get? range with
      | none => ["(flushed)"]
      | some code =>
        match HostCode.listing code with
        | .ok lines => lines
        | .error corrupt => [corrupt.message]
    ["guest:"] ++ guest ++ fault ++ ["ir:"] ++ values ++ ["host:"] ++ host.map ("  " ++ ·)

end Recompiler

end MipsRecompiler
