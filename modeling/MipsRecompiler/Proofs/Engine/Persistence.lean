import MipsRecompiler.Proofs.Compilation
import MipsRecompiler.Proofs.Engine.Residence
import MipsRecompiler.Proofs.Engine.Stepping
import MipsRecompiler.Proofs.HostCode.Invariance

/-!
# What stays known of blocks

Blocks are entered when a unit is compiled, and dropped when a word that they came from is written.
Whatever is known of every block that can be entered, and outlives what may happen while a block is
in the directory, is known of all blocks of an engine after any actions.
-/

set_option autoImplicit false

namespace MipsRecompiler

open BlockDirectory (pageOf wordOf)

variable {β : Type} [Bus β] {known : BlockDirectory → β → Word → CompiledBlock → List UInt8 → Prop}

/-- What is known of a block and its code outlives reads, other blocks, and all writes that leave
the block in the directory. -/
structure Persistent
    (known : BlockDirectory → β → Word → CompiledBlock → List UInt8 → Prop) : Prop where
  insert : ∀ {directory bus physical block code} start entered words,
    known directory bus physical block code →
      known (directory.insert start entered words) bus physical block code
  read : ∀ {directory bus physical block code} place size,
    known directory bus physical block code →
      known directory (Bus.read bus place size).2 physical block code
  write : ∀ {directory bus physical block code} place size value,
    known directory bus physical block code →
      (directory.invalidate place).2.get? physical = some block →
        known (directory.invalidate place).2 (Bus.write bus place size value) physical block code
  invalidate : ∀ {directory bus physical block code} place,
    known directory bus physical block code →
      (directory.invalidate place).2.get? physical = some block →
        known (directory.invalidate place).2 bus physical block code

/-- A block stands for a unit that was formed where its first word was mapped at that time. -/
structure Compilation.Yields (β : Type) [Bus β] (compilation : Compilation) (physical : Word)
    (block : CompiledBlock) : Prop where
  startPc : block.startPc = compilation.codeUnit.startPc
  lies : pageOf compilation.codeUnit.startPhysical = pageOf physical ∧
    wordOf compilation.codeUnit.startPhysical = wordOf physical
  compiles : ∃ kind : PlatformKind,
    compilation.codeUnit.compile block.configuration kind.platform = .ok compilation
  forms : ∃ (tlb : Tlb) (control : SystemControl) (bus after : β),
    tlb.translate control compilation.codeUnit.startPc .fetch .word =
        .ok compilation.codeUnit.startPhysical ∧
      CodeUnit.form tlb control compilation.codeUnit.startPc compilation.codeUnit.startPhysical
        bus = .ok compilation.codeUnit after

namespace Persistent

/-- What does not depend on the directory or on memory is never lost. -/
theorem constant (known : Word → CompiledBlock → List UInt8 → Prop) :
    Persistent fun (_ : BlockDirectory) (_ : β) => known where
  insert _ _ _ knows := knows
  read _ _ knows := knows
  write _ _ _ knows _ := knows
  invalidate _ knows _ := knows

theorem reads (persistent : Persistent known) {directory : BlockDirectory} {bus after : β}
    {physical : Word} {block : CompiledBlock} {code : List UInt8} (reads : Bus.Reads bus after)
    (knows : known directory bus physical block code) :
    known directory after physical block code := by
  induction reads with
  | refl => exact knows
  | tail _ last ih =>
      obtain ⟨place, size, rfl⟩ := last
      exact persistent.read place size ih

/-- Code that runs reads, and its writes drop what they have to. -/
theorem invariant (persistent : Persistent known) (recompiler : Recompiler) :
    BusInvariant fun watched : WatchedMemory β =>
      { recompiler with directory := watched.directory }.Intact
        (known watched.directory watched.memory) where
  read _ place size intact :=
    intact.mono fun _ _ _ _ knows => persistent.read place size knows
  write watched place size value intact := by
    have dropped : { recompiler with
        directory := (watched.directory.invalidate place).2 }.Intact
          (known watched.directory watched.memory) :=
      intact.drop (fun _ _ => BlockDirectory.get?_of_invalidate) recompiler.statistics
        recompiler.last
    exact dropped.mono fun _ _ _ found knows => persistent.write place size value knows found

end Persistent

namespace Engine

def left {α : Type} : EStateM.Result RecompilerError (Engine β) α → Engine β
  | .ok _ next | .error _ next => next

def Knows (known : BlockDirectory → β → Word → CompiledBlock → List UInt8 → Prop)
    (engine : Engine β) : Prop :=
  engine.recompiler.Intact (known engine.recompiler.directory engine.machine.bus)

/-- Something is known of each block that compiling at the program counter can enter. -/
def Learns (known : BlockDirectory → β → Word → CompiledBlock → List UInt8 → Prop)
    (machine : Machine β) (physical : Word) : Prop :=
  let configuration := Configuration.current machine.cpu.control
  ∀ (codeUnit : CodeUnit) (after : β) (kind : PlatformKind) (compilation : Compilation)
    (recompiler : Recompiler) (range : CodeRange) (place : Word),
    CodeUnit.form machine.tlb machine.cpu.control machine.cpu.pc physical machine.bus =
        .ok codeUnit after →
      codeUnit.compile configuration kind.platform = .ok compilation →
        pageOf codeUnit.startPhysical = pageOf place ∧
            wordOf codeUnit.startPhysical = wordOf place →
          known (recompiler.enter compilation range configuration).2.directory after place
            (recompiler.enter compilation range configuration).1 compilation.code

variable {engine : Engine β} {physical : Word}

/-- Every block is entered for what was formed and compiled. -/
theorem yields_enter {machine : Machine β} {codeUnit : CodeUnit} {after : β} {kind : PlatformKind}
    {compilation : Compilation} (recompiler : Recompiler) (range : CodeRange) {place : Word}
    (translates : machine.translate machine.cpu.pc .fetch .word = .ok physical)
    (forms : CodeUnit.form machine.tlb machine.cpu.control machine.cpu.pc physical machine.bus =
      .ok codeUnit after)
    (compiles : codeUnit.compile (.current machine.cpu.control) kind.platform = .ok compilation)
    (lies : pageOf codeUnit.startPhysical = pageOf place ∧
      wordOf codeUnit.startPhysical = wordOf place) :
    compilation.Yields β place
      (recompiler.enter compilation range (.current machine.cpu.control)).1 := by
  obtain ⟨rfl, -⟩ := CodeUnit.compile_ok compiles
  obtain ⟨startPc, startPhysical⟩ := CodeUnit.form_starts forms
  refine ⟨rfl, lies, ⟨kind, compiles⟩, machine.tlb, machine.cpu.control, machine.bus, after, ?_⟩
  rw [startPc, startPhysical]
  exact ⟨translates, forms⟩

/-! ## Steps -/

theorem Knows.reads (knows : engine.Knows known) (persistent : Persistent known) {after : β}
    (reads : Bus.Reads engine.machine.bus after) :
    engine.recompiler.forget.Intact (known engine.recompiler.directory after) :=
  (knows.mono fun _ _ _ _ holds => persistent.reads reads holds).forget

theorem Compiles.knows {result : EStateM.Result RecompilerError (Engine β) CompiledBlock}
    (compiles : Compiles engine physical (.current engine.machine.cpu.control) result)
    (persistent : Persistent known) (learns : Learns known engine.machine physical) (knows : engine.Knows known) :
    (left result).Knows known := by
  cases compiles with
  | unformed fails => exact knows.reads persistent (CodeUnit.form_reads fails)
  | uncompiled forms => exact knows.reads persistent (CodeUnit.form_reads forms)
  | unstored _ forms => exact knows.reads persistent (CodeUnit.form_reads forms)
  | @entered codeUnit bus compilation range _ forms compiles stores =>
      have kept := knows.reads persistent (CodeUnit.form_reads forms)
      obtain ⟨same, -⟩ := CodeUnit.compile_ok compiles
      obtain ⟨base, cache, origin, inserts, rfl⟩ := Recompiler.store_ok stores
      have started : base.Intact (known base.directory bus) := by
        rcases origin with rfl | rfl
        · exact kept
        · exact engine.recompiler.forget.flush_intact
      have stored := started.insert? inserts
      refine (stored.mono fun _ _ _ _ holds => ?_).enter _ (CodeCache.insert?_holds inserts)
        fun place lies => ?_
      · exact persistent.insert _ _ _ holds
      · exact learns codeUnit bus _ compilation _ range place forms compiles (same ▸ lies)

theorem Finds.knows {result : EStateM.Result RecompilerError (Engine β) CompiledBlock}
    (finds : Finds engine physical result) (persistent : Persistent known)
    (learns : Learns known engine.machine physical) (knows : engine.Knows known) :
    (left result).Knows known := by
  cases finds with
  | there => exact knows
  | compiled compiles =>
      exact compiles.knows persistent learns (knows.drop (fun _ _ found => found) _ _)

theorem executeBlock_knows (persistent : Persistent known) (block : CompiledBlock)
    (knows : engine.Knows known) : (left (executeBlock block engine)).Knows known := by
  unfold executeBlock
  dsimp only
  cases engine.recompiler.cache.get? block.code with
  | none => exact knows
  | some code =>
      have kept := HostCode.execute_keeps (persistent.invariant engine.recompiler) code
        engine.watched knows
      dsimp only [settle]
      split <;> exact kept.drop (fun _ _ found => found) _ _

theorem Stepped.knows {result : EStateM.Result RecompilerError (Engine β) Nat}
    (stepped : Stepped engine result) (persistent : Persistent known)
    (learns : ∀ physical, engine.machine.translate engine.machine.cpu.pc .fetch .word =
      .ok physical → Learns known engine.machine physical)
    (knows : engine.Knows known) : (left result).Knows known := by
  have finds {physical : Word}
      (translates : engine.machine.translate engine.machine.cpu.pc .fetch .word = .ok physical) :
      (left (findBlock physical engine)).Knows known :=
    (findBlock_finds engine physical).knows persistent (learns physical translates) knows
  cases stepped with
  | fault => exact knows
  | unfound translates fails =>
      have kept := finds translates
      rw [fails] at kept
      exact kept
  | waited translates found =>
      have kept := finds translates
      rw [found] at kept
      exact kept.drop (fun _ _ found => found) _ _
  | executed translates found =>
      have kept := finds translates
      rw [found] at kept
      exact executeBlock_knows persistent _ kept

/-! ## Everything that can be done to an engine -/

inductive Action (β : Type) where
  | step
  /-- The processor, the table of addresses, or memory is changed from outside. -/
  | edit (change : Machine β → Machine β)
  | schedule (nextEvent : Option Nat)
  | loadState (cpu : CpuState)
  | invalidate (physical : Word)
  | flush

/-- The engine after an action. A step that fails keeps what it has done. -/
def perform (engine : Engine β) : Action β → Engine β
  | .step =>
    match step engine with
    | .ok _ next | .error _ next => next
  | .edit change => { engine with machine := change engine.machine }
  | .schedule nextEvent => { engine with nextEvent }
  | .loadState cpu => engine.loadState cpu
  | .invalidate physical => engine.invalidate physical
  | .flush => engine.flush

/-- Everything that is done outside of steps leaves what is known. -/
def Spared (known : BlockDirectory → β → Word → CompiledBlock → List UInt8 → Prop) :
    Action β → Prop
  | .edit change => ∀ machine directory physical block code,
      known directory machine.bus physical block code →
        known directory (change machine).bus physical block code
  | _ => True

section Run

variable (persistent : Persistent known)
  (learns : ∀ (machine : Machine β) physical,
    machine.translate machine.cpu.pc .fetch .word = .ok physical → Learns known machine physical)

include persistent learns

theorem perform_knows {action : Action β} (spared : Spared known action) (knows : engine.Knows known) :
    (engine.perform action).Knows known := by
  cases action with
  | step =>
      have kept := (step_stepped engine).knows persistent (learns engine.machine) knows
      rw [perform]
      cases steps : step engine with
      | ok cycles next =>
          rw [steps] at kept
          exact kept
      | error reason next =>
          rw [steps] at kept
          exact kept
  | edit change =>
      exact knows.mono fun physical block code _ holds =>
        spared engine.machine engine.recompiler.directory physical block code holds
  | schedule nextEvent => exact knows
  | loadState cpu => exact engine.recompiler.flush_intact
  | invalidate place =>
      have kept : { engine.recompiler with
          directory := (engine.recompiler.directory.invalidate place).2 }.Intact
            (known (engine.recompiler.directory.invalidate place).2 engine.machine.bus) := by
        refine (knows.drop (fun _ _ => BlockDirectory.get?_of_invalidate)
          engine.recompiler.statistics engine.recompiler.last).mono ?_
        exact fun _ _ _ found holds => persistent.invalidate place holds found
      rw [perform, Knows, Engine.invalidate, Recompiler.invalidate]
      dsimp only
      split
      · exact kept.drop (fun _ _ found => found) _ _
      · exact knows
  | flush => exact engine.recompiler.flush_intact

theorem foldl_perform_knows (actions : List (Action β))
    (spared : ∀ action ∈ actions, Spared known action) (knows : engine.Knows known) :
    (actions.foldl perform engine).Knows known := by
  induction actions generalizing engine with
  | nil => exact knows
  | cons action rest ih =>
      obtain ⟨first, later⟩ := List.forall_mem_cons.mp spared
      exact ih later (perform_knows persistent learns first knows)

end Run

/-- What does not depend on the directory or on memory stays known under any actions. -/
theorem foldl_perform_keeps {known : Word → CompiledBlock → List UInt8 → Prop}
    (learns : ∀ (machine : Machine β) physical,
      machine.translate machine.cpu.pc .fetch .word = .ok physical →
        Learns (fun _ _ => known) machine physical)
    (actions : List (Action β)) (intact : engine.recompiler.Intact known) :
    (actions.foldl perform engine).recompiler.Intact known := by
  refine foldl_perform_knows (.constant known) learns actions (fun action _ => ?_) intact
  cases action with
  | edit change => exact fun _ _ _ _ _ holds => holds
  | _ => trivial

end Engine

end MipsRecompiler
