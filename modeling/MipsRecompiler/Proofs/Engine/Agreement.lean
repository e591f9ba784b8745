import MipsRecompiler.Proofs.CodeUnit.Compiling
import MipsRecompiler.Proofs.Engine.Residence
import MipsRecompiler.Proofs.Engine.Stepping

/-!
# Whole runs agree with the interpreter

As long as no guest code is changed that blocks were compiled from, nor where it is fetched from,
every block in the directory is what would be compiled now. So each step of the engine is as many
steps of the interpreter as the cycles that it reports.
-/

set_option autoImplicit false

namespace MipsRecompiler

variable {β : Type} [Bus β]

/-- A store leaves every word that a unit was compiled from, and no other effect may change how
addresses translate. -/
def Event.Harmless (units : List CodeUnit) (event : Event β) : Prop :=
  match event.effect with
  | .store _ => ∀ codeUnit ∈ units, ∀ physical ∈ codeUnit.sourceWords,
      (Bus.fetch event.after.bus physical).1 = (Bus.fetch event.before.bus physical).1
  | .tlbRead | .tlbWrite => False
  | .control reg => reg ≠ SystemControl.entryHi

theorem Event.Harmless.spares {units : List CodeUnit} {event : Event β}
    (harmless : event.Harmless units) (confined : event.Confined) {codeUnit : CodeUnit}
    (member : codeUnit ∈ units) : event.Spares codeUnit := by
  obtain ⟨effect, before, after⟩ := event
  cases effect with
  | store size => exact harmless codeUnit member
  | tlbRead => exact harmless.elim
  | tlbWrite => exact harmless.elim
  | control reg =>
      obtain ⟨bus, tlb, space⟩ := confined
      have quiet : Machine.Quiet before after := ⟨bus, tlb, space harmless⟩
      intro address _
      exact quiet.translate address .fetch .word

/-! ## Blocks that are current -/

/-- A block was compiled from a known unit, which would be fetched now. -/
structure Translation (units : List CodeUnit) (machine : Machine β) (kind : PlatformKind)
    (block : CompiledBlock) (compilation : Compilation) : Prop where
  compiles : compilation.codeUnit.compile block.configuration kind.platform = .ok compilation
  starts : compilation.codeUnit.startPc = block.startPc
  formed : ∃ tlb control, ∃ bus : β, compilation.codeUnit.Formed tlb control bus ∧
    control.fullFloatRegisters = block.configuration.fullFloatRegisters
  known : compilation.codeUnit ∈ units
  current : compilation.codeUnit.Current machine

/-- The code of a block is that of a current translation. -/
def Translates (units : List CodeUnit) (machine : Machine β) (_ : Word) (block : CompiledBlock)
    (code : List UInt8) : Prop :=
  ∃ kind compilation, code = compilation.code ∧ Translation units machine kind block compilation

theorem Translates.mono {units more : List CodeUnit} {machine after : Machine β}
    (subset : units ⊆ more)
    (current : ∀ codeUnit ∈ units, codeUnit.Current machine → codeUnit.Current after)
    {physical : Word} {block : CompiledBlock} {code : List UInt8}
    (translates : Translates units machine physical block code) :
    Translates more after physical block code := by
  obtain ⟨kind, compilation, same, translation⟩ := translates
  exact ⟨kind, compilation, same, translation.compiles, translation.starts, translation.formed,
    subset translation.known, current _ translation.known translation.current⟩

namespace Engine

variable {engine next between : Engine β} {units : List CodeUnit} {block : CompiledBlock}
  {physical : Word}

/-- The block that the next step executes unless it waits, and the engine that has found it. -/
def upcoming? (engine : Engine β) : Option (CompiledBlock × Engine β) :=
  match engine.machine.translate engine.machine.cpu.pc .fetch .word with
  | .error _ => none
  | .ok physical =>
    match findBlock physical engine with
    | .ok block between => some (block, between)
    | .error _ _ => none

def lastUnit (engine : Engine β) : List CodeUnit :=
  engine.recompiler.last.toList.map fun entry => entry.1.codeUnit

/-- The unit that was compiled last when the next step executes a block. Over a run these are all
units that were compiled. -/
def upcomingUnit (engine : Engine β) : List CodeUnit :=
  match engine.upcoming? with
  | some (_, between) => between.lastUnit
  | none => []

/-- What the next step does to memory and to the address map. -/
def upcomingEvents (engine : Engine β) : List (Event β) :=
  match engine.upcoming? with
  | some (block, between) =>
    match between.recompiler.cache.get? block.code with
    | some code => (HostCode.events code between.watched).map (Event.viewed WatchedMemory.memory)
    | none => []
  | none => []

/-- What has to hold of an engine so that its next step agrees with the interpreter. -/
structure Ready (units : List CodeUnit) (engine : Engine β) : Prop where
  intact : engine.recompiler.Intact (Translates units engine.machine)
  zero : engine.machine.cpu.readGpr 0 = 0
  unscheduled : engine.nextEvent = none

/-- A block was found for the program counter, and nothing that the guest could notice happened. -/
structure Finding (units : List CodeUnit) (engine : Engine β) (block : CompiledBlock)
    (between : Engine β) : Prop where
  same : between.machine = engine.machine
  ready : between.Ready (between.lastUnit ++ units)
  found : ∃ physical, between.recompiler.directory.get? physical = some block
  starts : block.startPc = between.machine.cpu.pc
  configured : block.configuration = .current between.machine.cpu.control

section Lawful

variable [LawfulBus β]

theorem Compiles.finding (ready : engine.Ready units)
    (translates : engine.machine.translate engine.machine.cpu.pc .fetch .word = .ok physical)
    (compiles : Compiles engine physical (.current engine.machine.cpu.control)
      (.ok block between)) : Finding units engine block between := by
  cases compiles with
  | @entered codeUnit bus compilation range stored forms compiles stores =>
      have formed := CodeUnit.form_formed translates forms
      obtain ⟨rfl, starts, -⟩ := CodeUnit.form_ok forms
      obtain ⟨same, -⟩ := CodeUnit.compile_ok compiles
      have translation : Translation ([compilation.codeUnit] ++ units) engine.machine
          engine.recompiler.settings.platform
          (stored.enter compilation range (.current engine.machine.cpu.control)).1
          compilation := by
        rw [← same] at compiles formed
        exact ⟨compiles, rfl, ⟨_, _, _, formed, rfl⟩, List.mem_cons_self,
          formed.unwritten, formed.mapped, formed.watched⟩
      have more : engine.recompiler.Intact
          (Translates ([compilation.codeUnit] ++ units) engine.machine) :=
        ready.intact.mono fun _ _ _ _ => Translates.mono (List.subset_append_right _ _)
          fun _ _ current => current
      obtain ⟨kept, holds⟩ := more.forget.store stores
      have intact := kept.enter (.current engine.machine.cpu.control) holds
        fun _ _ => ⟨_, compilation, rfl, translation⟩
      refine ⟨rfl, ⟨intact, ready.zero, ready.unscheduled⟩, ⟨_, Recompiler.get?_enter _ _ _ _⟩,
        ?_, rfl⟩
      exact (congrArg CodeUnit.startPc same).trans starts

theorem Finds.finding (ready : engine.Ready units)
    (translates : engine.machine.translate engine.machine.cpu.pc .fetch .word = .ok physical)
    (finds : Finds engine physical (.ok block between)) :
    Finding units engine block between := by
  have more (engine : Engine β) (ready : engine.Ready units) :
      engine.recompiler.Intact (Translates (engine.lastUnit ++ units) engine.machine) :=
    ready.intact.mono fun _ _ _ _ => Translates.mono (List.subset_append_right _ _)
      fun _ _ current => current
  cases finds with
  | there found configured starts =>
      have intact := more engine ready
      exact ⟨rfl, ⟨intact, ready.zero, ready.unscheduled⟩, ⟨_, found⟩, starts, configured⟩
  | @compiled statistics _ compiles =>
      have counted : Ready units { engine with
          recompiler := { engine.recompiler with statistics } } :=
        ⟨ready.intact.drop (fun _ _ found => found) _ _, ready.zero, ready.unscheduled⟩
      obtain ⟨same, ready, found, starts, configured⟩ := compiles.finding counted translates
      exact ⟨same, ready, found, starts, configured⟩

/-! ## Steps -/

theorem Finding.executes (finding : Finding units engine block between) {cycles : Nat}
    (harmless : ∀ code, between.recompiler.cache.get? block.code = some code →
      ∀ event ∈ (HostCode.events code between.watched).map (Event.viewed WatchedMemory.memory),
        event.Harmless (between.lastUnit ++ units))
    (executes : executeBlock block between = .ok cycles next) :
    next.Ready (between.lastUnit ++ units) ∧
      Interpreter.Steps cycles ⟨engine.machine, none⟩ ⟨next.machine, none⟩ := by
  obtain ⟨same, ready, ⟨physical, found⟩, starts, configured⟩ := finding
  obtain ⟨code, holds, kind, compilation, rfl, translation⟩ :=
    ready.intact.backed physical block found
  obtain ⟨compiles, begins, ⟨tlb, control, bus, formed, full⟩, known, current⟩ := translation
  have held := holds.get? ready.intact.bounded
  have implements := formed.implements full compiles
  obtain ⟨count, after, directory, statistics, evaluates, result, fewer⟩ :=
    executeBlock_eq held implements
  cases result.symm.trans executes
  -- on its own memory the block has the events that it has on watched memory
  have viewed : HostCode.events compilation.code between.machine =
      (HostCode.events compilation.code between.watched).map
        (Event.viewed WatchedMemory.memory) := by
    rw [implements.events, implements.events]
    exact compilation.block.events_viewed WatchedMemory.view between.watched
  have spares (codeUnit : CodeUnit) (member : codeUnit ∈ between.lastUnit ++ units) :
      ∀ event ∈ HostCode.events compilation.code between.machine,
        event.Confined ∧ event.Spares codeUnit := by
    intro event occurs
    have confined : event.Confined := by
      rw [implements.events] at occurs
      exact Ir.events_confined _ _ event occurs
    rw [viewed] at occurs
    exact ⟨confined, (harmless _ held event occurs).spares confined member⟩
  have keeps (codeUnit : CodeUnit) (member : codeUnit ∈ between.lastUnit ++ units)
      (current : codeUnit.Current between.machine) : codeUnit.Current after := by
    refine Ir.Block.evaluate_ends (fun _ _ quiet there => there.quiet quiet) ?_ current evaluates
    intro event occurs there
    rw [← implements.events] at occurs
    obtain ⟨confined, spared⟩ := spares codeUnit member event occurs
    exact there.spared confined spared
  obtain ⟨retired, final, runs, -, steps⟩ := formed.executes compiles ready.zero
    (starts.symm.trans begins.symm) (congrArg Configuration.fullFloatRegisters configured).symm
    current fun event occurs => (spares _ known event occurs).2
  obtain ⟨_, _, agrees, executed⟩ := implements.executes between.machine
  cases evaluates.symm.trans agrees
  cases runs.symm.trans executed
  rw [same] at steps
  refine ⟨⟨?_, ?_, ready.unscheduled⟩, steps⟩
  · exact (ready.intact.drop fewer _ _).mono fun _ _ _ _ => Translates.mono (fun _ => id) keeps
  · exact (Ir.Block.evaluate_zero evaluates).trans ready.zero

/-- A step that changes no code is as many steps of the interpreter as it reports. -/
theorem Stepped.agrees {result : EStateM.Result RecompilerError (Engine β) Nat} {cycles : Nat}
    (stepped : Stepped engine result) (ready : engine.Ready units)
    (harmless : ∀ event ∈ engine.upcomingEvents, event.Harmless (engine.upcomingUnit ++ units))
    (succeeds : result = .ok cycles next) :
    next.Ready (engine.upcomingUnit ++ units) ∧
      Interpreter.Steps cycles ⟨engine.machine, none⟩ ⟨next.machine, none⟩ := by
  have found {physical : Word} {block : CompiledBlock} {between : Engine β}
      (translates : engine.machine.translate engine.machine.cpu.pc .fetch .word = .ok physical)
      (finds : findBlock physical engine = .ok block between) :
      engine.upcoming? = some (block, between) ∧ Finding units engine block between := by
    refine ⟨by simp only [upcoming?, translates, finds], ?_⟩
    have cases := findBlock_finds engine physical
    rw [finds] at cases
    exact cases.finding ready translates
  cases stepped with
  | @fault fault faults =>
      cases succeeds
      have nothing : engine.upcomingUnit = [] := by
        simp only [upcomingUnit, upcoming?, faults]
      have quiet := Machine.raise_quiet engine.machine
        { cause := .ofFault fault, pc := engine.machine.cpu.pc, delaySlot := false }
      rw [nothing]
      refine ⟨⟨ready.intact.mono fun _ _ _ _ => Translates.mono (fun _ => id) ?_, ready.zero,
        ready.unscheduled⟩, .one ?_⟩
      · intro codeUnit _ current
        exact current.quiet quiet
      · exact Interpreter.step_exception (Interpreter.fetchAndPerform_fault faults)
  | unfound translates fails => cases succeeds
  | waited translates finds scheduled =>
      obtain ⟨-, finding⟩ := found translates finds
      rw [finding.ready.unscheduled] at scheduled
      cases scheduled
  | executed translates finds =>
      obtain ⟨upcoming, finding⟩ := found translates finds
      simp only [upcomingEvents, upcomingUnit, upcoming] at harmless ⊢
      refine finding.executes ?_ succeeds
      intro code held event occurs
      rw [held] at harmless
      exact harmless event occurs

end Lawful

/-! ## Runs -/

/-- This many steps of an engine succeed and take so many cycles, and no step changes code that
has been compiled so far, or how addresses translate. Between steps blocks may be flushed. -/
inductive Undisturbed : List CodeUnit → Engine β → Nat → Nat → Engine β → Prop where
  | done {units : List CodeUnit} {engine : Engine β} : Undisturbed units engine 0 0 engine
  | step {units : List CodeUnit} {engine next last : Engine β} {steps cycles more : Nat} :
      engine.step = .ok cycles next →
      (∀ event ∈ engine.upcomingEvents, event.Harmless (engine.upcomingUnit ++ units)) →
      Undisturbed (engine.upcomingUnit ++ units) next steps more last →
      Undisturbed units engine (steps + 1) (cycles + more) last
  | flush {units : List CodeUnit} {engine last : Engine β} {steps cycles : Nat} :
      Undisturbed units engine.flush steps cycles last →
      Undisturbed units engine steps cycles last

theorem Undisturbed.agrees [LawfulBus β] {last : Engine β} {steps cycles : Nat}
    (run : Undisturbed units engine steps cycles last) (ready : engine.Ready units) :
    Interpreter.Steps cycles ⟨engine.machine, none⟩ ⟨last.machine, none⟩ := by
  induction run with
  | done => exact .none _
  | @step units engine next last steps cycles more succeeds harmless rest ih =>
      obtain ⟨later, taken⟩ := (step_stepped engine).agrees ready harmless succeeds
      exact taken.trans (ih later)
  | @flush units engine last steps cycles rest ih =>
      exact ih ⟨engine.recompiler.flush_intact, ready.zero, ready.unscheduled⟩

/-- A run from any machine with a zero register, on any platform and with a cache of any size,
agrees with the interpreter if it is undisturbed: the interpreter takes as many steps as the run
took cycles, none of which fails, and leaves the same machine. -/
theorem Undisturbed.run_eq {machine : Machine Ram} {settings : Settings} {last : Engine Ram}
    {steps cycles : Nat} (zero : machine.cpu.readGpr 0 = 0)
    (run : Undisturbed [] { machine, recompiler := .ofSettings settings, nextEvent := none }
      steps cycles last) :
    Interpreter.run none cycles {} ⟨machine, none⟩ =
      ({ steps := cycles }, ⟨last.machine, none⟩) := by
  have steps := run.agrees ⟨Recompiler.ofSettings_intact settings, zero, rfl⟩
  rw [steps.run, Nat.zero_add]

instance (units : List CodeUnit) (event : Event β) : Decidable (event.Harmless units) :=
  match event with
  | ⟨.store size, before, after⟩ =>
    List.decidableBAll (fun codeUnit => Event.Spares ⟨.store size, before, after⟩ codeUnit) units
  | ⟨.tlbRead, _, _⟩ | ⟨.tlbWrite, _, _⟩ => inferInstanceAs (Decidable False)
  | ⟨.control reg, _, _⟩ => inferInstanceAs (Decidable (reg ≠ SystemControl.entryHi))

/-- The cycles of so many steps, and the engine behind them, if they are undisturbed. -/
def undisturbed? (units : List CodeUnit) : Nat → Engine β → Option (Nat × Engine β)
  | 0, engine => some (0, engine)
  | steps + 1, engine =>
    match engine.step with
    | .error _ _ => none
    | .ok cycles next =>
      if ∀ event ∈ engine.upcomingEvents, event.Harmless (engine.upcomingUnit ++ units) then
        (undisturbed? (engine.upcomingUnit ++ units) steps next).map fun (more, last) =>
          (cycles + more, last)
      else none

theorem undisturbed_of_some {engine last : Engine β} {steps cycles : Nat}
    (computes : undisturbed? units steps engine = some (cycles, last)) :
    Undisturbed units engine steps cycles last := by
  induction steps generalizing units engine cycles with
  | zero =>
      cases computes
      exact .done
  | succ steps ih =>
      rw [undisturbed?] at computes
      cases succeeds : engine.step with
      | error reason next => simp [succeeds] at computes
      | ok first next =>
          simp only [succeeds] at computes
          split at computes
          · rename_i harmless
            obtain ⟨⟨more, final⟩, rest, pair⟩ := Option.map_eq_some_iff.mp computes
            cases pair
            exact .step succeeds harmless (ih rest)
          · cases computes

def loopingGuest : Machine Ram :=
  { cpu := { CpuState.reset with pc := 0xffffffff80000000 }
    tlb := .reset
    bus := (((Ram.ofSize 128).write 0 .word 0x3c098000).write 4 .word 0xad280040).write 8 .word
      0x1000fffd }

theorem loopingGuest_agrees :
    ∃ last : Engine Ram,
      Undisturbed [] ⟨loopingGuest, .ofSettings { platform := .aarch64 }, none⟩ 2 8 last ∧
      Interpreter.run none 8 {} ⟨loopingGuest, none⟩ =
        ({ steps := 8 }, ⟨last.machine, none⟩) := by
  have computes : (undisturbed? [] 2 (⟨loopingGuest, .ofSettings { platform := .aarch64 }, none⟩ :
      Engine Ram)).map Prod.fst = some 8 := by
    decide +kernel
  obtain ⟨⟨cycles, last⟩, runs, same⟩ := Option.map_eq_some_iff.mp computes
  cases same
  have run := undisturbed_of_some runs
  exact ⟨last, run, run.run_eq (by decide)⟩

end Engine

end MipsRecompiler
