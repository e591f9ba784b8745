import MipsRecompiler.Engine.Step
import MipsRecompiler.Proofs.Compilation
import MipsRecompiler.Proofs.CodeUnit.Formation
import MipsRecompiler.Proofs.Engine.Residence
import MipsRecompiler.Proofs.HostCode.Completeness
import MipsRecompiler.Proofs.Ir.Viewing

/-!
# What a step of the engine can do

A step takes a fetch exception, fails to find or compile a block, waits, or executes a block. What
each case leaves behind is said here once.
-/

set_option autoImplicit false

namespace MipsRecompiler

variable {β : Type} [Bus β]

namespace Engine

omit [Bus β] in
theorem attempt_ok {α : Type} (value : α) (engine : Engine β) :
    attempt (.ok value) engine = .ok value engine := rfl

omit [Bus β] in
theorem attempt_error {α : Type} (reason : CompileError) (engine : Engine β) :
    (attempt (.error reason) : Run β α) engine = .error (.compile reason) engine := rfl

omit [Bus β] in
theorem keep_ok {compilation : Compilation} {engine : Engine β} {range : CodeRange}
    {stored : Recompiler} (configuration : Configuration)
    (stores : engine.recompiler.store compilation.code = .ok (range, stored)) :
    keep compilation configuration engine =
      .ok (stored.enter compilation range configuration).1
        { engine with recompiler := (stored.enter compilation range configuration).2 } := by
  unfold keep
  rw [bindState_ok (getState engine), stores, bindState_ok (attempt_ok (range, stored) engine)]
  rfl

omit [Bus β] in
theorem keep_error {compilation : Compilation} {engine : Engine β} {reason : CompileError}
    (configuration : Configuration)
    (fails : engine.recompiler.store compilation.code = .error reason) :
    keep compilation configuration engine = .error (.compile reason) engine := by
  unfold keep
  rw [bindState_ok (getState engine), fails, bindState_error (attempt_error reason engine)]

/-- The engine whose memory answered reads, and whose recompiler is another one. -/
def afterReading (engine : Engine β) (bus : β) (recompiler : Recompiler) : Engine β :=
  { engine with machine := { engine.machine with bus }, recompiler }

/-- What compiling at the program counter can come to. -/
inductive Compiles (engine : Engine β) (physical : Word) (configuration : Configuration) :
    EStateM.Result RecompilerError (Engine β) CompiledBlock → Prop where
  | unformed {reason : CompileError} {bus : β} :
      CodeUnit.form engine.machine.tlb engine.machine.cpu.control engine.machine.cpu.pc physical
        engine.machine.bus = .error reason bus →
      Compiles engine physical configuration
        (.error (.compile reason) (engine.afterReading bus engine.recompiler.forget))
  | uncompiled {codeUnit : CodeUnit} {bus : β} {reason : CompileError} :
      CodeUnit.form engine.machine.tlb engine.machine.cpu.control engine.machine.cpu.pc physical
        engine.machine.bus = .ok codeUnit bus →
      codeUnit.compile configuration engine.recompiler.settings.platform.platform =
        .error reason →
      Compiles engine physical configuration
        (.error (.compile reason) (engine.afterReading bus engine.recompiler.forget))
  | unstored {codeUnit : CodeUnit} {bus : β} {compilation : Compilation} {reason : CompileError} :
      engine.recompiler.forget.store compilation.code = .error reason →
      CodeUnit.form engine.machine.tlb engine.machine.cpu.control engine.machine.cpu.pc physical
        engine.machine.bus = .ok codeUnit bus →
      codeUnit.compile configuration engine.recompiler.settings.platform.platform =
        .ok compilation →
      Compiles engine physical configuration
        (.error (.compile reason) (engine.afterReading bus engine.recompiler.forget))
  | entered {codeUnit : CodeUnit} {bus : β} {compilation : Compilation} {range : CodeRange}
      {stored : Recompiler} :
      CodeUnit.form engine.machine.tlb engine.machine.cpu.control engine.machine.cpu.pc physical
        engine.machine.bus = .ok codeUnit bus →
      codeUnit.compile configuration engine.recompiler.settings.platform.platform =
        .ok compilation →
      engine.recompiler.forget.store compilation.code = .ok (range, stored) →
      Compiles engine physical configuration
        (.ok (stored.enter compilation range configuration).1
          (engine.afterReading bus (stored.enter compilation range configuration).2))

theorem compile_compiles (engine : Engine β) (physical : Word) (configuration : Configuration) :
    Compiles engine physical configuration (compile physical configuration engine) := by
  unfold compile modify
  rw [bindState_ok (modifyState _ _)]
  cases forms : CodeUnit.form engine.machine.tlb engine.machine.cpu.control engine.machine.cpu.pc
      physical engine.machine.bus with
  | error reason bus =>
      have collects : formUnit physical { engine with recompiler := engine.recompiler.forget } =
          .error (.compile reason) (engine.afterReading bus engine.recompiler.forget) := by
        simp only [formUnit, forms, afterReading]
      rw [bindState_error collects]
      exact .unformed forms
  | ok codeUnit bus =>
      have collects : formUnit physical { engine with recompiler := engine.recompiler.forget } =
          .ok codeUnit (engine.afterReading bus engine.recompiler.forget) := by
        simp only [formUnit, forms, afterReading]
      rw [bindState_ok collects, bindState_ok (getState _)]
      have reading : (engine.afterReading bus engine.recompiler.forget).recompiler =
          engine.recompiler.forget := rfl
      rw [reading]
      cases compiles : codeUnit.compile configuration
          engine.recompiler.forget.settings.platform.platform with
      | error reason =>
          rw [bindState_error (attempt_error reason _)]
          exact .uncompiled forms compiles
      | ok compilation =>
          rw [bindState_ok (attempt_ok compilation _)]
          cases stores : engine.recompiler.forget.store compilation.code with
          | error reason =>
              rw [keep_error configuration stores]
              exact .unstored stores forms compiles
          | ok result =>
              rw [keep_ok configuration stores]
              exact .entered forms compiles stores

theorem Compiles.listed {engine next : Engine β} {physical : Word} {block : CompiledBlock}
    {configuration : Configuration}
    (compiles : Compiles engine physical configuration (.ok block next)) :
    next.recompiler.directory.get? physical = some block := by
  cases compiles with
  | entered forms compiles stores =>
      obtain ⟨-, starts⟩ := CodeUnit.form_starts forms
      obtain ⟨same, -⟩ := CodeUnit.compile_ok compiles
      rw [← starts, ← same]
      exact Recompiler.get?_enter _ _ _ _

inductive Finds (engine : Engine β) (physical : Word) :
    EStateM.Result RecompilerError (Engine β) CompiledBlock → Prop where
  | there {block : CompiledBlock} :
      engine.recompiler.directory.get? physical = some block →
      block.configuration = .current engine.machine.cpu.control →
      block.startPc = engine.machine.cpu.pc →
      Finds engine physical (.ok block engine)
  | compiled {statistics : Statistics}
      {result : EStateM.Result RecompilerError (Engine β) CompiledBlock} :
      Compiles { engine with recompiler := { engine.recompiler with statistics } } physical
        (.current engine.machine.cpu.control) result →
      (∃ misses, statistics =
        { engine.recompiler.statistics with configurationMisses := misses }) →
      statistics.configurationMisses ≤ engine.recompiler.statistics.configurationMisses + 1 →
      Finds engine physical result

theorem findBlock_finds (engine : Engine β) (physical : Word) :
    Finds engine physical (findBlock physical engine) := by
  unfold findBlock modify
  rw [bindState_ok (getState engine)]
  cases found : engine.recompiler.directory.get? physical with
  | none => exact .compiled (compile_compiles engine physical _) ⟨_, rfl⟩ (Nat.le_succ _)
  | some block =>
      dsimp only
      split
      · rw [bindState_ok (modifyState _ engine)]
        exact .compiled (compile_compiles _ physical _) ⟨_, rfl⟩ (Nat.le_refl _)
      · rename_i configured
        split
        · exact .compiled (compile_compiles engine physical _) ⟨_, rfl⟩ (Nat.le_succ _)
        · rename_i placed
          exact .there found (Decidable.not_not.mp configured) (Decidable.not_not.mp placed)

theorem Finds.listed {engine next : Engine β} {physical : Word} {block : CompiledBlock}
    (finds : Finds engine physical (.ok block next)) :
    next.recompiler.directory.get? physical = some block := by
  cases finds with
  | there found _ _ => exact found
  | compiled compiles => exact compiles.listed

/-- A block is found for the place where the guest stands, and nothing but the recompiler and what
memory keeps of being read can have changed. -/
theorem findBlock_ok {engine between : Engine β} {physical : Word} {block : CompiledBlock}
    (found : findBlock physical engine = .ok block between) :
    between.recompiler.directory.get? physical = some block ∧
      between.machine.cpu.pc = block.startPc ∧ between.nextEvent = engine.nextEvent ∧
      between.recompiler.settings = engine.recompiler.settings := by
  have finds := findBlock_finds engine physical
  rw [found] at finds
  refine ⟨finds.listed, ?_⟩
  cases finds with
  | there _ _ starts => exact ⟨starts.symm, rfl, rfl⟩
  | compiled compiles =>
      cases compiles with
      | entered forms compiles stores =>
          obtain ⟨pc, -⟩ := CodeUnit.form_starts forms
          obtain ⟨same, -⟩ := CodeUnit.compile_ok compiles
          obtain ⟨base, cache, origin, -, rfl⟩ := Recompiler.store_ok stores
          refine ⟨((congrArg CodeUnit.startPc same).trans pc).symm, rfl, ?_⟩
          rcases origin with rfl | rfl
          · rfl
          · rfl

/-- What a step can come to. -/
inductive Stepped (engine : Engine β) :
    EStateM.Result RecompilerError (Engine β) Nat → Prop where
  | fault {fault : Fault} :
      engine.machine.translate engine.machine.cpu.pc .fetch .word = .error fault →
      Stepped engine (.ok 1 { engine with
        machine := engine.machine.raise
          { cause := .ofFault fault, pc := engine.machine.cpu.pc, delaySlot := false } })
  | unfound {physical : Word} {reason : RecompilerError} {next : Engine β} :
      engine.machine.translate engine.machine.cpu.pc .fetch .word = .ok physical →
      findBlock physical engine = .error reason next →
      Stepped engine (.error reason next)
  | waited {physical : Word} {block : CompiledBlock} {between : Engine β} {cycles : Nat}
      {statistics : Statistics} :
      engine.machine.translate engine.machine.cpu.pc .fetch .word = .ok physical →
      findBlock physical engine = .ok block between →
      between.nextEvent = some cycles →
      (∃ skips, statistics =
        { between.recompiler.statistics with idleLoopSkips := skips }) →
      statistics.idleLoopSkips = between.recompiler.statistics.idleLoopSkips + 1 →
      Stepped engine (.ok (cycles + 1)
        { between with recompiler := { between.recompiler with statistics } })
  | executed {physical : Word} {block : CompiledBlock} {between : Engine β} :
      engine.machine.translate engine.machine.cpu.pc .fetch .word = .ok physical →
      findBlock physical engine = .ok block between →
      Stepped engine (executeBlock block between)

theorem step_stepped (engine : Engine β) : Stepped engine (step engine) := by
  unfold step modify
  rw [bindState_ok (getState engine)]
  dsimp only
  cases translates : engine.machine.translate engine.machine.cpu.pc .fetch .word with
  | error fault =>
      dsimp only
      rw [bindState_ok (modifyState _ engine)]
      exact .fault translates
  | ok physical =>
      dsimp only
      cases found : findBlock physical engine with
      | error reason next =>
          rw [bindState_error found]
          exact .unfound translates found
      | ok block between =>
          rw [bindState_ok found, bindState_ok (getState between)]
          cases block.idleLoop && between.recompiler.settings.idleLoopDetection with
          | false => exact .executed translates found
          | true =>
              cases scheduled : between.nextEvent with
              | none => exact .executed translates found
              | some cycles =>
                  dsimp only
                  rw [bindState_ok (modifyState _ between)]
                  exact .waited translates found scheduled ⟨_, rfl⟩ rfl

theorem WatchedMemory.view : BusView (WatchedMemory.memory : WatchedMemory β → β) :=
  ⟨fun _ _ _ => rfl, fun _ _ _ _ => rfl⟩

theorem fewer_invariant (directory : BlockDirectory) :
    BusInvariant fun watched : WatchedMemory β => ∀ physical block,
      watched.directory.get? physical = some block →
      directory.get? physical = some block where
  read _ _ _ fewer := fewer
  write := by
    intro watched address size value fewer physical block found
    exact fewer physical block (BlockDirectory.get?_of_invalidate found)

/-- A block whose code is there does to the machine what its values do, and drops blocks. -/
theorem executeBlock_eq {engine : Engine β} {block : CompiledBlock} {code : List UInt8}
    {ir : Ir.Block} {retired : BitVec 32}
    (held : engine.recompiler.cache.get? block.code = some code)
    (implements : HostCode.Implements code ir retired) :
    ∃ count after directory statistics,
      ir.evaluate retired engine.machine = some (count, after) ∧
      executeBlock block engine = .ok count.toNat
        { engine with
          machine := after
          recompiler := { engine.recompiler with directory, statistics } } ∧
      ∀ physical found, directory.get? physical = some found →
        engine.recompiler.directory.get? physical = some found := by
  obtain ⟨count, after, evaluates, executes⟩ := implements.executes engine.watched
  have fewer := ir.evaluate_keeps (fewer_invariant engine.recompiler.directory)
    (fun _ _ found => found) evaluates
  have viewed := ir.evaluate_viewed WatchedMemory.view retired engine.watched
  rw [evaluates] at viewed
  have result : ∃ statistics, executeBlock block engine = .ok count.toNat
      { engine with
        machine := after.viewed WatchedMemory.memory
        recompiler := { engine.recompiler with directory := after.bus.directory, statistics } } := by
    simp only [executeBlock, held, executes]
    exact ⟨_, rfl⟩
  obtain ⟨statistics, same⟩ := result
  exact ⟨count, after.viewed WatchedMemory.memory, after.bus.directory, statistics, viewed, same,
    fewer⟩

end Engine

end MipsRecompiler
