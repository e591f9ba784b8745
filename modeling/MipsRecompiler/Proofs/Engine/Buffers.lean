import MipsRecompiler.Engine.Workspace

/-!
# What is in the buffers does not matter

Every use of a buffer starts with an empty one. An engine with its buffers therefore comes to what
the engine comes to without them, whatever the buffers hold.
-/

set_option autoImplicit false

namespace MipsRecompiler

/-! ## Emitting and writing -/

theorem Emission.Progress.reset_eq (progress : Progress) : progress.reset = .empty := by
  have entries : progress.draft.block.entries.take 0 = #[] := by simp
  have bindings : progress.draft.bindings.map (fun _ => (none : Option Ir.ValueId)) =
      Vector.replicate 64 none := by
    ext index bound
    simp
  rw [reset, entries, bindings]
  rfl

theorem CodeUnit.emitIn_eq (codeUnit : CodeUnit) (configuration : Configuration)
    (progress : Emission.Progress) :
    (∃ emitted, codeUnit.emitIn configuration progress = .ok () emitted ∧
      codeUnit.emit configuration = .ok emitted.draft.block) ∨
    ∃ reason left, codeUnit.emitIn configuration progress = .error reason left ∧
      codeUnit.emit configuration = .error reason := by
  unfold emitIn emit modify
  rw [bindState_ok (modifyState _ progress)]
  dsimp only
  rw [progress.reset_eq]
  split
  · exact .inl ⟨_, rfl, rfl⟩
  · cases emits : Emission.emitAll configuration codeUnit.delaySlotFault 0 codeUnit.instructions
        .empty with
    | ok value emitted =>
        rw [bindState_ok emits]
        exact .inl ⟨_, rfl, rfl⟩
    | error reason left =>
        rw [bindState_error emits]
        exact .inr ⟨reason, left, rfl, rfl⟩

/-- What an action in buffers comes to, whatever it leaves in them. -/
def Workspace.outcome {α : Type} :
    EStateM.Result CompileError Workspace α → Except CompileError α
  | .ok value _ => .ok value
  | .error reason _ => .error reason

theorem CodeUnit.compileIn_eq (codeUnit : CodeUnit) (configuration : Configuration)
    (platform : Platform) (workspace : Workspace) :
    Workspace.outcome (codeUnit.compileIn configuration platform workspace) =
      codeUnit.compile configuration platform := by
  simp only [compileIn, compile, bind, Except.bind, HostCode.encodeIn, List.take_zero,
    List.nil_append]
  obtain ⟨emitted, emits, plain⟩ | ⟨reason, left, emits, plain⟩ :=
    codeUnit.emitIn_eq configuration workspace.progress
  · simp only [emits, plain]
    cases Allocation.ofBlock emitted.draft.block.optimize.2 platform with
    | error reason => rfl
    | ok allocation =>
        dsimp only
        obtain ⟨code, missing⟩ := HostCode.encode emitted.draft.block.optimize.2 allocation
          (.ofNat 32 codeUnit.length)
        cases missing with
        | none => rfl
        | some missing => rfl
  · simp only [emits, plain]
    rfl

/-! ## Running -/

theorem HostCode.Frame.reuse_eq (spill : Array DoubleWord) : reuse spill = ofSpillSlots := by
  funext slots
  have cleared : spill.take 0 = #[] := by simp
  simp only [reuse, ofSpillSlots, cleared, Array.empty_append]

theorem HostCode.executeIn_eq {β : Type} [Bus β] (code : List UInt8) (machine : Machine β)
    (spill : Array DoubleWord) : (executeIn code machine spill).1 = execute code machine := by
  simp only [executeIn, execute, Frame.reuse_eq]
  cases Program.read code with
  | error corrupt => rfl
  | ok program =>
      dsimp only
      cases Run.performAll program.items { frame := .ofSpillSlots program.spillSlots, machine } with
      | ok retired running => rfl
      | error corrupt running => rfl

/-! ## Stepping -/

namespace BufferedEngine

variable {β α τ : Type}

def forget : EStateM.Result RecompilerError (BufferedEngine β) α →
    EStateM.Result RecompilerError (Engine β) α
  | .ok value next => .ok value next.engine
  | .error reason next => .error reason next.engine

/-- Whatever the buffers hold, the action comes to what it comes to without them. -/
def Ignores (action : Run β α) (plain : Engine.Run β α) : Prop :=
  ∀ engine workspace, forget (action ⟨engine, workspace⟩) = plain engine

theorem Ignores.bind {first : Run β α} {rest : α → Run β τ} {plain : Engine.Run β α}
    {others : α → Engine.Run β τ} (starts : Ignores first plain)
    (continues : ∀ value, Ignores (rest value) (others value)) :
    Ignores (first >>= rest) (plain >>= others) := by
  intro engine workspace
  have same := starts engine workspace
  cases runs : first ⟨engine, workspace⟩ with
  | ok value next =>
      rw [runs] at same
      rw [bindState_ok runs, bindState_ok same.symm]
      exact continues value next.engine next.workspace
  | error reason next =>
      rw [runs] at same
      rw [bindState_error runs, bindState_error same.symm]
      rfl

theorem Ignores.pure (value : α) : Ignores (pure value : Run β α) (pure value) :=
  fun _ _ => rfl

theorem carry_forget (workspace : Workspace)
    (result : EStateM.Result RecompilerError (Engine β) α) :
    forget (carry workspace result) = result := by
  cases result with
  | ok value engine => rfl
  | error reason engine => rfl

theorem plainly_ignores (action : Engine.Run β α) : Ignores (plainly action) action :=
  fun engine workspace => carry_forget workspace (action engine)

/-- Looking at the engine leads to the same, if what follows does. -/
theorem Ignores.get {rest : BufferedEngine β → Run β α} {others : Engine β → Engine.Run β α}
    (continues : ∀ engine workspace, Ignores (rest ⟨engine, workspace⟩) (others engine)) :
    Ignores (MonadState.get >>= rest) (MonadState.get >>= others) :=
  fun engine workspace => continues engine workspace engine workspace

theorem compileUnit_ignores (codeUnit : CodeUnit) (configuration : Configuration) :
    Ignores (compileUnit codeUnit configuration : Run β Compilation) (do
      let platform := (← get).recompiler.settings.platform.platform
      Engine.attempt (codeUnit.compile configuration platform)) := by
  intro engine workspace
  rw [bindState_ok (getState engine)]
  dsimp only [compileUnit]
  rw [← codeUnit.compileIn_eq configuration _ workspace]
  cases codeUnit.compileIn configuration engine.recompiler.settings.platform.platform workspace with
  | ok compilation left => rfl
  | error reason left => rfl

variable [Bus β]

theorem compile_ignores (physical : Word) (configuration : Configuration) :
    Ignores (compile physical configuration : Run β CompiledBlock)
      (Engine.compile physical configuration) := by
  refine (plainly_ignores _).bind fun _ => (plainly_ignores _).bind fun codeUnit => ?_
  have compiles : Ignores (compileUnit codeUnit configuration : Run β Compilation) _ :=
    compileUnit_ignores codeUnit configuration
  exact fun engine workspace => (compiles.bind fun _ => plainly_ignores _) engine workspace

theorem findBlock_ignores (physical : Word) :
    Ignores (findBlock physical : Run β CompiledBlock) (Engine.findBlock physical) := by
  refine Ignores.get fun engine _ => ?_
  dsimp only
  cases engine.recompiler.directory.get? physical with
  | none => exact compile_ignores physical _
  | some block =>
      dsimp only
      split
      · exact (plainly_ignores _).bind fun _ => compile_ignores physical _
      · split
        · exact compile_ignores physical _
        · exact .pure block

theorem executeBlock_ignores (block : CompiledBlock) :
    Ignores (executeBlock block : Run β Nat) (Engine.executeBlock block) := by
  intro engine workspace
  dsimp only [executeBlock, Engine.executeBlock]
  cases engine.recompiler.cache.get? block.code with
  | none => rfl
  | some code =>
      dsimp only
      rw [carry_forget, ← HostCode.executeIn_eq code engine.watched workspace.spill]

/-- The step of an engine in its buffers is the step of the engine. -/
theorem step_ignores : Ignores (step : Run β Nat) Engine.step := by
  refine Ignores.get fun engine _ => ?_
  dsimp only
  cases engine.machine.translate engine.machine.cpu.pc .fetch .word with
  | error fault => exact (plainly_ignores _).bind fun _ => .pure 1
  | ok physical =>
      refine (findBlock_ignores physical).bind fun block => Ignores.get fun between _ => ?_
      dsimp only
      cases block.idleLoop && between.recompiler.settings.idleLoopDetection with
      | false => exact executeBlock_ignores block
      | true =>
          cases between.nextEvent with
          | none => exact executeBlock_ignores block
          | some cycles => exact (plainly_ignores _).bind fun _ => .pure (cycles + 1)

end BufferedEngine

end MipsRecompiler
