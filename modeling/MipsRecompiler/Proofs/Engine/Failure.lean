import MipsRecompiler.Proofs.Engine.Buffers
import MipsRecompiler.Proofs.Engine.Integrity

/-!
# Steps that fail

A step that fails changes nothing but a counter and what would be listed of the last compilation.
Nothing else looks at these, so an engine goes on as if the step had not been made.
-/

set_option autoImplicit false

namespace MipsRecompiler

namespace Recompiler

def disguise (recompiler : Recompiler) (misses : Nat) (last : Option (Compilation × CodeRange)) :
    Recompiler :=
  { recompiler with
    statistics := { recompiler.statistics with configurationMisses := misses }
    last }

variable {recompiler : Recompiler} {misses : Nat} {last : Option (Compilation × CodeRange)}

theorem store_disguise (code : List UInt8) :
    (recompiler.disguise misses last).store code =
      (recompiler.store code).map fun (range, stored) => (range, stored.disguise misses last) := by
  have capacity : (recompiler.disguise misses last).cache.capacity = recompiler.cache.capacity :=
    rfl
  have inserts : (recompiler.disguise misses last).cache.insert? code =
      recompiler.cache.insert? code := rfl
  have flushed : (recompiler.disguise misses last).flush.cache.insert? code =
      recompiler.flush.cache.insert? code := rfl
  simp only [store, capacity, inserts, flushed]
  split
  · rfl
  · cases recompiler.cache.insert? code with
    | some stored => rfl
    | none =>
        cases recompiler.flush.cache.insert? code with
        | some stored => rfl
        | none => rfl

theorem invalidate_disguise (recompiler : Recompiler) (physical : Word) (misses : Nat)
    (last : Option (Compilation × CodeRange)) :
    (recompiler.disguise misses last).invalidate physical =
      (recompiler.invalidate physical).disguise misses last := by
  have directory : (recompiler.disguise misses last).directory = recompiler.directory := rfl
  simp only [invalidate, directory]
  obtain ⟨dropped, kept⟩ := recompiler.directory.invalidate physical
  cases dropped with
  | true => rfl
  | false => rfl

end Recompiler

namespace Engine

variable {β : Type}

def disguise (engine : Engine β) (misses : Nat) (last : Option (Compilation × CodeRange)) :
    Engine β :=
  { engine with recompiler := engine.recompiler.disguise misses last }

section Disguise

variable (engine : Engine β) (misses : Nat) (last : Option (Compilation × CodeRange))

@[simp] theorem disguise_machine : (engine.disguise misses last).machine = engine.machine := rfl

@[simp] theorem disguise_nextEvent :
    (engine.disguise misses last).nextEvent = engine.nextEvent := rfl

@[simp] theorem disguise_settings :
    (engine.disguise misses last).recompiler.settings = engine.recompiler.settings := rfl

@[simp] theorem disguise_directory :
    (engine.disguise misses last).recompiler.directory = engine.recompiler.directory := rfl

@[simp] theorem disguise_cache :
    (engine.disguise misses last).recompiler.cache = engine.recompiler.cache := rfl

end Disguise

/-- Engines that differ in nothing but these. -/
def Twins (first second : Engine β) : Prop :=
  ∃ misses last, second = first.disguise misses last

namespace Twins

variable {first second : Engine β}

theorem disguise (twins : Twins first second) (misses : Nat)
    (last : Option (Compilation × CodeRange)) :
    first.disguise misses last = second.disguise misses last := by
  obtain ⟨_, _, rfl⟩ := twins
  rfl

end Twins

def Agree {α : Type} : EStateM.Result RecompilerError (Engine β) α →
    EStateM.Result RecompilerError (Engine β) α → Prop
  | .ok value first, .ok other second => value = other ∧ Twins first second
  | .error reason first, .error other second => reason = other ∧ Twins first second
  | _, _ => False

theorem Agree.bind {α γ : Type} {first second : Engine β} {action : Run β α}
    {rest : α → Run β γ} (starts : Agree (action first) (action second))
    (continues : ∀ value one other, Twins one other →
      Agree (rest value one) (rest value other)) :
    Agree ((action >>= rest) first) ((action >>= rest) second) := by
  cases one : action first with
  | ok value next =>
      cases other : action second with
      | ok also last =>
          rw [one, other] at starts
          obtain ⟨rfl, twins⟩ := starts
          rw [bindState_ok one, bindState_ok other]
          exact continues value next last twins
      | error reason last =>
          rw [one, other] at starts
          exact starts.elim
  | error reason next =>
      cases other : action second with
      | ok value last =>
          rw [one, other] at starts
          exact starts.elim
      | error also last =>
          rw [one, other] at starts
          rw [bindState_error one, bindState_error other]
          exact starts

variable {first second : Engine β}

theorem Twins.modify {change : Engine β → Engine β}
    (keeps : ∀ engine misses last, Twins (change engine) (change (engine.disguise misses last)))
    (twins : Twins first second) :
    Agree ((modify change : Run β PUnit) first) ((modify change : Run β PUnit) second) := by
  obtain ⟨misses, last, rfl⟩ := twins
  exact ⟨rfl, keeps first misses last⟩

variable [Bus β]

theorem Twins.formUnit (twins : Twins first second) (physical : Word) :
    Agree (formUnit physical first) (formUnit physical second) := by
  obtain ⟨misses, last, rfl⟩ := twins
  simp only [Engine.formUnit, disguise_machine]
  cases CodeUnit.form first.machine.tlb first.machine.cpu.control first.machine.cpu.pc physical
      first.machine.bus with
  | ok codeUnit bus => exact ⟨rfl, _, _, rfl⟩
  | error reason bus => exact ⟨rfl, _, _, rfl⟩

theorem Twins.compile (twins : Twins first second) (physical : Word)
    (configuration : Configuration) :
    Agree (compile physical configuration first) (compile physical configuration second) := by
  unfold Engine.compile
  apply Agree.bind (twins.modify fun engine misses last => ⟨misses, none, rfl⟩)
  intro _ one other twins
  apply Agree.bind (twins.formUnit physical)
  intro codeUnit one other twins
  obtain ⟨misses, last, rfl⟩ := twins
  rw [bindState_ok (getState one), bindState_ok (getState (one.disguise misses last))]
  rw [disguise_settings]
  cases codeUnit.compile configuration one.recompiler.settings.platform.platform with
  | error reason => exact ⟨rfl, _, _, rfl⟩
  | ok compilation =>
      rw [bindState_ok (attempt_ok compilation one),
        bindState_ok (attempt_ok compilation (one.disguise misses last))]
      have disguised : (one.disguise misses last).recompiler.store compilation.code = _ :=
        Recompiler.store_disguise compilation.code
      cases stores : one.recompiler.store compilation.code with
      | error reason =>
          rw [stores] at disguised
          rw [keep_error configuration stores, keep_error configuration disguised]
          exact ⟨rfl, _, _, rfl⟩
      | ok result =>
          rw [stores] at disguised
          rw [keep_ok configuration stores, keep_ok configuration disguised]
          exact ⟨rfl, misses, some (compilation, result.1), rfl⟩

theorem Twins.findBlock (twins : Twins first second) (physical : Word) :
    Agree (findBlock physical first) (findBlock physical second) := by
  obtain ⟨misses, last, rfl⟩ := twins
  have twins : Twins first (first.disguise misses last) := ⟨misses, last, rfl⟩
  unfold Engine.findBlock
  rw [bindState_ok (getState first), bindState_ok (getState (first.disguise misses last))]
  rw [disguise_machine, disguise_directory]
  cases first.recompiler.directory.get? physical with
  | none => exact twins.compile physical _
  | some block =>
      dsimp only
      split
      · apply Agree.bind (twins.modify fun engine misses last => ⟨misses + 1, last, rfl⟩)
        intro _ one other twins
        exact twins.compile physical _
      · split
        · exact twins.compile physical _
        · exact ⟨rfl, twins⟩

omit [Bus β] in
theorem Twins.settle (twins : Twins first second)
    (outcome : Except HostCode.CorruptBlock (BitVec 32)) (after : Machine (WatchedMemory β)) :
    Agree (first.settle outcome after) (second.settle outcome after) := by
  obtain ⟨misses, last, rfl⟩ := twins
  cases outcome with
  | ok retired => exact ⟨rfl, misses, last, rfl⟩
  | error corrupt => exact ⟨rfl, misses, last, rfl⟩

theorem Twins.executeBlock (twins : Twins first second) (block : CompiledBlock) :
    Agree (executeBlock block first) (executeBlock block second) := by
  obtain ⟨misses, last, rfl⟩ := twins
  have twins : Twins first (first.disguise misses last) := ⟨misses, last, rfl⟩
  simp only [Engine.executeBlock, disguise_cache]
  cases first.recompiler.cache.get? block.code with
  | none => exact ⟨rfl, twins⟩
  | some code => exact twins.settle _ _

theorem Twins.step (twins : Twins first second) : Agree (step first) (step second) := by
  obtain ⟨misses, last, rfl⟩ := twins
  have twins : Twins first (first.disguise misses last) := ⟨misses, last, rfl⟩
  unfold Engine.step
  rw [bindState_ok (getState first), bindState_ok (getState (first.disguise misses last))]
  rw [disguise_machine]
  dsimp only
  cases first.machine.translate first.machine.cpu.pc .fetch .word with
  | error fault =>
      apply Agree.bind (twins.modify fun engine misses last => ⟨misses, last, rfl⟩)
      intro _ one other twins
      exact ⟨rfl, twins⟩
  | ok physical =>
      apply Agree.bind (twins.findBlock physical)
      intro block one other twins
      obtain ⟨misses, last, rfl⟩ := twins
      have twins : Twins one (one.disguise misses last) := ⟨misses, last, rfl⟩
      rw [bindState_ok (getState one), bindState_ok (getState (one.disguise misses last))]
      rw [disguise_settings, disguise_nextEvent]
      cases block.idleLoop && one.recompiler.settings.idleLoopDetection with
      | false => exact twins.executeBlock block
      | true =>
          cases one.nextEvent with
          | none => exact twins.executeBlock block
          | some cycles =>
              apply Agree.bind (twins.modify fun engine misses last => ⟨misses, last, rfl⟩)
              intro _ one other twins
              exact ⟨rfl, twins⟩

/-! ## Failing -/

section Quiet

variable [QuietBus β] {engine next : Engine β} {reason : RecompilerError}

theorem Compiles.error_disguise {physical : Word} {configuration : Configuration}
    (compiles : Compiles engine physical configuration (.error reason next)) :
    next = engine.disguise engine.recompiler.statistics.configurationMisses none := by
  cases compiles with
  | unformed fails =>
      obtain ⟨rfl, -⟩ := CodeUnit.form_error fails
      rfl
  | uncompiled forms =>
      obtain ⟨rfl, -⟩ := CodeUnit.form_ok forms
      rfl
  | unstored _ forms =>
      obtain ⟨rfl, -⟩ := CodeUnit.form_ok forms
      rfl

theorem Finds.error_disguise {physical : Word}
    (finds : Finds engine physical (.error reason next)) :
    ∃ misses, next = engine.disguise misses none := by
  cases finds with
  | compiled compiles counts =>
      obtain ⟨misses, rfl⟩ := counts
      exact ⟨misses, compiles.error_disguise⟩

/-- A step fails only while it looks for its block, and it leaves what it found. -/
theorem step_error (intact : engine.recompiler.Intact CompiledBlock.Runs)
    (fails : step engine = .error reason next) : ∃ misses, next = engine.disguise misses none := by
  have stepped := step_stepped engine
  generalize result : step engine = outcome at stepped
  cases stepped with
  | fault => cases result.symm.trans fails
  | waited => cases result.symm.trans fails
  | @unfound physical _ _ translates unfound =>
      cases result.symm.trans fails
      have finds := findBlock_finds engine physical
      rw [unfound] at finds
      exact finds.error_disguise
  | @executed physical block between translates found =>
      have safe := (findBlock_finds engine physical).safe intact translates
      rw [found] at safe
      obtain ⟨code, holds, ir, retired, implements⟩ := safe.1.backed physical block safe.2
      obtain ⟨count, after, directory, statistics, -, same, -⟩ :=
        executeBlock_eq (holds.get? safe.1.bounded) implements
      cases (result.trans same).symm.trans fails

end Quiet

/-! ## Going on -/

def report (engine : Engine β) : Action β → Option (Except RecompilerError Nat)
  | .step =>
    match step engine with
    | .ok cycles _ => some (.ok cycles)
    | .error reason _ => some (.error reason)
  | _ => none

/-- What actions report, each with the engine that it leaves. The number of misses and the last
compilation are left out. -/
def transcript (engine : Engine β) :
    List (Action β) → List (Option (Except RecompilerError Nat) × Engine β)
  | [] => []
  | action :: rest =>
    let next := engine.perform action
    (engine.report action, next.disguise 0 none) :: next.transcript rest

theorem Twins.perform (twins : Twins first second) (action : Action β) :
    first.report action = second.report action ∧
      Twins (first.perform action) (second.perform action) := by
  cases action with
  | step =>
      have agree := twins.step
      simp only [report, Engine.perform]
      cases one : Engine.step first with
      | ok cycles next =>
          cases other : Engine.step second with
          | ok also last =>
              rw [one, other] at agree
              exact ⟨congrArg (some ∘ Except.ok) agree.1, agree.2⟩
          | error reason last =>
              rw [one, other] at agree
              exact agree.elim
      | error reason next =>
          cases other : Engine.step second with
          | ok also last =>
              rw [one, other] at agree
              exact agree.elim
          | error also last =>
              rw [one, other] at agree
              exact ⟨congrArg (some ∘ Except.error) agree.1, agree.2⟩
  | edit change =>
      obtain ⟨misses, last, rfl⟩ := twins
      exact ⟨rfl, misses, last, rfl⟩
  | schedule nextEvent =>
      obtain ⟨misses, last, rfl⟩ := twins
      exact ⟨rfl, misses, last, rfl⟩
  | loadState cpu =>
      obtain ⟨misses, last, rfl⟩ := twins
      exact ⟨rfl, misses, last, rfl⟩
  | invalidate physical =>
      obtain ⟨misses, last, rfl⟩ := twins
      have same := first.recompiler.invalidate_disguise physical misses last
      exact ⟨rfl, misses, last, congrArg
        (fun recompiler => { first with recompiler }) same⟩
  | flush =>
      obtain ⟨misses, last, rfl⟩ := twins
      exact ⟨rfl, misses, last, rfl⟩

theorem Twins.transcript (twins : Twins first second) (later : List (Action β)) :
    first.transcript later = second.transcript later := by
  induction later generalizing first second with
  | nil => rfl
  | cons action rest ih =>
      obtain ⟨reports, after⟩ := twins.perform action
      simp only [Engine.transcript, reports, after.disguise, ih after]

end Engine

/-! ## Going on in the same buffers -/

namespace BufferedEngine

variable {β : Type} [Bus β]

/-- The engine and its buffers after an action. Only steps use the buffers. -/
def perform (buffered : BufferedEngine β) : Engine.Action β → BufferedEngine β
  | .step =>
    match step buffered with
    | .ok _ next | .error _ next => next
  | action => { buffered with engine := buffered.engine.perform action }

def report (buffered : BufferedEngine β) :
    Engine.Action β → Option (Except RecompilerError Nat)
  | .step =>
    match step buffered with
    | .ok cycles _ => some (.ok cycles)
    | .error reason _ => some (.error reason)
  | _ => none

/-- The transcript of actions that use the buffers one after the other. -/
def transcript (buffered : BufferedEngine β) :
    List (Engine.Action β) → List (Option (Except RecompilerError Nat) × Engine β)
  | [] => []
  | action :: rest =>
    let next := buffered.perform action
    (buffered.report action, next.engine.disguise 0 none) :: next.transcript rest

theorem perform_eq (buffered : BufferedEngine β) (action : Engine.Action β) :
    buffered.report action = buffered.engine.report action ∧
      (buffered.perform action).engine = buffered.engine.perform action := by
  cases action with
  | step =>
      have same := step_ignores buffered.engine buffered.workspace
      simp only [report, perform, Engine.report, Engine.perform, ← same]
      cases step buffered with
      | ok cycles next => exact ⟨rfl, rfl⟩
      | error reason next => exact ⟨rfl, rfl⟩
  | _ => exact ⟨rfl, rfl⟩

/-- Whatever the buffers hold at first, all actions come to what they come to without them. -/
theorem transcript_eq (buffered : BufferedEngine β) (later : List (Engine.Action β)) :
    buffered.transcript later = buffered.engine.transcript later := by
  induction later generalizing buffered with
  | nil => rfl
  | cons action rest ih =>
      obtain ⟨reports, after⟩ := buffered.perform_eq action
      simp only [transcript, Engine.transcript, reports, ih, after]

end BufferedEngine

namespace Engine

variable {β : Type} [Bus β]

/-- A step that fails leaves no trace. Everything is as before but for the number of misses and
the last compilation, and whatever is done later comes to the same as if the step had not been
made. This holds in any buffers too: the step leaves something else in them, and whatever is done
later in these comes to the same as in those before the step. -/
theorem failed_step_unnoticed [QuietBus β] {memory : β} {settings : Settings}
    {actions : List (Action β)} {reason : RecompilerError} {next : Engine β}
    (fails : step (actions.foldl perform (ofMemory memory settings)) = .error reason next) :
    let engine := actions.foldl perform (ofMemory memory settings)
    (next.machine = engine.machine ∧ next.recompiler.directory = engine.recompiler.directory ∧
      next.recompiler.cache = engine.recompiler.cache ∧
      ∃ misses, next = engine.disguise misses none) ∧
    (∀ later, next.transcript later = engine.transcript later) ∧
    (∀ workspace : Workspace, ∃ left : Workspace,
      BufferedEngine.step ⟨engine, workspace⟩ = .error reason ⟨next, left⟩ ∧
      ∀ later, BufferedEngine.transcript ⟨next, left⟩ later =
        BufferedEngine.transcript ⟨engine, workspace⟩ later) ∧
    (∀ (workspace : Workspace) (codeUnit : CodeUnit) (configuration : Configuration)
      (platform : Platform),
        Workspace.outcome (codeUnit.compileIn configuration platform workspace) =
          codeUnit.compile configuration platform) ∧
    ∀ (workspace : Workspace) (code : List UInt8) (machine : Machine (WatchedMemory β)),
      (HostCode.executeIn code machine workspace.spill).1 = HostCode.execute code machine := by
  intro engine
  have intact : engine.recompiler.Intact CompiledBlock.Runs :=
    foldl_perform_intact actions (Recompiler.ofSettings_intact settings)
  obtain ⟨misses, rfl⟩ := step_error intact fails
  have twins : Twins engine (engine.disguise misses none) := ⟨misses, none, rfl⟩
  refine ⟨⟨rfl, rfl, rfl, misses, rfl⟩, fun later => ?_, fun workspace => ?_, ?_, ?_⟩
  · exact (twins.transcript later).symm
  · have same := BufferedEngine.step_ignores engine workspace
    cases buffered : BufferedEngine.step ⟨engine, workspace⟩ with
    | ok cycles last =>
        rw [buffered, fails] at same
        cases same
    | error other last =>
        obtain ⟨reached, left⟩ := last
        rw [buffered, fails] at same
        obtain ⟨rfl, rfl⟩ := EStateM.Result.error.inj same
        refine ⟨left, rfl, fun later => ?_⟩
        rw [BufferedEngine.transcript_eq, BufferedEngine.transcript_eq]
        exact (twins.transcript later).symm
  · intro workspace codeUnit configuration platform
    exact codeUnit.compileIn_eq configuration platform workspace
  · intro workspace code machine
    exact HostCode.executeIn_eq code machine workspace.spill

def reservedMemory : Ram :=
  (Ram.ofSize 64).write 0 .word 0xec000000

def reservedRun : List (Action Ram) :=
  [.loadState { CpuState.reset with pc := 0xffffffff80000000 }]

/-- The guest fails, and goes on as if it had not when a system call is put there. -/
theorem reservedRun_unnoticed :
    QuietBus Ram ∧ ∃ reason next,
      step (reservedRun.foldl perform (ofMemory reservedMemory {})) = .error reason next ∧
      let later := [.edit fun machine =>
        { machine with bus := machine.bus.write 0 .word 0xc }, .step, .step]
      next.transcript later =
        (reservedRun.foldl perform (ofMemory reservedMemory {})).transcript later := by
  have computes : (match step (reservedRun.foldl perform (ofMemory reservedMemory {})) with
      | .ok _ _ => false
      | .error _ _ => true) = true := by
    decide +kernel
  cases fails : step (reservedRun.foldl perform (ofMemory reservedMemory {})) with
  | ok cycles next =>
      rw [fails] at computes
      cases computes
  | error reason next =>
      exact ⟨inferInstance, reason, next, rfl, (failed_step_unnoticed fails).2.1 _⟩

end Engine

end MipsRecompiler
