import MipsRecompiler.Emission.Basic
import MipsRecompiler.Proofs.Cpu.GuestRegisters
import MipsRecompiler.Proofs.Ir.Evaluation
import MipsRecompiler.Proofs.Ir.WellFormed

/-!
# Emitting in step with a guest

While values are emitted, a guest is followed that the values are to have the same effect as. A
stage is this guest with what is known about the values so far. Emitting is judged twice at once:
what it does to the block, and what evaluating the block comes to, on a fixed machine to start on.
-/

set_option autoImplicit false

namespace MipsRecompiler

/-- A guest as the machine shows it that a block runs on: with the registers that were there at
the start, because a block writes its own back only when it is left. -/
def Machine.unflushed {β : Type} (guest start : Machine β) : Machine β :=
  guest.mapCpu fun cpu =>
    { cpu with gpr := start.cpu.gpr, fgr := start.cpu.fgr, pc := start.cpu.pc }

namespace Emission

open Ir

variable {β : Type}

/-- A guest, and what is known about the values that were emitted to get there. -/
structure Stage (β : Type) where
  guest : Machine β
  known : List (ValueId × DoubleWord)
  /-- Values that are physical addresses for stores of a size. -/
  targets : List (ValueId × AccessSize)
  /-- Where the guest continues at the end of the block, if that was said. -/
  exit : Option DoubleWord

namespace Stage

def know (stage : Stage β) (id : ValueId) (result : DoubleWord) : Stage β :=
  { stage with known := (id, result) :: stage.known }

def withGuest (stage : Stage β) (guest : Machine β) : Stage β :=
  { stage with guest }

def changeCpu (stage : Stage β) (change : CpuState → CpuState) : Stage β :=
  stage.withGuest (stage.guest.mapCpu change)

@[simp] theorem know_guest (stage : Stage β) (id : ValueId) (result : DoubleWord) :
    (stage.know id result).guest = stage.guest := rfl

@[simp] theorem know_known (stage : Stage β) (id : ValueId) (result : DoubleWord) :
    (stage.know id result).known = (id, result) :: stage.known := rfl

@[simp] theorem withGuest_guest (stage : Stage β) (guest : Machine β) :
    (stage.withGuest guest).guest = guest := rfl

/-- A stage that tells no more than another one about the same guest. -/
structure Within (less more : Stage β) : Prop where
  guest : less.guest = more.guest
  exit : less.exit = more.exit
  known : less.known ⊆ more.known
  targets : less.targets ⊆ more.targets

end Stage

/-- What has been emitted is a well-formed block, and what is named in it is there. -/
structure Sound (progress : Progress) (stage : Stage β) : Prop where
  formed : progress.draft.block.WellFormed
  bound : ∀ reg id, progress.draft.binding? reg = some id → progress.draft.block.Defined id
  zero : progress.draft.binding? .zero = none
  known : ∀ fact ∈ stage.known, progress.draft.block.Defined fact.1
  targets : ∀ target ∈ stage.targets, progress.draft.block.Defined target.1 ∧
    ∃ virtual, progress.draft.block.kind target.1 = .translate virtual .store target.2

/-- An evaluation of what was emitted has come to a stage. -/
structure Shows (start : Machine β) (progress : Progress) (stage : Stage β)
    (state : Evaluation β) : Prop where
  machine : state.machine = stage.guest.unflushed start
  bound : ∀ reg id, progress.draft.binding? reg = some id →
    state.cells id = stage.guest.cpu.readGuest reg
  free : ∀ reg, progress.draft.binding? reg = none →
    start.cpu.readGuest reg = stage.guest.cpu.readGuest reg
  loaded : ∀ reg id, progress.draft.block.Defined id →
    progress.draft.block.kind id = .loadRegister reg → state.cells id = start.cpu.readGuest reg
  known : ∀ fact ∈ stage.known, state.cells fact.1 = fact.2
  zero : stage.guest.cpu.readGpr 0 = 0
  usable : progress.floatChecked = true → stage.guest.cpu.control.floatUsable = true
  exitPc : state.exitPc = stage.exit
  exitSet : progress.exitPcSet = stage.exit.isSome

/-- What the values so far come to. -/
def Progress.run [Bus β] (progress : Progress) (start : Machine β) : Outcome β :=
  Ir.evaluateAll progress.draft.block.values (.start start)

def Progress.append (progress : Progress) (value : Value) : Progress :=
  { progress with draft := { progress.draft with block := (progress.draft.block.push value).2 } }

/-- How one stage follows another, with a way out of the block if it is surely left between. -/
structure Continues [Bus β] (start : Machine β) (progress next : Progress)
    (before after : Stage β) (leaves : Option (BitVec 32 × Machine β)) : Prop where
  appends : ∃ more, next.draft.block.values = progress.draft.block.values ++ more
  sound : Sound next after
  runs : ∀ state, progress.run start = .next state → Shows start progress before state →
    match leaves with
    | some (retired, machine) => next.run start = .left retired machine
    | none => ∃ reached, next.run start = .next reached ∧ Shows start next after reached

/-- Emitting follows the guest from one stage to another. -/
def Emits [Bus β] {α : Type} (start : Machine β) (place : Place) (before : Stage β)
    (emit : Emit α) (after : α → Stage β) (leaves : Option (BitVec 32 × Machine β)) : Prop :=
  ∀ progress value next, emit place progress = .ok value next → Sound progress before →
    Continues start progress next before (after value) leaves

/-- What emitting does to the block alone, whatever the guest. -/
def Shapes {α : Type} (place : Place) (before : Stage β) (emit : Emit α)
    (after : α → Stage β) : Prop :=
  ∀ progress value next, emit place progress = .ok value next → Sound progress before →
    (∃ more, next.draft.block.values = progress.draft.block.values ++ more) ∧
      Sound next (after value)

/-- How a block is left by an exception of the instruction. -/
def Place.raises (place : Place) (cause : ExceptionCause) (guest : Machine β) :
    BitVec 32 × Machine β :=
  (BitVec.ofNat 32 (place.index + 1), guest.raise (place.exception cause))

theorem Sound.change {progress : Progress} {stage other : Stage β} (sound : Sound progress stage)
    (known : other.known.map Prod.fst ⊆ stage.known.map Prod.fst)
    (targets : other.targets ⊆ stage.targets) : Sound progress other where
  formed := sound.formed
  bound := sound.bound
  zero := sound.zero
  known fact member := by
    obtain ⟨one, listed, same⟩ := List.mem_map.mp (known (List.mem_map_of_mem member))
    rw [← same]
    exact sound.known one listed
  targets target member := sound.targets target (targets member)

theorem Sound.weaken {progress : Progress} {less more : Stage β} (sound : Sound progress more)
    (within : less.Within more) : Sound progress less where
  formed := sound.formed
  bound := sound.bound
  zero := sound.zero
  known fact member := sound.known fact (within.known member)
  targets target member := sound.targets target (within.targets member)

theorem Shows.weaken {start : Machine β} {progress : Progress} {less more : Stage β}
    {state : Evaluation β} (shows : Shows start progress more state)
    (within : less.Within more) : Shows start progress less state where
  machine := by rw [within.guest]; exact shows.machine
  bound := by rw [within.guest]; exact shows.bound
  free := by rw [within.guest]; exact shows.free
  loaded := shows.loaded
  known fact member := shows.known fact (within.known member)
  zero := by rw [within.guest]; exact shows.zero
  usable := by rw [within.guest]; exact shows.usable
  exitPc := by rw [within.exit]; exact shows.exitPc
  exitSet := by rw [within.exit]; exact shows.exitSet

section Judgement

variable [Bus β] {α τ : Type} {start : Machine β} {place : Place} {before : Stage β}

namespace Emits

theorem bind_ok {emit : Emit α} {rest : α → Emit τ} {progress next : Progress} {result : τ}
    (emitted : (emit >>= rest) place progress = .ok result next) :
    ∃ value middle, emit place progress = .ok value middle ∧
      rest value place middle = .ok result next := by
  simp only [bind, ReaderT.bind, EStateM.bind] at emitted
  cases first : emit place progress with
  | error reason left =>
      rw [first] at emitted
      cases emitted
  | ok value middle =>
      rw [first] at emitted
      exact ⟨value, middle, rfl, emitted⟩

theorem bind_error {emit : Emit α} {rest : α → Emit τ} {progress left : Progress}
    {reason : CompileError} (fails : (emit >>= rest) place progress = .error reason left) :
    emit place progress = .error reason left ∨ ∃ value middle,
      emit place progress = .ok value middle ∧ rest value place middle = .error reason left := by
  simp only [bind, ReaderT.bind, EStateM.bind] at fails
  cases first : emit place progress with
  | error other left =>
      rw [first] at fails
      cases fails
      exact .inl rfl
  | ok value middle =>
      rw [first] at fails
      exact .inr ⟨value, middle, rfl, fails⟩

theorem shapes {emit : Emit α} {after : α → Stage β} {leaves : Option (BitVec 32 × Machine β)}
    (emits : Emits start place before emit after leaves) {earlier : Stage β}
    {later : α → Stage β} (known : before.known.map Prod.fst ⊆ earlier.known.map Prod.fst)
    (targets : before.targets ⊆ earlier.targets)
    (knows : ∀ value, (later value).known.map Prod.fst ⊆ (after value).known.map Prod.fst)
    (aims : ∀ value, (later value).targets ⊆ (after value).targets) :
    Shapes place earlier emit later := by
  intro progress value next emitted sound
  obtain ⟨appends, sound, -⟩ := emits progress value next emitted (sound.change known targets)
  exact ⟨appends, sound.change (knows value) (aims value)⟩

theorem pure (value : α) : Emits start place before (pure value) (fun _ => before) none := by
  intro progress result next emitted sound
  cases emitted
  exact ⟨⟨[], by simp⟩, sound, fun state reaches shows => ⟨state, reaches, shows⟩⟩

/-- Of what follows a sure way out, only the shape matters. -/
theorem shape (start : Machine β) {emit : Emit α} {after later : α → Stage β}
    {leaves : Option (BitVec 32 × Machine β)}
    (emits : Emits start place before emit after leaves)
    (knows : ∀ value, (later value).known.map Prod.fst ⊆ (after value).known.map Prod.fst)
    (aims : ∀ value, (later value).targets ⊆ (after value).targets) :
    Shapes place before emit later :=
  emits.shapes (fun _ => id) (fun _ => id) knows aims

omit [Bus β] in
theorem shapes_pure (value : α) {after : α → Stage β}
    (known : (after value).known.map Prod.fst ⊆ before.known.map Prod.fst)
    (targets : (after value).targets ⊆ before.targets) :
    Shapes place before (Pure.pure value) after := by
  intro progress result next emitted sound
  cases emitted
  exact ⟨⟨[], by simp⟩, sound.change known targets⟩

theorem bind {emit : Emit α} {rest : α → Emit τ} {middle : α → Stage β} {after : τ → Stage β}
    {leaves : Option (BitVec 32 × Machine β)}
    (first : Emits start place before emit middle none)
    (second : ∀ value, Emits start place (middle value) (rest value) after leaves) :
    Emits start place before (emit >>= rest) after leaves := by
  intro progress result next emitted sound
  obtain ⟨value, between, one, two⟩ := bind_ok emitted
  have early := first progress value between one sound
  have late := second value between result next two early.sound
  obtain ⟨some, values⟩ := early.appends
  obtain ⟨more, others⟩ := late.appends
  refine ⟨⟨some ++ more, by rw [others, values, List.append_assoc]⟩, late.sound, ?_⟩
  intro state reaches shows
  obtain ⟨reached, continues, shows⟩ := early.runs state reaches shows
  exact late.runs reached continues shows

/-- What is emitted behind a sure way out does not matter. -/
theorem bind_left {emit : Emit α} {rest : α → Emit τ} {middle : α → Stage β}
    {after : τ → Stage β} {left : BitVec 32 × Machine β}
    (first : Emits start place before emit middle (some left))
    (second : ∀ value, Shapes place (middle value) (rest value) after) :
    Emits start place before (emit >>= rest) after (some left) := by
  intro progress result next emitted sound
  obtain ⟨value, between, one, two⟩ := bind_ok emitted
  have early := first progress value between one sound
  obtain ⟨⟨more, others⟩, late⟩ := second value between result next two early.sound
  obtain ⟨some, values⟩ := early.appends
  refine ⟨⟨some ++ more, by rw [others, values, List.append_assoc]⟩, late, ?_⟩
  intro state reaches shows
  have gone : between.run start = .left left.1 left.2 := early.runs state reaches shows
  show next.run start = .left left.1 left.2
  rw [Progress.run, others, Ir.evaluateAll_append, ← Progress.run, gone]
  rfl

theorem weaken {emit : Emit α} {more less : α → Stage β}
    {leaves : Option (BitVec 32 × Machine β)}
    (emits : Emits start place before emit more leaves)
    (within : ∀ value, (less value).Within (more value)) :
    Emits start place before emit less leaves := by
  intro progress value next emitted sound
  have continues := emits progress value next emitted sound
  refine ⟨continues.appends, continues.sound.weaken (within value), ?_⟩
  intro state reaches shows
  have runs := continues.runs state reaches shows
  cases leaves with
  | none =>
      obtain ⟨reached, goes, shows⟩ := runs
      exact ⟨reached, goes, shows.weaken (within value)⟩
  | some left => exact runs

/-- Where the block is surely left, the stage behind matters only for the shape of the block. -/
theorem of_left {emit : Emit α} {more less : α → Stage β} {left : BitVec 32 × Machine β}
    (emits : Emits start place before emit more (some left))
    (known : ∀ value, (less value).known ⊆ (more value).known)
    (targets : ∀ value, (less value).targets ⊆ (more value).targets) :
    Emits start place before emit less (some left) := by
  intro progress value next emitted sound
  have continues := emits progress value next emitted sound
  obtain ⟨formed, bound, zero, knows, aims⟩ := continues.sound
  exact ⟨continues.appends, ⟨formed, bound, zero, fun fact member => knows fact (known value member),
    fun target member => aims target (targets value member)⟩, continues.runs⟩

theorem congr {emit : Emit α} {after : α → Stage β}
    {leaves others : Option (BitVec 32 × Machine β)}
    (emits : Emits start place before emit after leaves) (same : leaves = others) :
    Emits start place before emit after others :=
  same ▸ emits

/-- Less may be said at the end. Of a guest that has left the block, nothing is said. -/
theorem conclude {emit : Emit α} {more less : α → Stage β}
    {leaves others : Option (BitVec 32 × Machine β)}
    (emits : Emits start place before emit more leaves) (same : others = leaves)
    (stage : leaves = none →
      ∀ value, (less value).guest = (more value).guest ∧ (less value).exit = (more value).exit)
    (known : ∀ value, (less value).known ⊆ (more value).known)
    (targets : ∀ value, (less value).targets ⊆ (more value).targets) :
    Emits start place before emit less others := by
  rw [same]
  cases leaves with
  | none =>
      refine emits.weaken fun value => ?_
      obtain ⟨guest, exit⟩ := stage rfl value
      exact ⟨guest, exit, known value, targets value⟩
  | some left => exact emits.of_left known targets

theorem of_error {emit : Emit α} {after : α → Stage β}
    {leaves : Option (BitVec 32 × Machine β)}
    (fails : ∀ progress value next, emit place progress ≠ .ok value next) :
    Emits start place before emit after leaves :=
  fun progress value next emitted => absurd emitted (fails progress value next)

theorem theInstruction {rest : Instruction → Emit τ} {after : τ → Stage β}
    {leaves : Option (BitVec 32 × Machine β)}
    (emits : Emits start place before (rest place.entry.inst) after leaves) :
    Emits start place before (Emission.theInstruction >>= rest) after leaves :=
  emits

theorem read {rest : Place → Emit τ} {after : τ → Stage β}
    {leaves : Option (BitVec 32 × Machine β)}
    (emits : Emits start place before (rest place) after leaves) :
    Emits start place before (MonadReader.read >>= rest) after leaves :=
  emits

end Emits

end Judgement

end Emission

end MipsRecompiler
