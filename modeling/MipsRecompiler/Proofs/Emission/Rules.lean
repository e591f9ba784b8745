import MipsRecompiler.Proofs.Emission.Stage
import MipsRecompiler.Proofs.Memory.Routines
import MipsRecompiler.Proofs.Memory.Similar

/-!
# What emitting one value does

One rule for each way to emit a value: what is known behind it, and whether it leaves the block.
-/

set_option autoImplicit false

namespace MipsRecompiler.Emission

open Ir

variable {β : Type}

/-! ## Appending -/

section Append

variable {progress : Progress} {stage : Stage β}

@[simp] theorem append_draft_block (progress : Progress) (value : Value) :
    (progress.append value).draft.block = (progress.draft.block.push value).2 := rfl

theorem append_values (progress : Progress) (value : Value) :
    (progress.append value).draft.block.values =
      progress.draft.block.values ++ [(progress.draft.block.bound, value)] :=
  Block.values_push _ _

theorem run_append [Bus β] (progress : Progress) (value : Value) (start : Machine β) :
    (progress.append value).run start =
      (progress.run start).andThen (value.evaluate progress.draft.block.bound) := by
  rw [Progress.run, append_values, evaluateAll_append, ← Progress.run]
  cases progress.run start with
  | next state =>
      simp only [Outcome.andThen, Ir.evaluateAll]
      cases value.evaluate progress.draft.block.bound state <;> rfl
  | left retired machine => rfl
  | stuck => rfl

theorem Sound.append (sound : Sound progress stage) {value : Value}
    (fits : progress.draft.block.Fits progress.draft.block.bound value) :
    Sound (progress.append value) stage where
  formed := sound.formed.push fits
  bound reg id binding := (sound.bound reg id binding).push value
  zero := sound.zero
  known fact member := (sound.known fact member).push value
  targets target member := by
    obtain ⟨defined, virtual, translates⟩ := sound.targets target member
    refine ⟨defined.push value, virtual, ?_⟩
    rw [append_draft_block, Block.kind, Block.value_push_of_lt value defined.lt_bound]
    exact translates

theorem Sound.know (sound : Sound progress stage) {id : ValueId}
    (defined : progress.draft.block.Defined id) (result : DoubleWord) :
    Sound progress (stage.know id result) where
  formed := sound.formed
  bound := sound.bound
  zero := sound.zero
  known fact member := by
    rcases List.mem_cons.mp member with rfl | old
    · exact defined
    · exact sound.known fact old
  targets := sound.targets

theorem Sound.know_other {id : ValueId} {result : DoubleWord}
    (sound : Sound progress (stage.know id result)) (other : DoubleWord) :
    Sound progress (stage.know id other) where
  formed := sound.formed
  bound := sound.bound
  zero := sound.zero
  known fact member := by
    rcases List.mem_cons.mp member with rfl | old
    · exact sound.known (id, result) List.mem_cons_self
    · exact sound.known fact (List.mem_cons_of_mem _ old)
  targets := sound.targets

theorem Sound.withGuest (sound : Sound progress stage) (guest : Machine β) :
    Sound progress (stage.withGuest guest) :=
  ⟨sound.formed, sound.bound, sound.zero, sound.known, sound.targets⟩

theorem Shows.know {start : Machine β} {state : Evaluation β}
    (shows : Shows start progress stage state) {id : ValueId} {result : DoubleWord}
    (cell : state.cells id = result) : Shows start progress (stage.know id result) state where
  machine := shows.machine
  bound := shows.bound
  free := shows.free
  loaded := shows.loaded
  known fact member := by
    rcases List.mem_cons.mp member with rfl | old
    · exact cell
    · exact shows.known fact old
  zero := shows.zero
  usable := shows.usable
  exitPc := shows.exitPc
  exitSet := shows.exitSet

theorem Shows.append {start guest : Machine β} {state reached : Evaluation β} {value : Value}
    (sound : Sound progress stage) (shows : Shows start progress stage state)
    (machine : reached.machine = guest.unflushed start)
    (registers : guest.cpu.gpr = stage.guest.cpu.gpr ∧ guest.cpu.fgr = stage.guest.cpu.fgr)
    (cells : ∀ id, id ≠ progress.draft.block.bound → reached.cells id = state.cells id)
    (loaded : ∀ reg, value.kind = .loadRegister reg →
      reached.cells progress.draft.block.bound = start.cpu.readGuest reg)
    (usable : progress.floatChecked = true → guest.cpu.control.floatUsable = true)
    (exitPc : reached.exitPc = state.exitPc) :
    Shows start (progress.append value) (stage.withGuest guest) reached := by
  have old {id : ValueId} (defined : progress.draft.block.Defined id) :
      reached.cells id = state.cells id := cells id (Nat.ne_of_lt defined.lt_bound)
  have same (reg : GuestRegister) : guest.cpu.readGuest reg = stage.guest.cpu.readGuest reg := by
    simp only [CpuState.readGuest, registers.1, registers.2]
  constructor
  · exact machine
  · intro reg id binding
    rw [Stage.withGuest_guest, same, old (sound.bound reg id binding)]
    exact shows.bound reg id binding
  · intro reg binding
    rw [Stage.withGuest_guest, same]
    exact shows.free reg binding
  · intro reg id defined kind
    rw [append_draft_block, Block.kind, Block.value_push] at kind
    split at kind
    · rename_i last
      rw [last]
      exact loaded reg kind
    · rename_i differs
      have listed : progress.draft.block.isListed id = true := by
        simpa [Block.isListed_push, differs] using defined.listed
      have before : progress.draft.block.Defined id :=
        ⟨listed, by rw [Block.kind, kind]; rfl⟩
      rw [old before]
      exact shows.loaded reg id before kind
  · intro fact member
    rw [old (sound.known fact member)]
    exact shows.known fact member
  · have zero := shows.zero
    simp only [CpuState.readGpr, Stage.withGuest_guest, registers.1] at zero ⊢
    exact zero
  · exact usable
  · exact exitPc.trans shows.exitPc
  · exact shows.exitSet

theorem Shows.define {start : Machine β} {state : Evaluation β} (value : Value)
    (sound : Sound progress stage) (shows : Shows start progress stage state)
    (loads : ∀ reg, value.kind ≠ .loadRegister reg) (result : DoubleWord) :
    Shows start (progress.append value) (stage.know progress.draft.block.bound result)
      (state.define progress.draft.block.bound result) := by
  refine Shows.know ?_ (state.define_cells_self _ _)
  exact shows.append sound shows.machine ⟨rfl, rfl⟩
    (fun id differs => state.define_cells_of_ne _ differs)
    (fun reg is => absurd is (loads reg)) shows.usable rfl

end Append

/-! ## Leaving -/

section Leave

variable {progress : Progress} {stage : Stage β} {start : Machine β} {state : Evaluation β}

theorem mem_bound {draft : Draft} {entry : GuestRegister × ValueId} :
    entry ∈ draft.bound ↔ draft.binding? entry.1 = some entry.2 := by
  obtain ⟨reg, id⟩ := entry
  simp only [Draft.bound, List.mem_filterMap, Option.map_eq_some_iff, Prod.mk.injEq]
  constructor
  · rintro ⟨other, -, found, binding, rfl, rfl⟩
    exact binding
  · intro binding
    exact ⟨reg, GuestRegister.mem_all reg, id, binding, rfl, rfl⟩

theorem mem_flushList {draft : Draft} {entry : GuestRegister × ValueId} :
    entry ∈ draft.flushList ↔
      draft.binding? entry.1 = some entry.2 ∧
        draft.block.kind entry.2 ≠ .loadRegister entry.1 := by
  simp [Draft.flushList, mem_bound]

theorem flushList_length (draft : Draft) : draft.flushList.length ≤ 64 := by
  refine Nat.le_trans (List.length_filter_le _ _) ?_
  refine Nat.le_trans (List.length_filterMap_le _ _) ?_
  simp [GuestRegister.all]

private theorem foldl_withRegisters (cpu registers : CpuState) (values : ValueId → DoubleWord)
    (entries : List (GuestRegister × ValueId)) :
    entries.foldl (fun cpu entry => cpu.writeGuest entry.1 (values entry.2))
        (cpu.withRegisters registers) =
      cpu.withRegisters
        (entries.foldl (fun cpu entry => cpu.writeGuest entry.1 (values entry.2)) registers) := by
  induction entries generalizing registers with
  | nil => rfl
  | cons entry rest ih =>
      simp only [List.foldl_cons, CpuState.withRegisters_writeGuest]
      exact ih _

/-- Writing back every changed register gives the guest, but for where it stands. -/
theorem Shows.flush (sound : Sound progress stage) (shows : Shows start progress stage state) :
    state.flush progress.draft.flushList =
      stage.guest.mapCpu fun cpu => { cpu with pc := start.cpu.pc } := by
  have values : ∀ entry ∈ progress.draft.flushList,
      state.cells entry.2 = stage.guest.cpu.readGuest entry.1 := fun entry member =>
    shows.bound _ _ (mem_flushList.mp member).1
  have nonzero : ∀ entry ∈ progress.draft.flushList, entry.1 ≠ .zero := by
    intro entry member zero
    have binding := (mem_flushList.mp member).1
    rw [zero, sound.zero] at binding
    cases binding
  have flushed (reg : GuestRegister) :
      (progress.draft.flushList.foldl
        (fun cpu entry => cpu.writeGuest entry.1 (state.cells entry.2)) start.cpu).readGuest reg =
        stage.guest.cpu.readGuest reg := by
    rw [CpuState.readGuest_foldl_writeGuest values nonzero]
    split
    · rfl
    · rename_i absent
      cases binding : progress.draft.binding? reg with
      | none => exact shows.free reg binding
      | some id =>
          by_cases kept : progress.draft.block.kind id = .loadRegister reg
          · rw [← shows.bound reg id binding, shows.loaded reg id (sound.bound reg id binding) kept]
          · exact absurd (List.mem_map.mpr ⟨(reg, id), mem_flushList.mpr ⟨binding, kept⟩, rfl⟩) absent
  have whole : CpuState.withRegisters { stage.guest.cpu with pc := start.cpu.pc } _ = _ :=
    CpuState.withRegisters_eq flushed
  rw [← foldl_withRegisters] at whole
  rw [Evaluation.flush, shows.machine]
  simp only [Machine.unflushed, Machine.mapCpu]
  rw [← whole]
  rfl

theorem Shows.raiseAt (sound : Sound progress stage) (shows : Shows start progress stage state)
    (place : Place) (cause : ExceptionCause) :
    state.raiseAt (some (place.site progress.draft)) cause =
      .left (place.raises cause stage.guest).1 (place.raises cause stage.guest).2 := by
  simp only [Evaluation.raiseAt, Evaluation.leave, Place.site, shows.flush sound]
  rfl

end Leave

/-! ## Pushing -/

/-- The values that a new one of this kind needs are known. -/
structure Stage.Admits (stage : Stage β) (kind : Kind) : Prop where
  operands : ∀ used ∈ kind.operands, ∃ result, (used, result) ∈ stage.known
  field : ∀ reg, kind.field? = some (.control reg) → reg < 32
  store : ∀ target, kind.target? = some target → target ∈ stage.targets

/-- A kind of value that is no store and names no control register needs only its operands. -/
theorem Stage.Admits.of_operands {stage : Stage β} {kind : Kind} (field : kind.field? = none)
    (store : kind.target? = none)
    (operands : ∀ used ∈ kind.operands, ∃ result, (used, result) ∈ stage.known) :
    stage.Admits kind where
  operands := operands
  field reg is := by rw [field] at is; cases is
  store target is := by rw [store] at is; cases is

theorem Sound.fits {progress : Progress} {stage : Stage β} (sound : Sound progress stage)
    {kind : Kind} (admits : stage.Admits kind) {site : Option ExitSite}
    (flush : ∀ present ∈ site, present.flush = progress.draft.flushList) :
    progress.draft.block.Fits progress.draft.block.bound ⟨kind, site⟩ where
  uses used member := by
    have defined : progress.draft.block.Defined used := by
      rcases List.mem_append.mp member with operand | flushed
      · obtain ⟨result, known⟩ := admits.operands used operand
        exact sound.known _ known
      · cases site with
        | none => cases flushed
        | some site =>
            obtain ⟨entry, changed, rfl⟩ := List.mem_map.mp flushed
            rw [flush site rfl] at changed
            exact sound.bound _ _ (mem_flushList.mp changed).1
    exact ⟨defined.lt_bound, defined⟩
  flush present is := by
    rw [flush present is]
    exact flushList_length _
  field := admits.field
  store target is := (sound.targets target (admits.store target is)).2

section Push

variable [Bus β] {start : Machine β} {place : Place} {before : Stage β}

namespace Emits

theorem of_append {emit : Emit ValueId} {kind : Kind} (site : Draft → Option ExitSite)
    {after : ValueId → Stage β} {leaves : Option (BitVec 32 × Machine β)}
    (emits : ∀ progress : Progress, emit place progress =
      .ok progress.draft.block.bound (progress.append ⟨kind, site progress.draft⟩))
    (admits : before.Admits kind)
    (flush : ∀ draft, ∀ present ∈ site draft, present.flush = draft.flushList)
    (sounds : ∀ progress : Progress, Sound (progress.append ⟨kind, site progress.draft⟩) before →
      Sound (progress.append ⟨kind, site progress.draft⟩) (after progress.draft.block.bound))
    (runs : ∀ (progress : Progress) state, Sound progress before →
      Shows start progress before state →
      match leaves with
      | some (retired, machine) =>
        Value.evaluate ⟨kind, site progress.draft⟩ progress.draft.block.bound state =
          .left retired machine
      | none => ∃ reached,
        Value.evaluate ⟨kind, site progress.draft⟩ progress.draft.block.bound state =
          .next reached ∧
        Shows start (progress.append ⟨kind, site progress.draft⟩)
          (after progress.draft.block.bound) reached) :
    Emits start place before emit after leaves := by
  intro progress value next emitted sound
  rw [emits] at emitted
  cases emitted
  refine ⟨⟨_, append_values _ _⟩, sounds progress (sound.append (sound.fits admits (flush _))), ?_⟩
  intro state reaches shows
  have ends := runs progress state sound shows
  rw [run_append, reaches]
  exact ends

theorem push {kind : Kind} {result : DoubleWord} (admits : before.Admits kind)
    (hasResult : kind.resultClass?.isSome = true)
    (loads : ∀ reg, kind ≠ .loadRegister reg)
    (computes : ∀ cells : ValueId → DoubleWord,
      (∀ id value, (id, value) ∈ before.known → cells id = value) →
      kind.compute? cells (before.guest.unflushed start).cpu = some result) :
    Emits start place before (Emission.push kind) (fun id => before.know id result) none := by
  refine of_append (fun _ => none) (fun _ => rfl) admits (fun _ _ => nofun)
    (fun progress sound => sound.know (.push_self _ hasResult) result) ?_
  intro progress state sound shows
  have computed := computes state.cells fun id value known => shows.known (id, value) known
  rw [← shows.machine] at computed
  refine ⟨state.define progress.draft.block.bound result, ?_, ?_⟩
  · simp only [Value.evaluate, computed]
  · exact shows.define _ sound loads result

end Emits

end Push

end MipsRecompiler.Emission
