import MipsRecompiler.Proofs.Cpu.GuestRegisters
import MipsRecompiler.Proofs.Ir.Evaluation
import MipsRecompiler.Proofs.Memory.Routines

/-!
# What the effects of a block decide

A property of the machine that only memory and the address map decide holds while a block is
evaluated if every effect of the block keeps it.
-/

set_option autoImplicit false

namespace MipsRecompiler.Ir

open Machine (Quiet)

variable {β : Type} [Bus β] [LawfulBus β]

/-- A value without an effect leaves memory and the address map alone. -/
theorem Value.evaluate_quiet {value : Value} {id : ValueId} {state next : Evaluation β}
    (evaluates : value.evaluate id state = .next next)
    (without : Effect.ofKind? value.kind = none) : Quiet state.machine next.machine := by
  obtain ⟨kind, site⟩ := value
  cases Value.proceeds_of_evaluate evaluates with
  | compute | translate | exitIf => exact .refl _
  | flushRegister =>
      refine ⟨rfl, rfl, ?_⟩
      simp [Machine.mapCpu]
  | load reads => exact ⟨(congrArg Prod.snd reads).symm.trans (LawfulBus.read_bus _ _ _), rfl, rfl⟩
  | @storeState field =>
      cases field with
      | control reg => cases without
      | hi | lo | fcr31 => exact ⟨rfl, rfl, rfl⟩
  | call called => exact Machine.callRoutine_quiet without called
  | store => cases without
  | mulDiv | setExitPc | setExitPcIf | floatCompare => exact ⟨rfl, rfl, rfl⟩

/-- A value with an effect changes what the effect names. -/
theorem Value.evaluate_confined {value : Value} {id : ValueId} {state next : Evaluation β}
    {effect : Effect} (evaluates : value.evaluate id state = .next next)
    (named : Effect.ofKind? value.kind = some effect) :
    Event.Confined ⟨effect, state.machine, next.machine⟩ := by
  obtain ⟨kind, site⟩ := value
  cases Value.proceeds_of_evaluate evaluates with
  | store =>
      cases named
      rfl
  | @storeState field =>
      cases field with
      | control reg =>
          cases named
          refine ⟨rfl, rfl, fun differs => ?_⟩
          exact congrArg (BitVec.setWidth 8) (SystemControl.get_set_of_ne differs)
      | hi | lo | fcr31 => cases named
  | call called => exact Machine.callRoutine_confined named called
  | compute computes =>
      cases kind with
      | store | storeState | call => cases computes
      | _ => cases named
  | _ => cases named

omit [LawfulBus β] in
/-- An effect is that of the first value, or one of those behind it, which are then reached. -/
private theorem mem_events_cons {id : ValueId} {value : Value} {rest : List (ValueId × Value)}
    {state : Evaluation β} {event : Event β} (member : event ∈ events ((id, value) :: rest) state) :
    ∃ next, value.evaluate id state = .next next ∧
      ((∃ effect, Effect.ofKind? value.kind = some effect ∧
          event = ⟨effect, state.machine, next.machine⟩) ∨
        event ∈ events rest next) := by
  rw [events] at member
  cases evaluates : value.evaluate id state with
  | left retired machine => simp [evaluates] at member
  | stuck => simp [evaluates] at member
  | next next =>
      simp only [evaluates, List.mem_append] at member
      rcases member with now | later
      · simp only [Effect.events, Option.mem_toList, Option.map_eq_some_iff] at now
        obtain ⟨effect, named, rfl⟩ := now
        exact ⟨next, rfl, .inl ⟨effect, named, rfl⟩⟩
      · exact ⟨next, rfl, .inr later⟩

theorem events_confined (values : List (ValueId × Value)) (state : Evaluation β) :
    ∀ event ∈ events values state, event.Confined := by
  induction values generalizing state with
  | nil => exact nofun
  | cons head rest ih =>
      intro event member
      obtain ⟨next, evaluates, ⟨effect, named, rfl⟩ | later⟩ := mem_events_cons member
      · exact head.2.evaluate_confined evaluates named
      · exact ih next event later

omit [Bus β] [LawfulBus β] in
private theorem flush_quiet (state : Evaluation β) (entries : List (GuestRegister × ValueId)) :
    Quiet state.machine (state.flush entries) := by
  refine ⟨rfl, rfl, ?_⟩
  have same (cpu : CpuState) : (entries.foldl
      (fun cpu entry => cpu.writeGuest entry.1 (state.cells entry.2)) cpu).control = cpu.control := by
    induction entries generalizing cpu with
    | nil => rfl
    | cons entry rest ih => rw [List.foldl_cons, ih, CpuState.writeGuest_control]
  exact congrArg SystemControl.addressSpace (same state.machine.cpu)

omit [LawfulBus β] in
theorem Value.evaluate_left {value : Value} {id : ValueId} {state : Evaluation β}
    {retired : BitVec 32} {left : Machine β}
    (leaves : value.evaluate id state = .left retired left) : Quiet state.machine left := by
  obtain ⟨machine, finish, site, departs, -, -, rfl⟩ := Value.departs_of_evaluate leaves
  have flushed := flush_quiet { state with machine } site.flush
  obtain ⟨kind, exit⟩ := value
  cases departs with
  | overflow | translate | exception => exact flushed.trans (Machine.raise_quiet _ _)
  | branch => exact flushed.trans ⟨rfl, rfl, rfl⟩
  | call called =>
      rw [Machine.callRoutine_error called] at flushed ⊢
      exact flushed.trans (Machine.raise_quiet _ _)

/-- A property of the machine holds however evaluating ends. -/
def Outcome.Ends (holds : Machine β → Prop) : Outcome β → Prop
  | .next state => holds state.machine
  | .left _ machine => holds machine
  | .stuck => True

omit [LawfulBus β] in
/-- What evaluating a block ends with has the properties that its values end with, but for where
the guest continues. -/
private theorem Block.evaluate_of_ends {block : Block} {machine after : Machine β}
    {retired count : BitVec 32} {holds : Machine β → Prop}
    (ends : (evaluateAll block.values (.start machine)).Ends holds)
    (moves : ∀ (machine : Machine β) (pc : DoubleWord), holds machine →
      holds (machine.mapCpu fun cpu => { cpu with pc }))
    (evaluates : block.evaluate retired machine = some (count, after)) : holds after := by
  rw [Block.evaluate] at evaluates
  cases whole : evaluateAll block.values (.start machine) with
  | stuck => simp [whole] at evaluates
  | left left machine =>
      rw [whole] at ends evaluates
      cases evaluates
      exact ends
  | next state =>
      rw [whole] at ends evaluates
      obtain ⟨pc, -, same⟩ := Option.map_eq_some_iff.mp evaluates
      cases same
      exact moves state.machine pc ends

section Holds

variable {holds : Machine β → Prop}
  (quiet : ∀ before after, Quiet before after → holds before → holds after)
  {values : List (ValueId × Value)} {state : Evaluation β}

include quiet

private theorem evaluate_holds {value : Value} {id : ValueId} {next : Evaluation β}
    (evaluates : value.evaluate id state = .next next)
    (effects : ∀ event ∈ Effect.events (Effect.ofKind? value.kind) state.machine next.machine,
      holds event.before → holds event.after) (initial : holds state.machine) :
    holds next.machine := by
  cases effect : Effect.ofKind? value.kind with
  | none => exact quiet _ _ (value.evaluate_quiet evaluates effect) initial
  | some named =>
      exact effects ⟨named, state.machine, next.machine⟩ (by simp [Effect.events, effect]) initial

theorem evaluateAll_ends
    (effects : ∀ event ∈ events values state, holds event.before → holds event.after)
    (initial : holds state.machine) : (evaluateAll values state).Ends holds := by
  induction values generalizing state with
  | nil => exact initial
  | cons head rest ih =>
      obtain ⟨id, value⟩ := head
      rw [evaluateAll]
      cases evaluates : value.evaluate id state with
      | left retired machine => exact quiet _ _ (value.evaluate_left evaluates) initial
      | stuck => trivial
      | next next =>
          simp only [events, evaluates, List.mem_append] at effects
          exact ih (fun event member => effects event (.inr member))
            (evaluate_holds quiet evaluates (fun event member => effects event (.inl member)) initial)

/-- What a block leaves behind has every property that quiet changes and its effects keep. -/
theorem Block.evaluate_ends {block : Block} {machine after : Machine β} {retired count : BitVec 32}
    (effects : ∀ event ∈ block.events machine, holds event.before → holds event.after)
    (initial : holds machine) (evaluates : block.evaluate retired machine = some (count, after)) :
    holds after :=
  Block.evaluate_of_ends (evaluateAll_ends quiet effects initial)
    (fun machine _ => quiet machine _ ⟨rfl, rfl, rfl⟩) evaluates

end Holds

section Zero

omit [LawfulBus β]

omit [Bus β] in
private theorem flush_zero (state : Evaluation β) (entries : List (GuestRegister × ValueId)) :
    (state.flush entries).cpu.readGpr 0 = state.machine.cpu.readGpr 0 := by
  have same (cpu : CpuState) : (entries.foldl
      (fun cpu entry => cpu.writeGuest entry.1 (state.cells entry.2)) cpu).readGpr 0 =
        cpu.readGpr 0 := by
    induction entries generalizing cpu with
    | nil => rfl
    | cons entry rest ih => rw [List.foldl_cons, ih, CpuState.readGpr_zero_writeGuest]
  exact same state.machine.cpu

omit [Bus β] in
private theorem leave_zero (state : Evaluation β) (site : Option ExitSite)
    {finish : ExitSite → Machine β → Machine β}
    (same : ∀ site machine, (finish site machine).cpu.gpr = machine.cpu.gpr) :
    (state.leave site finish).Ends fun machine =>
      machine.cpu.readGpr 0 = state.machine.cpu.readGpr 0 := by
  cases site with
  | none => trivial
  | some site =>
      refine Eq.trans ?_ (flush_zero state site.flush)
      simp only [CpuState.readGpr, same]

/-- No value writes the zero register. -/
theorem Value.evaluate_zero (value : Value) (id : ValueId) (state : Evaluation β) :
    (value.evaluate id state).Ends fun machine =>
      machine.cpu.readGpr 0 = state.machine.cpu.readGpr 0 := by
  obtain ⟨kind, site⟩ := value
  rcases Value.evaluate_cases ⟨kind, site⟩ id state with
    ⟨next, proceeds, evaluates⟩ | ⟨machine, finish, departs, evaluates⟩
  · rw [evaluates]
    cases proceeds with
    | flushRegister => exact CpuState.readGpr_zero_writeGuest _ _ _
    | @storeState field => cases field <;> rfl
    | call called => exact congrArg (RegisterFile.read · 0) (Machine.callRoutine_gpr called)
    | _ => rfl
  · rw [evaluates]
    cases departs with
    | overflow | translate | exception | branch => exact leave_zero state site fun _ _ => rfl
    | call called =>
        rw [Machine.callRoutine_error called]
        exact leave_zero state site fun _ _ => rfl

theorem evaluateAll_zero (values : List (ValueId × Value)) (state : Evaluation β) :
    (evaluateAll values state).Ends fun machine =>
      machine.cpu.readGpr 0 = state.machine.cpu.readGpr 0 := by
  induction values generalizing state with
  | nil => rfl
  | cons head rest ih =>
      obtain ⟨id, value⟩ := head
      have first := value.evaluate_zero id state
      rw [evaluateAll]
      cases evaluates : value.evaluate id state with
      | left retired machine =>
          rw [evaluates] at first
          exact first
      | stuck => trivial
      | next next =>
          rw [evaluates] at first
          have later := ih next
          have same : next.machine.cpu.readGpr 0 = state.machine.cpu.readGpr 0 := first
          rw [same] at later
          exact later

theorem Block.evaluate_zero {block : Block} {machine after : Machine β} {retired count : BitVec 32}
    (evaluates : block.evaluate retired machine = some (count, after)) :
    after.cpu.readGpr 0 = machine.cpu.readGpr 0 :=
  Block.evaluate_of_ends (evaluateAll_zero block.values (.start machine)) (fun _ _ zero => zero)
    evaluates

end Zero

omit [LawfulBus β] in
theorem events_append_subset {values more : List (ValueId × Value)} (state : Evaluation β) :
    events values state ⊆ events (values ++ more) state := by
  induction values generalizing state with
  | nil => simp [events]
  | cons head rest ih =>
      obtain ⟨id, value⟩ := head
      simp only [List.cons_append, events]
      cases value.evaluate id state with
      | next next =>
          refine List.append_subset.mpr ⟨List.subset_append_left _ _, ?_⟩
          exact List.Subset.trans (ih next) (List.subset_append_right _ _)
      | left retired machine => simp
      | stuck => simp

end MipsRecompiler.Ir
