import MipsRecompiler.Proofs.Ir.Evaluation
import MipsRecompiler.Proofs.Memory.Similar

/-!
# Blocks on other buses

A block cannot tell a bus from a view of it that answers and is written in the same way.
-/

set_option autoImplicit false

namespace MipsRecompiler

variable {β γ : Type} [Bus β] [Bus γ]

/-- A view of a bus, which answers and is written as the bus is. -/
structure BusView (view : β → γ) : Prop where
  read : ∀ bus physical size, Bus.read (view bus) physical size =
    ((Bus.read bus physical size).1, view (Bus.read bus physical size).2)
  write : ∀ bus physical size value, Bus.write (view bus) physical size value =
    view (Bus.write bus physical size value)

/-- The machine with a view of its bus. -/
def Machine.viewed {β γ : Type} (view : β → γ) (machine : Machine β) : Machine γ :=
  { cpu := machine.cpu, tlb := machine.tlb, bus := view machine.bus }

def Event.viewed {β γ : Type} (view : β → γ) (event : Event β) : Event γ :=
  { effect := event.effect, before := event.before.viewed view, after := event.after.viewed view }

/-- A read or a write of physical memory. -/
inductive BusAccess where
  | read (physical : Word) (size : AccessSize)
  | write (physical : Word) (size : AccessSize) (value : DoubleWord)
  deriving DecidableEq, Repr

/-- A bus, and the accesses that it has seen, in order. -/
structure RecordedBus (β : Type) where
  bus : β
  accesses : List BusAccess

instance : Bus (RecordedBus β) where
  read recorded physical size :=
    ((Bus.read recorded.bus physical size).1,
      { bus := (Bus.read recorded.bus physical size).2
        accesses := recorded.accesses ++ [.read physical size] })
  write recorded physical size value :=
    { bus := Bus.write recorded.bus physical size value
      accesses := recorded.accesses ++ [.write physical size value] }

theorem RecordedBus.view : BusView (RecordedBus.bus : RecordedBus β → β) :=
  ⟨fun _ _ _ => rfl, fun _ _ _ _ => rfl⟩

/-- The machine with a bus that records its accesses from now on. -/
def Machine.recording {β : Type} (machine : Machine β) : Machine (RecordedBus β) :=
  machine.viewed fun bus => { bus, accesses := [] }

/-- A property of a bus that accesses keep. -/
structure BusInvariant (holds : β → Prop) : Prop where
  read : ∀ bus physical size, holds bus → holds (Bus.read bus physical size).2
  write : ∀ bus physical size value, holds bus → holds (Bus.write bus physical size value)

namespace BusInvariant

variable {holds : β → Prop}

/-- The bus that cannot lose the property. -/
abbrev bus (keeps : BusInvariant holds) : Bus { bus : β // holds bus } where
  read bus physical size :=
    ((Bus.read bus.1 physical size).1,
      ⟨(Bus.read bus.1 physical size).2, keeps.read bus.1 physical size bus.2⟩)
  write bus physical size value :=
    ⟨Bus.write bus.1 physical size value, keeps.write bus.1 physical size value bus.2⟩

theorem view (keeps : BusInvariant holds) :
    @BusView _ _ keeps.bus _ (Subtype.val : { bus : β // holds bus } → β) :=
  @BusView.mk _ _ keeps.bus _ _ (fun _ _ _ => rfl) fun _ _ _ _ => rfl

end BusInvariant

theorem BusView.similar {view : β → γ} (same : BusView view) :
    Machine.Similar fun first second => second = first.viewed view where
  tlb := by
    rintro _ _ rfl
    rfl
  control := by
    rintro _ _ rfl
    rfl
  llBit := by
    rintro _ _ rfl
    rfl
  answer := by
    rintro _ _ rfl physical size
    simp only [Machine.viewed, same.read]
  read := by
    rintro _ _ rfl physical size
    simp only [Machine.viewed, same.read]
  write := by
    rintro _ _ rfl physical size value
    simp only [Machine.viewed, same.write]
  system := by
    rintro _ _ rfl tlb llBit control
    rfl

namespace Ir

variable {view : β → γ}

def Evaluation.viewed {β γ : Type} (view : β → γ) (state : Evaluation β) : Evaluation γ :=
  { cells := state.cells, exitPc := state.exitPc, machine := state.machine.viewed view }

def Outcome.viewed {β γ : Type} (view : β → γ) : Outcome β → Outcome γ
  | .next state => .next (state.viewed view)
  | .left retired machine => .left retired (machine.viewed view)
  | .stuck => .stuck

def Ending.viewed {β γ : Type} (view : β → γ) : Ending β → Ending γ
  | .finished exitPc machine => .finished exitPc (machine.viewed view)
  | .left exit retired machine => .left exit retired (machine.viewed view)
  | .stuck => .stuck

omit [Bus β] [Bus γ] in
private theorem leave_viewed (state : Evaluation β) (site : Option ExitSite)
    {finish : ExitSite → Machine β → Machine β} {other : ExitSite → Machine γ → Machine γ}
    (same : ∀ site machine, other site (machine.viewed view) = (finish site machine).viewed view) :
    (state.viewed view).leave site other = (state.leave site finish).viewed view := by
  cases site with
  | none => rfl
  | some site =>
      simp only [Evaluation.leave, Outcome.viewed]
      rw [← same]
      rfl

theorem Value.evaluate_viewed (same : BusView view) (value : Value) (id : ValueId)
    (state : Evaluation β) :
    value.evaluate id (state.viewed view) = (value.evaluate id state).viewed view := by
  obtain ⟨kind, site⟩ := value
  have raises (state : Evaluation β) (cause : ExceptionCause) :
      (state.viewed view).raiseAt site cause = (state.raiseAt site cause).viewed view :=
    leave_viewed state site fun _ _ => rfl
  cases computed : kind.compute? state.cells state.machine.cpu with
  | some result =>
      have other : kind.compute? (state.viewed view).cells (state.viewed view).machine.cpu =
        some result := computed
      simp only [Value.evaluate, computed, other]
      rfl
  | none =>
      have other : kind.compute? (state.viewed view).cells (state.viewed view).machine.cpu =
        none := computed
      simp only [Value.evaluate, computed, other]
      cases kind with
      | binary => exact raises state _
      | translate address access size =>
          have translated : (state.viewed view).machine.translate
              ((state.viewed view).cells address) access size =
                state.machine.translate (state.cells address) access size := rfl
          simp only [translated]
          cases state.machine.translate (state.cells address) access size with
          | ok physical => rfl
          | error fault => exact raises state _
      | load type registerClass address =>
          have read := same.read state.machine.bus ((state.cells address).setWidth 32) type.size
          simp only [Evaluation.viewed, Machine.viewed, read]
          rfl
      | store size address source =>
          have write := same.write state.machine.bus ((state.cells address).setWidth 32) size
            (state.cells source)
          simp only [Evaluation.viewed, Machine.viewed, write]
          rfl
      | exitIf condition exit =>
          have decides : (state.viewed view).cells condition = state.cells condition := rfl
          simp only [decides]
          split
          · rfl
          · refine leave_viewed state site fun _ _ => ?_
            cases exit <;> rfl
      | call routine arguments =>
          have called := same.similar.callRoutine routine (arguments.toList.map state.cells) _ _
            (rfl : state.machine.viewed view = state.machine.viewed view)
          have there : Machine.callRoutine routine
              (arguments.toList.map (state.viewed view).cells) (state.viewed view).machine =
            Machine.callRoutine routine (arguments.toList.map state.cells)
              (state.machine.viewed view) := rfl
          simp only [there]
          cases first : Machine.callRoutine routine (arguments.toList.map state.cells)
              state.machine with
          | ok result machine =>
              rw [first] at called
              generalize Machine.callRoutine routine _ (state.machine.viewed view) = second at called
              cases called with
              | ok same =>
                  subst same
                  rfl
          | error fault machine =>
              rw [first] at called
              generalize Machine.callRoutine routine _ (state.machine.viewed view) = second at called
              cases called with
              | error same =>
                  subst same
                  exact raises { state with machine } _
      | _ => rfl

theorem ending_viewed (same : BusView view) (values : List (ValueId × Value))
    (state : Evaluation β) :
    ending values (state.viewed view) = (ending values state).viewed view := by
  induction values generalizing state with
  | nil => rfl
  | cons head rest ih =>
      obtain ⟨id, value⟩ := head
      rw [ending, ending, value.evaluate_viewed same]
      cases value.evaluate id state with
      | next next => exact ih next
      | left retired machine => rfl
      | stuck => rfl

theorem events_viewed (same : BusView view) (values : List (ValueId × Value))
    (state : Evaluation β) :
    events values (state.viewed view) = (events values state).map (Event.viewed view) := by
  induction values generalizing state with
  | nil => rfl
  | cons head rest ih =>
      obtain ⟨id, value⟩ := head
      rw [events, events, value.evaluate_viewed same]
      cases value.evaluate id state with
      | next next =>
          simp only [Outcome.viewed, List.map_append, ih]
          congr 1
          cases Effect.ofKind? value.kind <;> rfl
      | left retired machine => rfl
      | stuck => rfl

theorem Block.ending_viewed (same : BusView view) (block : Block) (machine : Machine β) :
    block.ending (machine.viewed view) = (block.ending machine).viewed view :=
  Ir.ending_viewed same block.values (.start machine)

theorem Block.evaluate_viewed (same : BusView view) (block : Block) (retired : BitVec 32)
    (machine : Machine β) :
    block.evaluate retired (machine.viewed view) =
      (block.evaluate retired machine).map fun (count, after) => (count, after.viewed view) := by
  rw [evaluate_eq_ending, evaluate_eq_ending, block.ending_viewed same]
  cases block.ending machine with
  | finished exitPc machine => cases exitPc <;> rfl
  | left exit retired machine => rfl
  | stuck => rfl

theorem Block.events_viewed (same : BusView view) (block : Block) (machine : Machine β) :
    block.events (machine.viewed view) = (block.events machine).map (Event.viewed view) :=
  Ir.events_viewed same block.values (.start machine)

/-! ## Invariants of a bus -/

/-- A property of a bus that holds before evaluating a block holds behind it. -/
theorem Block.evaluate_keeps {holds : β → Prop} (keeps : BusInvariant holds) {block : Block}
    {machine after : Machine β} {retired count : BitVec 32} (initial : holds machine.bus)
    (evaluates : block.evaluate retired machine = some (count, after)) : holds after.bus := by
  let := keeps.bus
  let inner : Machine { bus : β // holds bus } :=
    { cpu := machine.cpu, tlb := machine.tlb, bus := ⟨machine.bus, initial⟩ }
  have evaluated := block.evaluate_viewed keeps.view retired inner
  have same : inner.viewed Subtype.val = machine := rfl
  rw [same, evaluates] at evaluated
  obtain ⟨⟨left, final⟩, -, pair⟩ := Option.map_eq_some_iff.mp evaluated.symm
  cases pair
  exact final.bus.property

/-! ## Recording -/

/-- The reads and writes of memory that evaluating a block makes, in order. -/
def Block.accesses (block : Block) (machine : Machine β) : List BusAccess :=
  match block.ending machine.recording with
  | .finished _ after | .left _ _ after => after.bus.accesses
  | .stuck => []

/-- Recording changes nothing else. -/
theorem Block.ending_recording (block : Block) (machine : Machine β) :
    (block.ending machine.recording).viewed RecordedBus.bus = block.ending machine :=
  (block.ending_viewed RecordedBus.view machine.recording).symm

end Ir

end MipsRecompiler
