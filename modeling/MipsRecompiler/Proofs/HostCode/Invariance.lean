import MipsRecompiler.Proofs.Ir.Viewing

/-!
# What code leaves of memory

Code that is malformed can stop anywhere. Also then it has touched memory by reads and writes only,
so a property of memory that these keep is kept by any code.
-/

set_option autoImplicit false

namespace MipsRecompiler.HostCode

namespace Run

variable {β α γ : Type} {holds : β → Prop} {offset : Nat}

/-- A property of memory that holds before an action holds behind it, also if it fails. -/
def Keeps (holds : β → Prop) (action : Run β α) : Prop :=
  ∀ running, holds running.machine.bus →
    match action running with
    | .ok _ next | .error _ next => holds next.machine.bus

namespace Keeps

theorem pure (value : α) : Keeps holds (pure value) :=
  fun _ initial => initial

theorem throw (corrupt : CorruptBlock) : Keeps holds (throw corrupt : Run β α) :=
  fun _ initial => initial

theorem get : Keeps holds (get : Run β (Running β)) :=
  fun _ initial => initial

theorem modify {change : Running β → Running β}
    (same : ∀ running, (change running).machine.bus = running.machine.bus) :
    Keeps holds (modify change) := by
  intro running initial
  have kept : holds (change running).machine.bus := by
    rw [same]
    exact initial
  exact kept

theorem bind {action : Run β α} {rest : α → Run β γ} (first : Keeps holds action)
    (others : ∀ value, Keeps holds (rest value)) : Keeps holds (action >>= rest) := by
  intro running initial
  have middle := first running initial
  simp only [Bind.bind, EStateM.bind]
  cases does : action running with
  | ok value next =>
      rw [does] at middle
      exact others value next middle
  | error corrupt next =>
      rw [does] at middle
      exact middle

theorem mapM {items : List α} {action : α → Run β γ} (each : ∀ item, Keeps holds (action item)) :
    Keeps holds (items.mapM action) := by
  induction items with
  | nil => exact .pure _
  | cons item rest ih =>
      rw [List.mapM_cons]
      exact (each item).bind fun _ => ih.bind fun _ => .pure _

theorem forIn {items : List α} {start : γ} {action : α → γ → Run β (ForInStep γ)}
    (each : ∀ item value, Keeps holds (action item value)) :
    Keeps holds (ForIn.forIn items start action) := by
  induction items generalizing start with
  | nil => exact .pure _
  | cons item rest ih =>
      rw [List.forIn_cons]
      refine (each item start).bind fun step => ?_
      cases step with
      | done value => exact .pure _
      | yield value => exact ih

/-! ## Actions that do not touch memory -/

theorem require (value : Option α) : Keeps holds (require offset value) := by
  cases value with
  | none => exact .throw _
  | some value => exact .pure value

theorem read (operand : Operand) : Keeps holds (read offset operand) :=
  get.bind fun _ => .require _

theorem write (target : Operand) (value : DoubleWord) : Keeps holds (write offset target value) :=
  get.bind fun _ => (Keeps.require _).bind fun _ => .modify fun _ => rfl

theorem changeCpu (change : CpuState → CpuState) : Keeps holds (changeCpu change) :=
  .modify fun _ => rfl

theorem setExitPc (pc : DoubleWord) : Keeps holds (setExitPc pc) :=
  .modify fun _ => rfl

theorem leave (site : Ir.Site PackedFlush) : Keeps holds (leave offset site) := by
  refine (forIn fun entry _ => ?_).bind fun _ => .pure _
  cases entry with
  | ok entry => exact (Keeps.read _).bind fun _ => (Keeps.changeCpu _).bind fun _ => .pure _
  | error corrupt => exact .throw _

theorem raise (site : Ir.Site PackedFlush) (exception : ExceptionDescriptor) :
    Keeps holds (raise offset site exception) :=
  (Keeps.leave site).bind fun _ => (Keeps.changeCpu _).bind fun _ => .pure _

/-! ## Actions that do -/

variable [Bus β] (invariant : BusInvariant holds)

include invariant

theorem readBus (address : DoubleWord) (size : AccessSize) : Keeps holds (readBus address size) :=
  fun running initial => invariant.read running.machine.bus _ size initial

theorem writeBus (address : DoubleWord) (size : AccessSize) (value : DoubleWord) :
    Keeps holds (writeBus address size value) :=
  fun running initial => invariant.write running.machine.bus _ size value initial

private theorem similar :
    Machine.Similar fun first second : Machine β => second = first ∧ holds first.bus where
  tlb := fun ⟨same, _⟩ => same ▸ rfl
  control := fun ⟨same, _⟩ => same ▸ rfl
  llBit := fun ⟨same, _⟩ => same ▸ rfl
  answer := fun ⟨same, _⟩ _ _ => same ▸ rfl
  read := by
    rintro _ _ ⟨rfl, initial⟩ physical size
    exact ⟨rfl, invariant.read _ physical size initial⟩
  write := by
    rintro _ _ ⟨rfl, initial⟩ physical size value
    exact ⟨rfl, invariant.write _ physical size value initial⟩
  system := by
    rintro _ _ ⟨rfl, initial⟩ _ _ _
    exact ⟨rfl, initial⟩

theorem callRoutine (routine : Ir.Routine) (arguments : List DoubleWord) :
    Keeps holds (access (Machine.callRoutine routine arguments)) := by
  intro running initial
  have called := (similar invariant).callRoutine routine arguments running.machine
    running.machine ⟨rfl, initial⟩
  simp only [access]
  cases does : Machine.callRoutine routine arguments running.machine with
  | ok value machine =>
      rw [does] at called
      cases called with
      | ok after => exact after.2
  | error fault machine =>
      rw [does] at called
      cases called with
      | error after => exact after.2

theorem perform (op : ReadOp) : Keeps holds (perform offset op) := by
  unfold Run.perform
  cases op with
  | move target source | not target source =>
      exact (Keeps.read _).bind fun _ => (Keeps.write _ _).bind fun _ => .pure _
  | cast type target source =>
      exact (Keeps.read _).bind fun _ => (Keeps.write _ _).bind fun _ => .pure _
  | loadGuest target reg =>
      exact get.bind fun _ => (Keeps.write _ _).bind fun _ => .pure _
  | flushGuest reg source =>
      exact (Keeps.read _).bind fun _ => (Keeps.changeCpu _).bind fun _ => .pure _
  | binary op target lhs rhs site =>
      refine (Keeps.read _).bind fun a => (Keeps.read _).bind fun b => ?_
      cases op.eval? a b with
      | some value => exact (Keeps.write _ _).bind fun _ => .pure _
      | none => exact (Keeps.require _).bind fun _ => .raise _ _
  | shift op width target value amount =>
      exact (Keeps.read _).bind fun _ => (Keeps.read _).bind fun _ =>
        (Keeps.write _ _).bind fun _ => .pure _
  | check mode target lhs rhs =>
      exact (Keeps.read _).bind fun _ => (Keeps.read _).bind fun _ =>
        (Keeps.write _ _).bind fun _ => .pure _
  | translate kind size target address site =>
      refine (Keeps.require _).bind fun size => (Keeps.read _).bind fun address =>
        get.bind fun running => ?_
      cases running.machine.translate address kind size with
      | ok physical => exact (Keeps.write _ _).bind fun _ => .pure _
      | error fault => exact .raise _ _
  | load type target address =>
      exact (Keeps.read _).bind fun _ => (Keeps.readBus invariant _ _).bind fun _ =>
        (Keeps.write _ _).bind fun _ => .pure _
  | store size address value =>
      exact (Keeps.require _).bind fun _ => (Keeps.read _).bind fun _ =>
        (Keeps.read _).bind fun _ => (Keeps.writeBus invariant _ _ _).bind fun _ => .pure _
  | loadState field target =>
      exact get.bind fun _ => (Keeps.write _ _).bind fun _ => .pure _
  | storeState field source =>
      exact (Keeps.read _).bind fun _ => (Keeps.changeCpu _).bind fun _ => .pure _
  | mulDiv op lhs rhs =>
      exact (Keeps.read _).bind fun _ => (Keeps.read _).bind fun _ =>
        (Keeps.changeCpu _).bind fun _ => .pure _
  | setExitPc pc =>
      exact (Keeps.read _).bind fun _ => (Keeps.setExitPc _).bind fun _ => .pure _
  | setExitPcIf condition whenTrue whenFalse =>
      exact (Keeps.read _).bind fun _ => (Keeps.read _).bind fun _ =>
        (Keeps.setExitPc _).bind fun _ => .pure _
  | exitIf condition exit site =>
      refine (Keeps.read _).bind fun value => ?_
      split
      · exact .pure _
      · cases exit with
        | exception descriptor => exact .raise _ _
        | branch pc =>
            exact (Keeps.leave _).bind fun _ => (Keeps.changeCpu _).bind fun _ => .pure _
  | call code target arguments site =>
      refine (mapM Keeps.read).bind fun values => (Keeps.require _).bind fun routine =>
        (Keeps.callRoutine invariant routine values).bind fun result => ?_
      cases result with
      | error fault => exact (Keeps.require _).bind fun _ => .raise _ _
      | ok result =>
          cases target with
          | none => exact .pure _
          | some target => exact (Keeps.write _ _).bind fun _ => .pure _
  | floatBinary op format target lhs rhs =>
      exact (Keeps.read _).bind fun _ => (Keeps.read _).bind fun _ =>
        (Keeps.write _ _).bind fun _ => .pure _
  | floatUnary op format target source =>
      exact (Keeps.read _).bind fun _ => (Keeps.write _ _).bind fun _ => .pure _
  | floatConvert source target mode result operand =>
      exact (Keeps.read _).bind fun _ => (Keeps.write _ _).bind fun _ => .pure _
  | floatCompare condition format lhs rhs =>
      exact (Keeps.read _).bind fun _ => (Keeps.read _).bind fun _ =>
        (Keeps.changeCpu _).bind fun _ => .pure _
  | finish retired =>
      exact get.bind fun _ => (Keeps.require _).bind fun _ =>
        (Keeps.changeCpu _).bind fun _ => .pure _

theorem performAll (items : List Item) : Keeps holds (performAll items) := by
  induction items with
  | nil => exact .throw _
  | cons item items ih =>
      unfold Run.performAll
      cases item.op with
      | error corrupt => exact .throw _
      | ok op =>
          refine (Keeps.perform invariant op).bind fun left => ?_
          cases left with
          | some retired => exact .pure _
          | none => exact ih

end Keeps

end Run

variable {β : Type} [Bus β] {holds : β → Prop}

/-- What reads and writes keep of memory, all code keeps, also if it is malformed. -/
theorem execute_keeps (invariant : BusInvariant holds) (code : List UInt8) (machine : Machine β)
    (initial : holds machine.bus) : holds (execute code machine).2.bus := by
  unfold execute
  cases Program.read code with
  | error corrupt => exact initial
  | ok program =>
      let start : Running β := { frame := .ofSpillSlots program.spillSlots, machine }
      have keeps := Run.Keeps.performAll invariant program.items start initial
      dsimp only
      cases performs : Run.performAll program.items start with
      | ok retired running =>
          rw [performs] at keeps
          exact keeps
      | error corrupt running =>
          rw [performs] at keeps
          exact keeps

end MipsRecompiler.HostCode
