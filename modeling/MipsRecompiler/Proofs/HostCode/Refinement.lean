import MipsRecompiler.Proofs.Allocation.Interference
import MipsRecompiler.Proofs.HostCode.Lowering
import MipsRecompiler.Proofs.HostCode.Reading
import MipsRecompiler.Proofs.Ir.Evaluation

/-!
# Host code does what its block says

Running the code of a block goes through the same machines as evaluating the block. Between two
operations the frame holds every value that is still used, at the place that it was given.
-/

set_option autoImplicit false

namespace MipsRecompiler.HostCode

open Ir (Arguments Block BlockExit Evaluation ExitSite GuestRegister Kind Outcome Site Value ValueId)
open Allocation (lastUseOf le_lastUseOf)

/-! ## Frames -/

namespace Frame

variable {frame next : Frame} {target : Operand} {value : DoubleWord}

theorem read?_write?_self (writes : frame.write? target value = some next) :
    next.read? target = some value := by
  cases target with
  | general reg =>
      simp only [write?] at writes
      split at writes
      · cases writes
        simp [read?, *]
      · cases writes
  | float reg =>
      simp only [write?] at writes
      split at writes
      · cases writes
        simp [read?, *]
      · cases writes
  | spill slot =>
      simp only [write?] at writes
      split at writes
      · cases writes
        simp [read?, *]
      · cases writes
  | immediate value => cases writes

theorem read?_write?_of_ne (writes : frame.write? target value = some next) {place : Operand}
    (differs : place ≠ target) : next.read? place = frame.read? place := by
  cases target with
  | general reg =>
      simp only [write?] at writes
      split at writes
      · cases writes
        cases place with
        | general other =>
            have apart : reg.toNat ≠ other.toNat := fun same =>
              differs (by rw [UInt8.toNat_inj.mp same])
            simp [read?, apart]
        | _ => rfl
      · cases writes
  | float reg =>
      simp only [write?] at writes
      split at writes
      · cases writes
        cases place with
        | float other =>
            have apart : reg.toNat ≠ other.toNat := fun same =>
              differs (by rw [UInt8.toNat_inj.mp same])
            simp [read?, apart]
        | _ => rfl
      · cases writes
  | spill slot =>
      simp only [write?] at writes
      split at writes
      · cases writes
        cases place with
        | spill other =>
            have apart : slot.toNat ≠ other.toNat := fun same =>
              differs (by rw [BitVec.eq_of_toNat_eq same])
            simp [read?, apart]
        | _ => rfl
      · cases writes
  | immediate value => cases writes

theorem write?_exitPc (writes : frame.write? target value = some next) :
    next.exitPc = frame.exitPc ∧ next.spill.size = frame.spill.size := by
  cases target <;> simp only [write?] at writes
  case immediate => cases writes
  all_goals
    split at writes
    · cases writes
      simp
    · cases writes

end Frame

/-! ## Actions that succeed -/

namespace Run

variable {β α γ : Type} {running next : Running β}

theorem bind_ok {action : Run β α} {value : α} (does : action running = .ok value next)
    (rest : α → Run β γ) : (action >>= rest) running = rest value next := by
  simp only [bind, EStateM.bind, does]

theorem read_ok {place : Operand} {value : DoubleWord}
    (reads : running.frame.read? place = some value) (offset : Nat) :
    read offset place running = .ok value running := by
  simp [read, require, reads, bind, EStateM.bind, getState, pure,
    EStateM.pure]

theorem write_ok {target : Operand} {value : DoubleWord} {frame : Frame}
    (writes : running.frame.write? target value = some frame) (offset : Nat) :
    write offset target value running = .ok () { running with frame } := by
  simp [write, require, writes, bind, EStateM.bind, getState,
    pure, EStateM.pure, modify, modifyState]

theorem require_ok {value : α} (offset : Nat) :
    (require offset (some value) : Run β α) running = .ok value running := rfl

theorem get_ok : (get : Run β (Running β)) running = .ok running running := rfl

theorem readBus_ok [Bus β] {address : DoubleWord} {size : AccessSize} :
    readBus address size running =
      let (value, bus) := Bus.read running.machine.bus (address.setWidth 32) size
      .ok value { running with machine := { running.machine with bus } } := rfl

theorem writeBus_ok [Bus β] {address : DoubleWord} {size : AccessSize} {value : DoubleWord} :
    writeBus address size value running =
      let bus := Bus.write running.machine.bus (address.setWidth 32) size value
      .ok () { running with machine := { running.machine with bus } } := rfl

theorem changeCpu_ok (change : CpuState → CpuState) :
    changeCpu change running =
      .ok () { running with machine := running.machine.mapCpu change } := rfl

theorem mapM_read_ok {places : List Operand} {values : List DoubleWord}
    (reads : List.Forall₂ (fun place value => running.frame.read? place = some value) places values)
    (offset : Nat) : places.mapM (read offset) running = .ok values running := by
  induction reads with
  | nil => rfl
  | cons first rest ih =>
      rw [List.mapM_cons, bind_ok (read_ok first offset), bind_ok ih]
      rfl

end Run

/-! ## Places -/

section Places

variable {block : Block} {allocation : Allocation} {id other : ValueId} {place target : Operand}

/-- Two values that share a place are not needed at the same time. -/
theorem lastUseOf_lt (sound : allocation.Sound block) (order : id < other)
    (first : operandOf block allocation id = .ok place)
    (second : operandOf block allocation other = .ok place)
    (stored : ∀ value, place ≠ .immediate value) : lastUseOf block id < other := by
  have one := get_of_operandOf first
  have two := get_of_operandOf second
  cases place with
  | general reg => exact sound.apart .general id other reg order one two
  | float reg => exact sound.apart .float id other reg order one two
  | spill slot =>
      obtain ⟨kind, one⟩ := one
      obtain ⟨also, two⟩ := two
      exact absurd (sound.slots kind also id other slot one two) (Nat.ne_of_lt order)
  | immediate value => exact absurd rfl (stored value)

/-- The frame of a block has a place for every result. -/
theorem write?_of_operandOf (sound : allocation.Sound block)
    (placed : operandOf block allocation id = .ok target)
    (stored : ∀ value, target ≠ .immediate value) {frame : Frame}
    (size : frame.spill.size = allocation.spillSlots) (value : DoubleWord) :
    ∃ next, frame.write? target value = some next := by
  have got := get_of_operandOf placed
  cases target with
  | general reg => exact ⟨_, by rw [Frame.write?, dif_pos (sound.register .general id reg got)]⟩
  | float reg => exact ⟨_, by rw [Frame.write?, dif_pos (sound.register .float id reg got)]⟩
  | spill slot =>
      obtain ⟨kind, got⟩ := got
      have inside : slot.toNat < frame.spill.size := size ▸ sound.slot kind id slot got
      exact ⟨_, by rw [Frame.write?, dif_pos inside]⟩
  | immediate value => exact absurd rfl (stored value)

end Places

/-! ## The frame holds what is still used -/

/-- The frame holds what the evaluation has come to, with the values before `now` done. -/
structure Agrees {β : Type} (block : Block) (allocation : Allocation) (now : ValueId)
    (state : Evaluation β) (frame : Frame) : Prop where
  exitPc : frame.exitPc = state.exitPc
  spill : frame.spill.size = allocation.spillSlots
  places : ∀ id, id < now → block.Defined id → now ≤ lastUseOf block id →
    ∀ place, operandOf block allocation id = .ok place →
      frame.read? place = some (state.cells id)

namespace Agrees

variable {β : Type} {block : Block} {allocation : Allocation} {now id : ValueId}
  {state : Evaluation β} {frame : Frame}

theorem advance {later : ValueId} (agrees : Agrees block allocation now state frame)
    (order : now ≤ later) (unlisted : ∀ id, now ≤ id → id < later → block.isListed id = false) :
    Agrees block allocation later state frame := by
  refine { agrees with places := fun id before defined used place placed => ?_ }
  have done : id < now := by
    by_contra ahead
    have absent := unlisted id (Nat.le_of_not_lt ahead) before
    rw [defined.listed] at absent
    cases absent
  exact agrees.places id done defined (Nat.le_trans order used) place placed

theorem unchanged (agrees : Agrees block allocation id state frame)
    (without : (block.kind id).resultClass? = none) (machine : Machine β)
    (exitPc : Option DoubleWord) {cells : ValueId → DoubleWord}
    (kept : ∀ other, other ≠ id → cells other = state.cells other) :
    Agrees block allocation (id + 1) ⟨cells, exitPc, machine⟩ { frame with exitPc } := by
  refine ⟨rfl, agrees.spill, fun other before defined used place placed => ?_⟩
  have differs : other ≠ id := by
    rintro rfl
    have result := defined.result
    rw [without] at result
    cases result
  have same : ({ frame with exitPc } : Frame).read? place = frame.read? place := by
    cases place <;> rfl
  rw [same]
  change _ = some (cells other)
  rw [kept other differs]
  exact agrees.places other (Nat.lt_of_le_of_ne (Nat.le_of_lt_succ before) differs) defined
    (Nat.le_of_succ_le used) place placed

theorem define (agrees : Agrees block allocation id state frame)
    (sound : allocation.Sound block) {target : Operand}
    (placed : targetOf block allocation id = .ok target) (machine : Machine β)
    (result : DoubleWord) :
    ∃ next, frame.write? target result = some next ∧
      Agrees block allocation (id + 1) ({ state with machine }.define id result) next := by
  obtain ⟨mine, stored⟩ := targetOf_eq_ok placed
  obtain ⟨next, writes⟩ := write?_of_operandOf sound mine stored agrees.spill result
  obtain ⟨exitPc, size⟩ := Frame.write?_exitPc writes
  refine ⟨next, writes, exitPc.trans agrees.exitPc, size.trans agrees.spill,
    fun other before defined used place held => ?_⟩
  by_cases same : other = id
  · subst same
    rw [mine] at held
    cases held
    rw [Frame.read?_write?_self writes, Evaluation.define_cells_self]
  · have order : other < id := Nat.lt_of_le_of_ne (Nat.le_of_lt_succ before) same
    have apart : place ≠ target := by
      rintro rfl
      exact Nat.lt_irrefl _ (Nat.lt_trans (lastUseOf_lt sound order held mine stored) used)
    rw [Frame.read?_write?_of_ne writes apart, Evaluation.define_cells_of_ne _ _ same]
    exact agrees.places other order defined (Nat.le_of_succ_le used) place held

end Agrees

/-! ## One operation -/

section Step

variable {β : Type} [Bus β] {block : Block} {allocation : Allocation} {id : ValueId}
  {state : Evaluation β} {running : Running β} {frame : Frame}

/-- An operation of the host does what evaluating a value does. Nothing is asked where the value
does not say how it leaves the block. -/
def Follows (block : Block) (allocation : Allocation) (id : ValueId) (outcome : Outcome β) :
    EStateM.Result CorruptBlock (Running β) (Option (BitVec 32)) → Prop
  | .ok none next => ∃ state, outcome = .next state ∧ next.machine = state.machine ∧
      Agrees block allocation (id + 1) state next.frame
  | .ok (some retired) next => outcome = .left retired next.machine
  | .error _ _ => outcome = .stuck

omit [Bus β] in
private theorem forIn_writeGuest {flush : List (GuestRegister × ValueId)}
    {entries : List (GuestRegister × Operand)} {cells : ValueId → DoubleWord}
    (same : flush.map (fun entry => (entry.1, operandOf block allocation entry.2)) =
      entries.map fun entry => (entry.1, .ok entry.2))
    (reads : ∀ entry ∈ flush, ∀ place, operandOf block allocation entry.2 = .ok place →
      running.frame.read? place = some (cells entry.2)) (offset : Nat) :
    (forIn (entries.map Except.ok) PUnit.unit
      fun (entry : Except CorruptBlock (GuestRegister × Operand)) _ =>
        (match entry with
        | .ok (reg, operand) => do
          let value ← Run.read offset operand
          Run.changeCpu (·.writeGuest reg value)
          return ForInStep.yield PUnit.unit
        | .error corrupt => do
          throw corrupt
          return ForInStep.yield PUnit.unit : Run β (ForInStep PUnit))) running =
      .ok PUnit.unit { running with
        machine := running.machine.mapCpu fun cpu =>
          flush.foldl (fun cpu (reg, id) => cpu.writeGuest reg (cells id)) cpu } := by
  induction flush generalizing entries running with
  | nil =>
      cases entries with
      | nil => rfl
      | cons entry rest => cases same
  | cons head rest ih =>
      obtain ⟨reg, id⟩ := head
      cases entries with
      | nil => cases same
      | cons entry entries =>
          obtain ⟨_, place⟩ := entry
          simp only [List.map_cons, List.cons.injEq, Prod.mk.injEq] at same
          obtain ⟨⟨rfl, placed⟩, same⟩ := same
          have now := reads (reg, id) List.mem_cons_self place placed
          rw [List.map_cons, List.forIn_cons]
          have body : (do
              let value ← Run.read offset place
              Run.changeCpu (·.writeGuest reg value)
              return ForInStep.yield PUnit.unit : Run β (ForInStep PUnit)) running =
              .ok (.yield PUnit.unit) { running with
                machine := running.machine.mapCpu (·.writeGuest reg (cells id)) } := by
            rw [Run.bind_ok (Run.read_ok now offset), Run.bind_ok (Run.changeCpu_ok _)]
            rfl
          rw [Run.bind_ok body]
          exact ih same fun entry member => reads entry (List.mem_cons_of_mem _ member)

/-- Everything that a step of the host relies on. -/
structure Ready (block : Block) (allocation : Allocation) (id : ValueId) (state : Evaluation β)
    (frame : Frame) : Prop where
  ordered : block.Ordered
  sound : allocation.Sound block
  listed : block.isListed id = true
  agrees : Agrees block allocation id state frame

namespace Ready

variable (ready : Ready block allocation id state frame) {kind : Kind}

include ready

omit [Bus β] in
theorem used {other : ValueId} (uses : other ∈ (block.value id).uses) {place : Operand}
    (placed : operandOf block allocation other = .ok place) :
    frame.read? place = some (state.cells other) := by
  obtain ⟨before, defined⟩ := ready.ordered.uses ready.listed uses
  exact ready.agrees.places other before defined
    (le_lastUseOf ready.listed uses defined.lt_bound) place placed

omit [Bus β] in
theorem read_ok (is : (block.value id).kind = kind) {other : ValueId}
    (uses : other ∈ kind.operands) {place : Operand}
    (placed : operandOf block allocation other = .ok place) (machine : Machine β) (offset : Nat) :
    Run.read offset place ⟨frame, machine⟩ = .ok (state.cells other) ⟨frame, machine⟩ :=
  Run.read_ok (ready.used (List.mem_append_left _ (is ▸ uses)) placed) offset

omit [Bus β] in
/-- Writing back at an exit does to the machine what the exit says. -/
theorem leave_ok {site : ExitSite} (present : (block.value id).site = some site)
    {read : Site PackedFlush} (same : SiteReads (pendingSite block allocation site) read)
    (machine : Machine β) (offset : Nat) :
    Run.leave offset read ⟨frame, machine⟩ =
      .ok site.retired ⟨frame, { state with machine }.flush site.flush⟩ := by
  obtain ⟨-, -, retired, entries, placed, packed⟩ := same
  have reads : ∀ entry ∈ site.flush, ∀ place, operandOf block allocation entry.2 = .ok place →
      frame.read? place = some (state.cells entry.2) := by
    intro entry member place placed
    refine ready.used ?_ placed
    rw [Value.uses, present]
    exact List.mem_append_right _ (List.mem_map_of_mem member)
  rw [Run.leave, packed]
  refine (Run.bind_ok (forIn_writeGuest placed reads offset) _).trans ?_
  rw [retired]
  rfl

omit [Bus β] in
theorem arguments {routine : Ir.Routine} {arguments : Arguments ValueId}
    (is : (block.value id).kind = .call routine arguments) {places : Arguments Operand}
    (placed : (pendingArguments block allocation arguments).toList = places.toList.map .ok) :
    List.Forall₂ (fun place value => frame.read? place = some value) places.toList
      (arguments.toList.map state.cells) := by
  have operands : (pendingArguments block allocation arguments).toList =
      arguments.toList.map (operandOf block allocation) := by cases arguments <;> rfl
  rw [operands] at placed
  have uses : ∀ used ∈ arguments.toList, used ∈ (block.value id).uses :=
    fun used member => List.mem_append_left _ (by rw [is]; exact member)
  generalize arguments.toList = used at placed uses
  generalize places.toList = places at placed
  induction used generalizing places with
  | nil =>
      cases places with
      | nil => exact .nil
      | cons place places => cases placed
  | cons first rest ih =>
      cases places with
      | nil => cases placed
      | cons place places =>
          injection placed with now later
          exact .cons (ready.used (uses first List.mem_cons_self) now)
            (ih (fun used member => uses used (List.mem_cons_of_mem _ member)) places later)

omit [Bus β] in
/-- Raising an exception at a site does what the site says. -/
theorem follows_raiseAt {read : Option (Site PackedFlush)}
    (same : Option.Rel SiteReads ((block.value id).site.map (pendingSite block allocation)) read)
    (machine : Machine β) (cause : ExceptionCause) (offset : Nat) :
    Follows block allocation id ({ state with machine }.raiseAt (block.value id).site cause)
      ((Run.require offset read >>= fun site => Run.raiseAt offset site cause)
        ⟨frame, machine⟩) := by
  cases present : (block.value id).site with
  | none =>
      rw [present] at same
      cases same
      rfl
  | some site =>
      rw [present] at same
      cases same with
      | some same =>
          rw [Run.bind_ok (Run.require_ok offset), Run.raiseAt, Run.raise,
            Run.bind_ok (ready.leave_ok present same machine offset),
            Run.bind_ok (Run.changeCpu_ok _)]
          simp only [Evaluation.raiseAt, Evaluation.leave, same.pc, same.delaySlot]
          rfl

omit [Bus β] in
theorem follows_define {target : Operand} (placed : targetOf block allocation id = .ok target)
    (machine : Machine β) (result : DoubleWord) (offset : Nat) :
    Follows block allocation id (.next ({ state with machine }.define id result))
      ((Run.write offset target result >>= fun _ => pure none) ⟨frame, machine⟩) := by
  obtain ⟨next, writes, agrees⟩ := ready.agrees.define ready.sound placed machine result
  have written : Run.write offset target result ⟨frame, machine⟩ = .ok () ⟨next, machine⟩ :=
    Run.write_ok writes offset
  rw [Run.bind_ok written]
  exact ⟨_, rfl, rfl, agrees⟩

theorem follows_write (is : (block.value id).kind = kind) {target : Operand}
    (placed : targetOf block allocation id = .ok target) {result : DoubleWord}
    (computes : kind.compute? state.cells state.machine.cpu = some result) (offset : Nat) :
    Follows block allocation id ((block.value id).evaluate id state)
      ((Run.write offset target result >>= fun _ => pure none) ⟨frame, state.machine⟩) := by
  have defines := ready.follows_define placed state.machine result offset
  simp only [Value.evaluate, is, computes]
  exact defines

omit [Bus β] in
/-- An operation without a result keeps the frame, whatever becomes of its cell. -/
theorem follows_unchanged (is : (block.value id).kind = kind) (without : kind.resultClass? = none)
    (machine : Machine β) {cells : ValueId → DoubleWord}
    (kept : ∀ other, other ≠ id → cells other = state.cells other) :
    Follows block allocation id (.next ⟨cells, state.exitPc, machine⟩)
      (.ok none ⟨frame, machine⟩) := by
  have agrees := ready.agrees.unchanged (by rw [Block.kind, is, without]) machine state.exitPc kept
  have same : { frame with exitPc := state.exitPc } = frame := by rw [← ready.agrees.exitPc]
  rw [same] at agrees
  exact ⟨_, rfl, rfl, agrees⟩

omit [Bus β] in
theorem follows_machine (is : (block.value id).kind = kind) (without : kind.resultClass? = none)
    (machine : Machine β) :
    Follows block allocation id (.next { state with machine }) (.ok none ⟨frame, machine⟩) :=
  ready.follows_unchanged is without machine fun _ _ => rfl

omit [Bus β] in
theorem follows_exitPc (is : (block.value id).kind = kind) (without : kind.resultClass? = none)
    (pc : DoubleWord) :
    Follows block allocation id (.next { state with exitPc := some pc })
      ((Run.setExitPc pc >>= fun _ => pure none) ⟨frame, state.machine⟩) :=
  ⟨_, rfl, rfl, ready.agrees.unchanged (by rw [Block.kind, is, without]) state.machine (some pc)
    fun _ _ => rfl⟩

/-- Where the condition of an exit does not hold, nothing happens. Where it holds, the registers are
written back before the block is left. -/
theorem follows_exitIf {condition : ValueId} {exit : BlockExit} {site : ExitSite}
    (is : (block.value id).kind = .exitIf condition exit)
    (present : (block.value id).site = some site) {test : Operand}
    (placed : operandOf block allocation condition = .ok test) {read : Site PackedFlush}
    (same : SiteReads (pendingSite block allocation site) read) (offset : Nat) :
    Follows block allocation id ((block.value id).evaluate id state)
      (Run.perform offset (.exitIf test exit read) ⟨frame, state.machine⟩) := by
  have tested := ready.read_ok is (by simp [Kind.operands]) placed state.machine offset
  have leaves := ready.leave_ok present same state.machine offset
  simp only [Value.evaluate, is, Kind.compute?, present, Evaluation.leave]
  cases exit with
  | exception descriptor =>
      rw [Run.perform, Run.bind_ok tested]
      split
      · exact ready.follows_machine is rfl _
      · rw [Run.raise, Run.bind_ok leaves, Run.bind_ok (Run.changeCpu_ok _)]
        rfl
  | branch pc =>
      rw [Run.perform, Run.bind_ok tested]
      split
      · exact ready.follows_machine is rfl _
      · rw [Run.bind_ok leaves, Run.bind_ok (Run.changeCpu_ok _)]
        rfl

/-- A routine is called on the same machine with the same arguments, and its result goes to the
place of the value, if it has one. -/
theorem follows_call {routine : Ir.Routine} {arguments : Arguments ValueId}
    (is : (block.value id).kind = .call routine arguments) {result : Option Operand}
    (has : result.isSome = routine.hasResult)
    (placed : ∀ place ∈ result, targetOf block allocation id = .ok place)
    {places : Arguments Operand}
    (sources : (pendingArguments block allocation arguments).toList = places.toList.map .ok)
    {read : Option (Site PackedFlush)}
    (same : Option.Rel SiteReads ((block.value id).site.map (pendingSite block allocation)) read)
    (offset : Nat) :
    Follows block allocation id ((block.value id).evaluate id state)
      (Run.perform offset (.call (.ofRoutine routine) result places read)
        ⟨frame, state.machine⟩) := by
  rw [Run.perform, Run.bind_ok (Run.mapM_read_ok (ready.arguments is sources) offset),
    RoutineCode.routine?_ofRoutine, Run.bind_ok (Run.require_ok offset)]
  simp only [Value.evaluate, is, Kind.compute?]
  cases called : Machine.callRoutine routine (arguments.toList.map state.cells) state.machine with
  | ok value machine =>
      have accessed : Run.access (Machine.callRoutine routine (arguments.toList.map state.cells))
          ⟨frame, state.machine⟩ = .ok (.ok value) ⟨frame, machine⟩ := by
        simp only [Run.access, called]
      rw [Run.bind_ok accessed]
      cases result with
      | some place => exact ready.follows_define (placed place rfl) machine value offset
      | none =>
          exact ready.follows_unchanged is (by rw [Kind.resultClass?, ← has]; rfl) machine
            fun other differs => Evaluation.define_cells_of_ne { state with machine } value differs
  | error fault machine =>
      have accessed : Run.access (Machine.callRoutine routine (arguments.toList.map state.cells))
          ⟨frame, state.machine⟩ = .ok (.error fault) ⟨frame, machine⟩ := by
        simp only [Run.access, called]
      rw [Run.bind_ok accessed]
      exact ready.follows_raiseAt same machine _ offset

end Ready

/-- The operation of a value does what evaluating it does. -/
theorem perform_follows (ready : Ready block allocation id state frame) {op : PendingOp}
    (lowered : lower block allocation id = .ok (some op)) {read : ReadOp}
    (reads : OpReads op read) (offset : Nat) :
    Follows block allocation id ((block.value id).evaluate id state)
      (Run.perform offset read ⟨frame, state.machine⟩) := by
  have lowers := lowers_of_lower lowered
  generalize is : (block.value id).kind = kind, exits : (block.value id).site = site at lowers
  cases lowers with
  | constant stored placed =>
      cases reads with
      | move source =>
          cases source
          exact ready.follows_write is placed rfl offset
  | moveClass placed =>
      cases reads with
      | move source =>
          rw [Run.perform, Run.bind_ok (ready.read_ok is (by simp [Kind.operands]) source _ offset)]
          exact ready.follows_write is placed rfl offset
  | loadRegister placed =>
      cases reads
      exact ready.follows_write is placed rfl offset
  | flushRegister =>
      cases reads with
      | flushGuest source =>
          rw [Run.perform, Run.bind_ok (ready.read_ok is (by simp [Kind.operands]) source _ offset),
            Run.bind_ok (Run.changeCpu_ok _)]
          simp only [Value.evaluate, is, Kind.compute?]
          exact ready.follows_machine is rfl _
  | @binary operation lhs rhs _ _ placed =>
      cases reads with
      | binary one two exit =>
          rw [Run.perform, Run.bind_ok (ready.read_ok is (by simp [Kind.operands]) one _ offset),
            Run.bind_ok (ready.read_ok is (by simp [Kind.operands]) two _ offset)]
          cases computes : operation.eval? (state.cells lhs) (state.cells rhs) with
          | some result => exact ready.follows_write is placed computes offset
          | none =>
              simp only [Value.evaluate, is, Kind.compute?, computes]
              exact ready.follows_raiseAt (exits ▸ exit) _ _ offset
  | not placed =>
      cases reads with
      | not source =>
          rw [Run.perform, Run.bind_ok (ready.read_ok is (by simp [Kind.operands]) source _ offset)]
          exact ready.follows_write is placed rfl offset
  | cast placed =>
      cases reads with
      | cast source =>
          rw [Run.perform, Run.bind_ok (ready.read_ok is (by simp [Kind.operands]) source _ offset)]
          exact ready.follows_write is placed rfl offset
  | shift placed =>
      cases reads with
      | shift one two =>
          rw [Run.perform, Run.bind_ok (ready.read_ok is (by simp [Kind.operands]) one _ offset),
            Run.bind_ok (ready.read_ok is (by simp [Kind.operands]) two _ offset)]
          exact ready.follows_write is placed rfl offset
  | check placed =>
      cases reads with
      | check one two =>
          rw [Run.perform, Run.bind_ok (ready.read_ok is (by simp [Kind.operands]) one _ offset),
            Run.bind_ok (ready.read_ok is (by simp [Kind.operands]) two _ offset)]
          exact ready.follows_write is placed rfl offset
  | @translate address access size _ _ placed =>
      cases reads with
      | translate source exit =>
          rw [Run.perform, ofBytes?_toUInt8, Run.bind_ok (Run.require_ok offset),
            Run.bind_ok (ready.read_ok is (by simp [Kind.operands]) source _ offset),
            Run.bind_ok Run.get_ok]
          simp only [Value.evaluate, is, Kind.compute?]
          cases state.machine.translate (state.cells address) access size with
          | ok physical => exact ready.follows_define placed state.machine _ offset
          | error fault =>
              exact ready.follows_raiseAt (by rw [exits]; exact .some exit) state.machine _ offset
  | load placed =>
      cases reads with
      | load source =>
          rw [Run.perform, Run.bind_ok (ready.read_ok is (by simp [Kind.operands]) source _ offset),
            Run.bind_ok Run.readBus_ok]
          simp only [Value.evaluate, is, Kind.compute?]
          exact ready.follows_define placed _ _ offset
  | store =>
      cases reads with
      | store one two =>
          rw [Run.perform, ofBytes?_toUInt8, Run.bind_ok (Run.require_ok offset),
            Run.bind_ok (ready.read_ok is (by simp [Kind.operands]) one _ offset),
            Run.bind_ok (ready.read_ok is (by simp [Kind.operands]) two _ offset),
            Run.bind_ok Run.writeBus_ok]
          simp only [Value.evaluate, is, Kind.compute?]
          exact ready.follows_machine is rfl _
  | loadState placed =>
      cases reads
      exact ready.follows_write is placed rfl offset
  | storeState =>
      cases reads with
      | storeState source =>
          rw [Run.perform, Run.bind_ok (ready.read_ok is (by simp [Kind.operands]) source _ offset),
            Run.bind_ok (Run.changeCpu_ok _)]
          simp only [Value.evaluate, is, Kind.compute?]
          exact ready.follows_machine is rfl _
  | mulDiv =>
      cases reads with
      | mulDiv one two =>
          rw [Run.perform, Run.bind_ok (ready.read_ok is (by simp [Kind.operands]) one _ offset),
            Run.bind_ok (ready.read_ok is (by simp [Kind.operands]) two _ offset)]
          simp only [Value.evaluate, is, Kind.compute?]
          rw [Run.bind_ok (Run.changeCpu_ok _)]
          exact ready.follows_machine is rfl _
  | setExitPc =>
      cases reads with
      | setExitPc source =>
          rw [Run.perform, Run.bind_ok (ready.read_ok is (by simp [Kind.operands]) source _ offset)]
          simp only [Value.evaluate, is, Kind.compute?]
          exact ready.follows_exitPc is rfl _
  | setExitPcIf =>
      cases reads with
      | setExitPcIf one two three =>
          rw [Run.perform, Run.bind_ok (ready.read_ok is (by simp [Kind.operands]) one _ offset)]
          simp only [Value.evaluate, is, Kind.compute?]
          split
          · rw [Run.bind_ok (ready.read_ok is (by simp [Kind.operands]) two _ offset)]
            exact ready.follows_exitPc is rfl _
          · rw [Run.bind_ok (ready.read_ok is (by simp [Kind.operands]) three _ offset)]
            exact ready.follows_exitPc is rfl _
  | exitIf =>
      cases reads with
      | exitIf source exit => exact ready.follows_exitIf is exits source exit offset
  | call has placed =>
      cases reads with
      | call sources exit =>
          exact ready.follows_call is has placed sources (exits ▸ exit) offset
  | floatBinary placed =>
      cases reads with
      | floatBinary one two =>
          rw [Run.perform, Run.bind_ok (ready.read_ok is (by simp [Kind.operands]) one _ offset),
            Run.bind_ok (ready.read_ok is (by simp [Kind.operands]) two _ offset)]
          exact ready.follows_write is placed rfl offset
  | floatUnary placed =>
      cases reads with
      | floatUnary source =>
          rw [Run.perform, Run.bind_ok (ready.read_ok is (by simp [Kind.operands]) source _ offset)]
          exact ready.follows_write is placed rfl offset
  | floatConvert placed =>
      cases reads with
      | floatConvert source =>
          rw [Run.perform, Run.bind_ok (ready.read_ok is (by simp [Kind.operands]) source _ offset)]
          exact ready.follows_write is placed rfl offset
  | floatCompare =>
      cases reads with
      | floatCompare one two =>
          rw [Run.perform, Run.bind_ok (ready.read_ok is (by simp [Kind.operands]) one _ offset),
            Run.bind_ok (ready.read_ok is (by simp [Kind.operands]) two _ offset),
            Run.bind_ok (Run.changeCpu_ok _)]
          simp only [Value.evaluate, is, Kind.compute?]
          exact ready.follows_machine is rfl _

omit [Bus β] in
theorem constant_of_lower (lowered : lower block allocation id = .ok none) :
    allocation.get id = .immediate ∧ ∃ type constant, block.kind id = .constant type constant := by
  have lowers := lowers_of_lower lowered
  rw [Block.kind]
  generalize (block.value id).kind = kind, (block.value id).site = site at lowers ⊢
  cases lowers with
  | skipped immediate => exact ⟨immediate, _, _, rfl⟩

/-- A constant that stands in the instructions that use it fills its cell without an operation. -/
theorem skip_agrees (ready : Ready block allocation id state frame)
    (lowered : lower block allocation id = .ok none) :
    ∃ next, (block.value id).evaluate id state = .next next ∧ next.machine = state.machine ∧
      Agrees block allocation (id + 1) next frame := by
  obtain ⟨immediate, type, constant, kind⟩ := constant_of_lower lowered
  have does : (block.value id).kind = .constant type constant := kind
  refine ⟨state.define id constant, by simp only [Value.evaluate, does, Kind.compute?], rfl,
    ready.agrees.exitPc, ready.agrees.spill, fun other before defined used place placed => ?_⟩
  by_cases same : other = id
  · subst same
    have got := get_of_operandOf placed
    cases place with
    | general reg => simp [immediate] at got
    | float reg => simp [immediate] at got
    | spill slot => simp [immediate] at got
    | immediate value =>
        simp only [kind, Kind.constant?, Option.some.injEq] at got
        rw [Evaluation.define_cells_self, got.2]
        rfl
  · rw [Evaluation.define_cells_of_ne _ _ same]
    exact ready.agrees.places other (Nat.lt_of_le_of_ne (Nat.le_of_lt_succ before) same)
      defined (Nat.le_of_succ_le used) place placed

omit [Bus β] in
theorem ofHostOp?_of_lower {op : PendingOp} (lowered : lower block allocation id = .ok (some op))
    {read : ReadOp} (reads : OpReads op read) :
    Effect.ofHostOp? read = Effect.ofKind? (block.kind id) := by
  have lowers := lowers_of_lower lowered
  rw [Block.kind]
  generalize (block.value id).kind = kind, (block.value id).site = site at lowers ⊢
  cases lowers <;> cases reads
  case store.store =>
    simp only [Effect.ofHostOp?, ofBytes?_toUInt8]
    rfl
  case call.call =>
    simp only [Effect.ofHostOp?, RoutineCode.routine?_ofRoutine]
    rfl
  all_goals rfl

omit [Bus β] in
/-- The operation of a value that fits can be written, and does not end the block. -/
theorem fits_of_lower {op : PendingOp} (lowered : lower block allocation id = .ok (some op))
    (flush : ∀ site ∈ (block.value id).site, site.flush.length ≤ 64)
    (field : ∀ reg, (block.value id).kind.field? = some (.control reg) → reg < 32) :
    op.Fits ∧ ∀ retired, op ≠ .finish retired := by
  have lowers := lowers_of_lower lowered
  generalize (block.value id).kind = kind, (block.value id).site = site at lowers flush field
  have written {site : ExitSite} (short : site.flush.length ≤ 64) :
      (pendingSite block allocation site).flush.length ≤ 64 := by
    simpa [pendingSite, Site.map] using short
  have optional (present : Site PendingFlush)
      (same : site.map (pendingSite block allocation) = some present) :
      present.flush.length ≤ 64 := by
    obtain ⟨site, is, rfl⟩ := Option.map_eq_some_iff.mp same
    exact written (flush site is)
  cases lowers
  case loadState | storeState => exact ⟨⟨field, by simp [HostOp.site?]⟩, by simp⟩
  case binary | call => exact ⟨⟨by simp [HostOp.field?], optional⟩, by simp⟩
  case translate | exitIf =>
    refine ⟨⟨by simp [HostOp.field?], fun present is => ?_⟩, by simp⟩
    cases is
    exact written (flush _ rfl)
  all_goals exact ⟨⟨by simp [HostOp.field?], by simp [HostOp.site?]⟩, by simp⟩

end Step

/-! ## Whole blocks -/

section Block

variable {β : Type} [Bus β] {block : Block} {allocation : Allocation}

/-- The operation of a value, if it can be lowered and has one. -/
def operation? (block : Block) (allocation : Allocation) (id : ValueId) : Option PendingOp :=
  match lower block allocation id with
  | .ok op => op
  | .error _ => none

/-- When the pieces of values are complete, they are those of their operations. -/
theorem valuePieces_complete {ids : List ValueId} {bytes : List UInt8}
    (joined : joinPieces (ids.flatMap (valuePieces block allocation)) = (bytes, none)) :
    (∀ id ∈ ids, ∃ op, lower block allocation id = .ok op) ∧
      ids.flatMap (valuePieces block allocation) =
        (ids.filterMap (operation? block allocation)).flatMap HostOp.pieces := by
  induction ids generalizing bytes with
  | nil => exact ⟨by simp, rfl⟩
  | cons id rest ih =>
      obtain ⟨first, more, one, two, rfl⟩ := joinPieces_append.mp joined
      obtain ⟨complete, same⟩ := ih two
      cases lowered : lower block allocation id with
      | error reason => simp [valuePieces, lowered, joinPieces_cons] at one
      | ok op =>
          refine ⟨fun other member => ?_, ?_⟩
          · rcases List.mem_cons.mp member with rfl | behind
            · exact ⟨op, lowered⟩
            · exact complete other behind
          · rw [List.flatMap_cons, same]
            cases op <;> simp [operation?, valuePieces, lowered]

/-- What an evaluation of all values of a block comes to, when running comes to it. -/
def EndsAs (retired : BitVec 32) (outcome : Outcome β)
    (result : EStateM.Result CorruptBlock (Running β) (BitVec 32)) : Prop :=
  match outcome with
  | .next state => ∀ pc, state.exitPc = some pc →
      ∃ frame, result = .ok retired ⟨frame, state.machine.mapCpu fun cpu => { cpu with pc }⟩
  | .left retired machine => ∃ frame, result = .ok retired ⟨frame, machine⟩
  | .stuck => True

/-- Running operations comes to what evaluating values comes to, with the same effects. -/
structure Matches (retired : BitVec 32) (values : List (ValueId × Value)) (items : List Item)
    (state : Evaluation β) (frame : Frame) : Prop where
  ends : EndsAs retired (Ir.evaluateAll values state)
    (Run.performAll items ⟨frame, state.machine⟩)
  events : Run.events items ⟨frame, state.machine⟩ = Ir.events values state

namespace Matches

variable {retired : BitVec 32} {values : List (ValueId × Value)} {item : Item} {items : List Item}
  {state : Evaluation β} {frame : Frame} {id : ValueId}

theorem finish (is : item.op = .ok (.finish retired)) (exitPc : frame.exitPc = state.exitPc) :
    Matches retired [] [item] state frame := by
  have finishes (pc : DoubleWord) (continues : frame.exitPc = some pc) :
      Run.perform item.offset (.finish retired) ⟨frame, state.machine⟩ =
        .ok (some retired) ⟨frame, state.machine.mapCpu fun cpu => { cpu with pc }⟩ := by
    rw [Run.perform, Run.bind_ok Run.get_ok, continues,
      Run.bind_ok (Run.require_ok item.offset), Run.bind_ok (Run.changeCpu_ok _)]
    rfl
  refine ⟨fun pc continues => ?_, ?_⟩
  · simp only [Run.performAll, is]
    rw [Run.bind_ok (finishes pc (exitPc.trans continues))]
    exact ⟨frame, rfl⟩
  · simp only [Run.events, is, Ir.events]
    cases continues : frame.exitPc with
    | some pc => rw [finishes pc continues]
    | none =>
        rw [Run.perform, Run.bind_ok Run.get_ok, continues]
        rfl

theorem skip {value : Value} {next : Evaluation β} (evaluates : value.evaluate id state = .next next)
    (machine : next.machine = state.machine) (silent : Effect.ofKind? value.kind = none)
    (later : Matches retired values items next frame) :
    Matches retired ((id, value) :: values) items state frame := by
  obtain ⟨ends, events⟩ := later
  rw [machine] at ends events
  constructor
  · simpa only [Ir.evaluateAll, evaluates, Outcome.andThen] using ends
  · simpa only [Ir.events, evaluates, silent, Effect.events_none, List.nil_append] using events

theorem step {read : ReadOp} (is : item.op = .ok read)
    (effect : Effect.ofHostOp? read = Effect.ofKind? (block.kind id))
    (follows : Follows block allocation id ((block.value id).evaluate id state)
      (Run.perform item.offset read ⟨frame, state.machine⟩))
    (later : ∀ {after : Evaluation β} {frame : Frame}, Agrees block allocation (id + 1) after frame →
      Matches retired values items after frame) :
    Matches retired ((id, block.value id) :: values) (item :: items) state frame := by
  rw [Block.kind] at effect
  cases performs : Run.perform item.offset read ⟨frame, state.machine⟩ with
  | error corrupt next =>
      rw [performs] at follows
      have stuck : (block.value id).evaluate id state = .stuck := follows
      constructor
      · simp only [Ir.evaluateAll, stuck, Outcome.andThen]
        trivial
      · simp only [Ir.events, Run.events, is, performs, stuck]
  | ok left next =>
      rw [performs] at follows
      cases left with
      | some retired =>
          have leaves : (block.value id).evaluate id state = .left retired next.machine := follows
          constructor
          · simp only [Ir.evaluateAll, Run.performAll, is, leaves, Outcome.andThen]
            rw [Run.bind_ok performs]
            exact ⟨next.frame, rfl⟩
          · simp only [Ir.events, Run.events, is, performs, leaves]
      | none =>
          obtain ⟨after, evaluates, machine, agrees⟩ := follows
          obtain ⟨ends, events⟩ := later agrees
          rw [← machine] at ends events
          constructor
          · simp only [Ir.evaluateAll, Run.performAll, is, evaluates, Outcome.andThen]
            rw [Run.bind_ok performs]
            exact ends
          · simp only [Ir.events, Run.events, is, performs, evaluates, effect, machine]
            rw [← machine, events]

end Matches

/-- The values in the list from `now` on, in order. -/
structure Upcoming (block : Block) (now : ValueId) (ids : List ValueId) : Prop where
  sorted : ids.Pairwise (· < ·)
  members : ∀ id, id ∈ ids ↔ now ≤ id ∧ block.isListed id = true

namespace Upcoming

variable {now id : ValueId} {ids : List ValueId}

theorem start : Upcoming block 0 block.ids :=
  ⟨block.ids_pairwise, by simp⟩

variable (upcoming : Upcoming block now (id :: ids))

include upcoming

theorem head : now ≤ id ∧ block.isListed id = true :=
  (upcoming.members id).mp List.mem_cons_self

theorem unlisted (other : ValueId) (ahead : now ≤ other) (before : other < id) :
    block.isListed other = false := by
  by_contra present
  have member := (upcoming.members other).mpr ⟨ahead, by simpa using present⟩
  rcases List.mem_cons.mp member with rfl | later
  · exact Nat.lt_irrefl _ before
  · exact Nat.lt_asymm before (List.rel_of_pairwise_cons upcoming.sorted later)

theorem tail : Upcoming block (id + 1) ids := by
  obtain ⟨above, sorted⟩ := List.pairwise_cons.mp upcoming.sorted
  refine ⟨sorted, fun other => ⟨fun member => ?_, ?_⟩⟩
  · exact ⟨above other member, ((upcoming.members other).mp (List.mem_cons_of_mem id member)).2⟩
  · rintro ⟨behind, present⟩
    have member := (upcoming.members other).mpr
      ⟨Nat.le_trans upcoming.head.1 (Nat.le_of_lt (Nat.lt_of_succ_le behind)), present⟩
    rcases List.mem_cons.mp member with rfl | later
    · exact absurd behind (Nat.not_succ_le_self _)
    · exact later

end Upcoming

/-- Running the operations of values does what evaluating the values does. -/
theorem performAll_follows (ordered : block.Ordered) (sound : allocation.Sound block)
    {retired : BitVec 32} {ids : List ValueId} {now : ValueId} {items : List Item}
    {state : Evaluation β} {frame : Frame} (upcoming : Upcoming block now ids)
    (complete : ∀ id ∈ ids, ∃ op, lower block allocation id = .ok op)
    (reads : List.Forall₂ ItemReads (ids.filterMap (operation? block allocation) ++ [.finish retired])
      items)
    (agrees : Agrees block allocation now state frame) :
    Matches retired (ids.map fun id => (id, block.value id)) items state frame := by
  induction ids generalizing now items state frame with
  | nil =>
      cases reads with
      | cons first none =>
          obtain ⟨read, is, same⟩ := first
          cases none
          cases same
          exact .finish is agrees.exitPc
  | cons id ids ih =>
      obtain ⟨ahead, listed⟩ := upcoming.head
      have agrees := agrees.advance ahead upcoming.unlisted
      have ready : Ready block allocation id state frame := ⟨ordered, sound, listed, agrees⟩
      obtain ⟨⟨op, lowered⟩, complete⟩ := List.forall_mem_cons.mp complete
      cases op with
      | none =>
          obtain ⟨next, evaluates, machine, agrees⟩ := skip_agrees ready lowered
          obtain ⟨-, type, constant, kind⟩ := constant_of_lower lowered
          rw [List.filterMap_cons_none (by simp [operation?, lowered])] at reads
          refine .skip evaluates machine ?_ (ih upcoming.tail complete reads agrees)
          rw [← Block.kind, kind]
          rfl
      | some op =>
          have mine : operation? block allocation id = some op := by simp [operation?, lowered]
          rw [List.filterMap_cons_some mine] at reads
          cases reads with
          | @cons _ item _ items first reads =>
              obtain ⟨read, is, same⟩ := first
              exact .step is (ofHostOp?_of_lower lowered same)
                (perform_follows ready lowered same item.offset)
                fun agrees => ih upcoming.tail complete reads agrees

omit [Bus β] in
/-- The code of a block is read as the operations of its values and the end of the block. -/
theorem Program.read_of_encode (lowerable : block.Lowerable) (sound : allocation.Sound block)
    {retired : BitVec 32} {code : List UInt8}
    (encoded : encode block allocation retired = (code, none)) :
    (∀ id ∈ block.ids, ∃ op, lower block allocation id = .ok op) ∧
      ∃ items, Program.read code = .ok { spillSlots := allocation.spillSlots, items } ∧
        List.Forall₂ ItemReads
          (block.ids.filterMap (operation? block allocation) ++ [.finish retired]) items := by
  simp only [encode, List.cons_append, joinPieces_cons] at encoded
  obtain ⟨_, body, header, joined, rfl⟩ := encoded
  cases header
  obtain ⟨middle, finish, written, -, -⟩ := joinPieces_append.mp joined
  obtain ⟨complete, same⟩ := valuePieces_complete written
  rw [same] at joined
  have fits : ∀ op ∈ block.ids.filterMap (operation? block allocation),
      op.Fits ∧ ∀ retired, op ≠ .finish retired := by
    intro op member
    obtain ⟨id, listed, mine⟩ := List.mem_filterMap.mp member
    obtain ⟨lowered, same⟩ := complete id listed
    simp only [operation?, same] at mine
    have member := Block.value_mem (Block.mem_ids.mp listed)
    exact fits_of_lower (by rw [same, mine]) (lowerable.flush _ member) (lowerable.field _ member)
  have slots : (BitVec.ofNat 16 allocation.spillSlots).toNat = allocation.spillSlots := by
    have limit := sound.limit
    rw [BitVec.toNat_ofNat]
    exact Nat.mod_eq_of_lt (by simp only [Allocation.maxSpillSlots] at limit; omega)
  have program := Program.read_header (BitVec.ofNat 16 allocation.spillSlots) body
  rw [slots] at program
  refine ⟨complete, _, program, readItems_of_joinPieces (fun op member => (fits op member).1)
    (fun op member => (fits op member).2) joined ?_ 2⟩
  rw [List.length_append]
  omega

/-- Where running the operations of a program comes to what evaluating a block comes to, its code
does what the block says. -/
theorem EndsAs.executes {retired count : BitVec 32} {code : List UInt8} {program : Program}
    {machine after : Machine β} (reads : Program.read code = .ok program)
    (ends : EndsAs retired (Ir.evaluateAll block.values (.start machine))
      (Run.performAll program.items ⟨.ofSpillSlots program.spillSlots, machine⟩))
    (evaluates : block.evaluate retired machine = some (count, after)) :
    execute code machine = (.ok count, after) := by
  rw [Block.evaluate] at evaluates
  rw [execute, reads]
  dsimp only
  cases reaches : Ir.evaluateAll block.values (.start machine) with
  | next state =>
      rw [reaches] at ends evaluates
      obtain ⟨pc, continues, same⟩ := Option.map_eq_some_iff.mp evaluates
      cases same
      obtain ⟨frame, performs⟩ := ends pc continues
      rw [performs]
  | left retired left =>
      rw [reaches] at ends evaluates
      cases evaluates
      obtain ⟨frame, performs⟩ := ends
      rw [performs]
  | stuck =>
      rw [reaches] at evaluates
      cases evaluates

/-- The code of a block does what the block says, and has the same effects. -/
theorem execute_of_evaluate (lowerable : block.Lowerable) (sound : allocation.Sound block)
    {retired : BitVec 32} {code : List UInt8}
    (encoded : encode block allocation retired = (code, none)) (machine : Machine β) :
    (∀ count after, block.evaluate retired machine = some (count, after) →
      execute code machine = (.ok count, after)) ∧
      events code machine = block.events machine := by
  obtain ⟨complete, items, program, reads⟩ := Program.read_of_encode lowerable sound encoded
  have agrees : Agrees block allocation 0 (.start machine)
      (.ofSpillSlots allocation.spillSlots) :=
    ⟨rfl, by simp [Frame.ofSpillSlots], fun id before => absurd before (Nat.not_lt_zero id)⟩
  have whole := performAll_follows lowerable.ordered sound .start complete reads agrees
  refine ⟨fun count after evaluates => whole.ends.executes program evaluates, ?_⟩
  rw [events, program]
  exact whole.events

end Block

end MipsRecompiler.HostCode
