import MipsRecompiler.Ir.Block
import MipsRecompiler.Proofs.Effects

/-!
# Evaluating blocks

The meaning of a block without registers for its values to share. Every value has a cell of its
own, and the listed values are evaluated in order. What a value does depends only on the cells
that it uses, and evaluating a longer block continues with what evaluating its start came to.
-/

set_option autoImplicit false

namespace MipsRecompiler.Ir

structure Evaluation (β : Type) where
  cells : ValueId → DoubleWord
  exitPc : Option DoubleWord
  machine : Machine β

/-- What evaluating values comes to. -/
inductive Outcome (β : Type) where
  | next (state : Evaluation β)
  /-- The block was left, with this many guest instructions executed. -/
  | left (retired : BitVec 32) (machine : Machine β)
  /-- A value should leave the block, and does not say how. -/
  | stuck

variable {β : Type}

namespace Outcome

def andThen (outcome : Outcome β) (rest : Evaluation β → Outcome β) : Outcome β :=
  match outcome with
  | next state => rest state
  | left retired machine => left retired machine
  | stuck => stuck

end Outcome

namespace Evaluation

def start (machine : Machine β) : Evaluation β :=
  { cells := fun _ => 0, exitPc := none, machine }

def define (state : Evaluation β) (id : ValueId) (result : DoubleWord) : Evaluation β :=
  { state with cells := fun other => if other = id then result else state.cells other }

def changeCpu (state : Evaluation β) (change : CpuState → CpuState) : Evaluation β :=
  { state with machine := state.machine.mapCpu change }

/-- The machine after registers were written back from cells. -/
def flush (state : Evaluation β) (entries : List (GuestRegister × ValueId)) : Machine β :=
  state.machine.mapCpu fun cpu =>
    entries.foldl (fun cpu (reg, id) => cpu.writeGuest reg (state.cells id)) cpu

/-- Leaves through a site. -/
def leave (state : Evaluation β) (site : Option ExitSite)
    (finish : ExitSite → Machine β → Machine β) : Outcome β :=
  match site with
  | some site => .left site.retired (finish site (state.flush site.flush))
  | none => .stuck

def raiseAt (state : Evaluation β) (site : Option ExitSite) (cause : ExceptionCause) :
    Outcome β :=
  state.leave site fun site machine =>
    machine.raise { cause, pc := site.pc, delaySlot := site.delaySlot }

@[simp] theorem start_machine (machine : Machine β) : (start machine).machine = machine := rfl

@[simp] theorem define_machine (state : Evaluation β) (id : ValueId) (result : DoubleWord) :
    (state.define id result).machine = state.machine := rfl

@[simp] theorem define_cells_self (state : Evaluation β) (id : ValueId) (result : DoubleWord) :
    (state.define id result).cells id = result := by
  simp [define]

theorem define_cells_of_ne (state : Evaluation β) {id other : ValueId} (result : DoubleWord)
    (differs : other ≠ id) : (state.define id result).cells other = state.cells other := by
  simp [define, differs]

@[simp] theorem changeCpu_machine (state : Evaluation β) (change : CpuState → CpuState) :
    (state.changeCpu change).machine = state.machine.mapCpu change := rfl

end Evaluation

/-- The result of a value that only computes. A trapping operation that overflows has none. -/
def Kind.compute? (kind : Kind) (cells : ValueId → DoubleWord) (cpu : CpuState) :
    Option DoubleWord :=
  match kind with
  | .constant _ value => some value
  | .loadRegister reg => some (cpu.readGuest reg)
  | .binary op lhs rhs => op.eval? (cells lhs) (cells rhs)
  | .not operand => some (~~~(cells operand))
  | .cast type operand => some (type.cast (cells operand))
  | .shift op width value amount => some (op.apply width (cells value) (cells amount))
  | .check mode lhs rhs => some (if mode.holds (cells lhs) (cells rhs) then 1 else 0)
  | .loadState field => some (cpu.readField field)
  | .floatBinary op format lhs rhs =>
    some (FloatingPoint.binary op format (cells lhs) (cells rhs))
  | .floatUnary op format operand => some (FloatingPoint.unary op format (cells operand))
  | .floatConvert source target mode operand =>
    some (FloatingPoint.convert source target mode (cells operand))
  | .moveClass _ operand => some (cells operand)
  | _ => none

def Value.evaluate [Bus β] (value : Value) (id : ValueId) (state : Evaluation β) : Outcome β :=
  let cells := state.cells
  match value.kind.compute? cells state.machine.cpu with
  | some result => .next (state.define id result)
  | none =>
    match value.kind with
    | .flushRegister reg source => .next (state.changeCpu (·.writeGuest reg (cells source)))
    | .binary _ _ _ => state.raiseAt value.site (.ofCode .overflow)
    | .translate address access size =>
      match state.machine.translate (cells address) access size with
      | .ok physical => .next (state.define id (physical.setWidth 64))
      | .error fault => state.raiseAt value.site (.ofFault fault)
    | .load type _ address =>
      let (result, bus) := Bus.read state.machine.bus ((cells address).setWidth 32) type.size
      .next ({ state with machine := { state.machine with bus } }.define id (type.cast result))
    | .store size address source =>
      let bus :=
        Bus.write state.machine.bus ((cells address).setWidth 32) size (cells source)
      .next { state with machine := { state.machine with bus } }
    | .storeState field source => .next (state.changeCpu (·.writeField field (cells source)))
    | .mulDiv op lhs rhs =>
      let (hi, lo) := op.apply (cells lhs) (cells rhs)
      .next (state.changeCpu fun cpu => { cpu with hi, lo })
    | .setExitPc pc => .next { state with exitPc := some (cells pc) }
    | .setExitPcIf condition whenTrue whenFalse =>
      let chosen := if cells condition ≠ 0 then whenTrue else whenFalse
      .next { state with exitPc := some (cells chosen) }
    | .exitIf condition exit =>
      if cells condition = 0 then .next state
      else
        state.leave value.site fun _ machine =>
          match exit with
          | .exception descriptor => machine.raise descriptor
          | .branch pc => machine.mapCpu fun cpu => { cpu with pc }
    | .call routine arguments =>
      match Machine.callRoutine routine (arguments.toList.map cells) state.machine with
      | .ok result machine => .next ({ state with machine }.define id result)
      | .error fault machine => { state with machine }.raiseAt value.site (.ofFault fault)
    | .floatCompare condition format lhs rhs =>
      let holds := FloatingPoint.compare condition.toNat format (cells lhs) (cells rhs)
      .next (state.changeCpu (·.setFloatCondition holds))
    | _ => .stuck

def evaluateAll [Bus β] : List (ValueId × Value) → Evaluation β → Outcome β
  | [], state => .next state
  | (id, value) :: rest, state => (value.evaluate id state).andThen (evaluateAll rest)

/-- How evaluating a block ends. -/
inductive Ending (β : Type) where
  | finished (exitPc : Option DoubleWord) (machine : Machine β)
  /-- At the value that left the block, with this many guest instructions executed. -/
  | left (exit : ValueId) (retired : BitVec 32) (machine : Machine β)
  | stuck

/-- How evaluating values in order ends. -/
def ending [Bus β] : List (ValueId × Value) → Evaluation β → Ending β
  | [], state => .finished state.exitPc state.machine
  | (id, value) :: rest, state =>
    match value.evaluate id state with
    | .next next => ending rest next
    | .left retired machine => .left id retired machine
    | .stuck => .stuck

/-- How many guest instructions were executed if a block counts `retired` at its end, and the
machine afterwards. -/
def Ending.result (ending : Ending β) (retired : BitVec 32) :
    Option (BitVec 32 × Machine β) :=
  match ending with
  | .finished exitPc machine =>
    exitPc.map fun pc => (retired, machine.mapCpu fun cpu => { cpu with pc })
  | .left _ retired machine => some (retired, machine)
  | .stuck => none

/-- The effects of values, up to the one that leaves the block. -/
def events [Bus β] : List (ValueId × Value) → Evaluation β → List (Event β)
  | [], _ => []
  | (id, value) :: rest, state =>
    match value.evaluate id state with
    | .next next =>
      Effect.events (Effect.ofKind? value.kind) state.machine next.machine ++ events rest next
    | _ => []

namespace Block

variable [Bus β]

/-- Evaluates a block that counts `retired` guest instructions at its end: how many were executed,
and the machine afterwards. There is no answer if the block does not say how it is left. -/
def evaluate (block : Block) (retired : BitVec 32) (machine : Machine β) :
    Option (BitVec 32 × Machine β) :=
  match evaluateAll block.values (.start machine) with
  | .next state => state.exitPc.map fun pc =>
      (retired, state.machine.mapCpu fun cpu => { cpu with pc })
  | .left retired machine => some (retired, machine)
  | .stuck => none

def ending (block : Block) (machine : Machine β) : Ending β :=
  Ir.ending block.values (.start machine)

/-- Evaluation comes to a value in this state. -/
def Reaches (block : Block) (machine : Machine β) (id : ValueId) (state : Evaluation β) : Prop :=
  ∃ before behind, block.values = before ++ (id, block.value id) :: behind ∧
    evaluateAll before (.start machine) = .next state

/-- The effects that evaluating a block has, in order. -/
def events (block : Block) (machine : Machine β) : List (Event β) :=
  Ir.events block.values (.start machine)

end Block

/-! ## Values that follow each other -/

section Sequence

variable [Bus β]

theorem evaluateAll_append (values more : List (ValueId × Value)) (state : Evaluation β) :
    evaluateAll (values ++ more) state = (evaluateAll values state).andThen (evaluateAll more) := by
  induction values generalizing state with
  | nil => rfl
  | cons head rest ih =>
      obtain ⟨id, value⟩ := head
      simp only [List.cons_append, evaluateAll]
      cases value.evaluate id state with
      | next state => exact ih state
      | left retired machine => rfl
      | stuck => rfl

theorem ending_append {values : List (ValueId × Value)} {state reached : Evaluation β}
    (reaches : evaluateAll values state = .next reached) (more : List (ValueId × Value)) :
    ending (values ++ more) state = ending more reached := by
  induction values generalizing state with
  | nil =>
      cases reaches
      rfl
  | cons head rest ih =>
      obtain ⟨id, value⟩ := head
      simp only [evaluateAll] at reaches
      simp only [List.cons_append, ending]
      cases evaluated : value.evaluate id state with
      | next next =>
          rw [evaluated] at reaches
          exact ih reaches
      | left retired machine => simp [evaluated, Outcome.andThen] at reaches
      | stuck => simp [evaluated, Outcome.andThen] at reaches

/-- What a block comes to is how it ends. -/
theorem Block.evaluate_eq_ending (block : Block) (retired : BitVec 32) (machine : Machine β) :
    block.evaluate retired machine = (block.ending machine).result retired := by
  unfold Block.evaluate Block.ending
  generalize Evaluation.start machine = state
  induction block.values generalizing state with
  | nil => rfl
  | cons head rest ih =>
      obtain ⟨id, value⟩ := head
      simp only [evaluateAll, Ir.ending]
      cases value.evaluate id state with
      | next next => exact ih next
      | left retired machine => rfl
      | stuck => rfl

end Sequence

/-! ## What a value depends on -/

/-- What a value computes depends on its operands alone. -/
theorem Kind.compute?_congr {kind : Kind} {cells others : ValueId → DoubleWord} (cpu : CpuState)
    (same : ∀ used ∈ kind.operands, others used = cells used) :
    kind.compute? others cpu = kind.compute? cells cpu := by
  cases kind <;> simp_all [Kind.compute?, Kind.operands]

/-- Two evaluations on one machine whose cells agree where `live` holds. -/
structure Evaluation.AgreeOn (live : ValueId → Prop) (first second : Evaluation β) : Prop where
  cells : ∀ id, live id → second.cells id = first.cells id
  exitPc : second.exitPc = first.exitPc
  machine : second.machine = first.machine

/-- Two outcomes that are the same but for cells where `live` fails. -/
inductive Outcome.AgreeOn (live : ValueId → Prop) : Outcome β → Outcome β → Prop where
  | next {first second : Evaluation β} :
      Evaluation.AgreeOn live first second → AgreeOn live (.next first) (.next second)
  | left {retired : BitVec 32} {machine : Machine β} :
      AgreeOn live (.left retired machine) (.left retired machine)
  | stuck : AgreeOn live .stuck .stuck

namespace Evaluation.AgreeOn

variable {live : ValueId → Prop} {first second : Evaluation β}

theorem refl (live : ValueId → Prop) (state : Evaluation β) : AgreeOn live state state :=
  ⟨fun _ _ => rfl, rfl, rfl⟩

theorem mono {fewer : ValueId → Prop} (agree : AgreeOn live first second)
    (less : ∀ id, fewer id → live id) : AgreeOn fewer first second :=
  ⟨fun id member => agree.cells id (less id member), agree.exitPc, agree.machine⟩

theorem define (agree : AgreeOn live first second) (id : ValueId) (result : DoubleWord) :
    AgreeOn (fun other => live other ∨ other = id) (first.define id result)
      (second.define id result) := by
  refine ⟨fun other member => ?_, agree.exitPc, agree.machine⟩
  by_cases same : other = id
  · simp [Evaluation.define, same]
  · simpa [Evaluation.define, same] using agree.cells other (member.resolve_right same)

theorem flush (agree : AgreeOn live first second) {entries : List (GuestRegister × ValueId)}
    (used : ∀ entry ∈ entries, live entry.2) : second.flush entries = first.flush entries := by
  have same : ∀ cpu : CpuState,
      entries.foldl (fun cpu entry => cpu.writeGuest entry.1 (second.cells entry.2)) cpu =
        entries.foldl (fun cpu entry => cpu.writeGuest entry.1 (first.cells entry.2)) cpu := by
    induction entries with
    | nil => intro cpu; rfl
    | cons entry rest ih =>
        intro cpu
        simp only [List.foldl_cons, agree.cells _ (used entry List.mem_cons_self)]
        exact ih (fun other member => used other (List.mem_cons_of_mem _ member)) _
  simp only [Evaluation.flush, agree.machine]
  exact congrArg first.machine.mapCpu (funext same)

theorem leave (agree : AgreeOn live first second) {site : Option ExitSite}
    (used : ∀ present ∈ site, ∀ entry ∈ present.flush, live entry.2)
    (finish : ExitSite → Machine β → Machine β) {others : ValueId → Prop} :
    Outcome.AgreeOn others (first.leave site finish) (second.leave site finish) := by
  cases site with
  | none => exact .stuck
  | some site =>
      simp only [Evaluation.leave, agree.flush (used site rfl)]
      exact .left

end Evaluation.AgreeOn

/-- What a value does depends only on the cells that it uses, and fills only its own. -/
theorem Value.evaluate_agreeOn [Bus β] {live : ValueId → Prop} {first second : Evaluation β}
    (agree : Evaluation.AgreeOn live first second) {value : Value}
    (used : ∀ other ∈ value.uses, live other) (id : ValueId) :
    Outcome.AgreeOn (fun other => live other ∨ (other = id ∧ value.kind.resultClass?.isSome))
      (value.evaluate id first) (value.evaluate id second) := by
  obtain ⟨kind, site⟩ := value
  obtain ⟨cells, _, _⟩ := first
  obtain ⟨others, exitPc, machine⟩ := second
  obtain ⟨same, rfl, rfl⟩ := agree
  have operands : ∀ other ∈ kind.operands, others other = cells other :=
    fun other member => same other (used other (List.mem_append_left _ member))
  have flushed : ∀ present ∈ site, ∀ entry ∈ present.flush, live entry.2 := by
    rintro present rfl entry member
    exact used _ (List.mem_append_right _ (List.mem_map_of_mem member))
  have agree (exitPc : Option DoubleWord) (machine : Machine β) :
      Evaluation.AgreeOn live ⟨cells, exitPc, machine⟩ ⟨others, exitPc, machine⟩ :=
    ⟨same, rfl, rfl⟩
  have defined (exitPc : Option DoubleWord) (machine : Machine β) (result : DoubleWord) :
      Outcome.AgreeOn (fun other => live other ∨ (other = id ∧ kind.resultClass?.isSome))
        (.next (.define ⟨cells, exitPc, machine⟩ id result))
        (.next (.define ⟨others, exitPc, machine⟩ id result)) :=
    .next (((agree exitPc machine).define id result).mono fun _ member => member.imp_right And.left)
  cases computed : kind.compute? cells machine.cpu with
  | some result =>
      simp only [Value.evaluate, kind.compute?_congr _ operands, computed]
      exact defined _ _ _
  | none =>
      have unchanged (exitPc : Option DoubleWord) (machine : Machine β)
          (without : kind.resultClass? = none) :
          Outcome.AgreeOn (fun other => live other ∨ (other = id ∧ kind.resultClass?.isSome))
            (.next ⟨cells, exitPc, machine⟩) (.next ⟨others, exitPc, machine⟩) :=
        .next ((agree exitPc machine).mono fun other => by simp [without])
      simp only [Value.evaluate, kind.compute?_congr _ operands, computed]
      cases kind with
      | constant | loadRegister | not | cast | shift | check | loadState | floatBinary
        | floatUnary | floatConvert | moveClass => simp [Kind.compute?] at computed
      | flushRegister reg source =>
          simp only [operands source (by simp [Kind.operands])]
          exact unchanged _ _ rfl
      | binary op lhs rhs => exact (agree _ _).leave flushed _
      | translate address access size =>
          simp only [operands address (by simp [Kind.operands])]
          cases machine.translate (cells address) access size with
          | ok physical => exact defined _ _ _
          | error fault => exact (agree _ _).leave flushed _
      | load type registerClass address =>
          simp only [operands address (by simp [Kind.operands])]
          exact defined _ _ _
      | store size address source =>
          simp only [operands address (by simp [Kind.operands]),
            operands source (by simp [Kind.operands])]
          exact unchanged _ _ rfl
      | storeState field source =>
          simp only [operands source (by simp [Kind.operands])]
          exact unchanged _ _ rfl
      | mulDiv op lhs rhs =>
          simp only [operands lhs (by simp [Kind.operands]),
            operands rhs (by simp [Kind.operands])]
          exact unchanged _ _ rfl
      | setExitPc pc =>
          simp only [operands pc (by simp [Kind.operands])]
          exact unchanged _ _ rfl
      | setExitPcIf condition whenTrue whenFalse =>
          have chosen : ∀ other, other = whenTrue ∨ other = whenFalse →
              others other = cells other := by
            rintro other (rfl | rfl) <;> exact operands _ (by simp [Kind.operands])
          simp only [operands condition (by simp [Kind.operands])]
          rw [chosen _ (by split <;> simp)]
          exact unchanged _ _ rfl
      | exitIf condition exit =>
          simp only [operands condition (by simp [Kind.operands])]
          split
          · exact unchanged _ _ rfl
          · exact (agree _ _).leave flushed _
      | call routine arguments =>
          have passed : arguments.toList.map others = arguments.toList.map cells :=
            List.map_congr_left operands
          simp only [passed]
          cases Machine.callRoutine routine (arguments.toList.map cells) machine with
          | ok result machine => exact defined _ _ _
          | error fault machine => exact (agree _ _).leave flushed _
      | floatCompare condition format lhs rhs =>
          simp only [operands lhs (by simp [Kind.operands]),
            operands rhs (by simp [Kind.operands])]
          exact unchanged _ _ rfl

/-! ## What evaluating a value comes to -/

/-- How evaluating a value of a kind goes on to the next value. -/
inductive Kind.Proceeds [Bus β] (id : ValueId) (state : Evaluation β) : Kind → Evaluation β → Prop where
  | compute {kind result} (computes : kind.compute? state.cells state.machine.cpu = some result) :
      Proceeds id state kind (state.define id result)
  | flushRegister {reg source} :
      Proceeds id state (.flushRegister reg source)
        (state.changeCpu (·.writeGuest reg (state.cells source)))
  | translate {address access size physical}
      (translates : state.machine.translate (state.cells address) access size = .ok physical) :
      Proceeds id state (.translate address access size)
        (state.define id (physical.setWidth 64))
  | load {type registerClass address result bus}
      (reads : Bus.read state.machine.bus ((state.cells address).setWidth 32) type.size =
        (result, bus)) :
      Proceeds id state (.load type registerClass address)
        ({ state with machine := { state.machine with bus } }.define id (type.cast result))
  | store {size address source} :
      Proceeds id state (.store size address source)
        { state with
          machine := { state.machine with
            bus := Bus.write state.machine.bus ((state.cells address).setWidth 32) size
              (state.cells source) } }
  | storeState {field source} :
      Proceeds id state (.storeState field source)
        (state.changeCpu (·.writeField field (state.cells source)))
  | mulDiv {op lhs rhs hi lo} (gives : op.apply (state.cells lhs) (state.cells rhs) = (hi, lo)) :
      Proceeds id state (.mulDiv op lhs rhs) (state.changeCpu fun cpu => { cpu with hi, lo })
  | setExitPc {pc} :
      Proceeds id state (.setExitPc pc) { state with exitPc := some (state.cells pc) }
  | setExitPcIf {condition whenTrue whenFalse} :
      Proceeds id state (.setExitPcIf condition whenTrue whenFalse)
        { state with
          exitPc := some
            (state.cells (if state.cells condition ≠ 0 then whenTrue else whenFalse)) }
  | exitIf {condition exit} (holds : state.cells condition = 0) :
      Proceeds id state (.exitIf condition exit) state
  | call {routine arguments result machine}
      (called : Machine.callRoutine routine (arguments.toList.map state.cells) state.machine =
        .ok result machine) :
      Proceeds id state (.call routine arguments) ({ state with machine }.define id result)
  | floatCompare {condition format lhs rhs} :
      Proceeds id state (.floatCompare condition format lhs rhs)
        (state.changeCpu (·.setFloatCondition
          (FloatingPoint.compare condition.toNat format (state.cells lhs) (state.cells rhs))))

/-- How a value of a kind leaves the block: the machine that it leaves with, and what happens to it
behind the write-backs. -/
inductive Kind.Departs [Bus β] (state : Evaluation β) :
    Kind → Machine β → (ExitSite → Machine β → Machine β) → Prop where
  | overflow {op lhs rhs} (overflows : op.eval? (state.cells lhs) (state.cells rhs) = none) :
      Departs state (.binary op lhs rhs) state.machine fun site machine =>
        machine.raise { cause := .ofCode .overflow, pc := site.pc, delaySlot := site.delaySlot }
  | translate {address access size fault}
      (faults : state.machine.translate (state.cells address) access size = .error fault) :
      Departs state (.translate address access size) state.machine fun site machine =>
        machine.raise { cause := .ofFault fault, pc := site.pc, delaySlot := site.delaySlot }
  | exception {condition descriptor} (holds : state.cells condition ≠ 0) :
      Departs state (.exitIf condition (.exception descriptor)) state.machine fun _ machine =>
        machine.raise descriptor
  | branch {condition pc} (holds : state.cells condition ≠ 0) :
      Departs state (.exitIf condition (.branch pc)) state.machine fun _ machine =>
        machine.mapCpu fun cpu => { cpu with pc }
  | call {routine arguments fault machine}
      (called : Machine.callRoutine routine (arguments.toList.map state.cells) state.machine =
        .error fault machine) :
      Departs state (.call routine arguments) machine fun site machine =>
        machine.raise { cause := .ofFault fault, pc := site.pc, delaySlot := site.delaySlot }

section Inversion

variable [Bus β] {value : Value} {id : ValueId} {state next : Evaluation β}

theorem Value.evaluate_cases (value : Value) (id : ValueId) (state : Evaluation β) :
    (∃ next, value.kind.Proceeds id state next ∧ value.evaluate id state = .next next) ∨
      ∃ machine finish, value.kind.Departs state machine finish ∧
        value.evaluate id state = { state with machine }.leave value.site finish := by
  obtain ⟨kind, site⟩ := value
  cases computed : kind.compute? state.cells state.machine.cpu with
  | some result => exact .inl ⟨_, .compute computed, by simp only [Value.evaluate, computed]⟩
  | none =>
      simp only [Value.evaluate, computed]
      cases kind with
      | constant | loadRegister | not | cast | shift | check | loadState | floatBinary
        | floatUnary | floatConvert | moveClass => simp [Kind.compute?] at computed
      | flushRegister => exact .inl ⟨_, .flushRegister, rfl⟩
      | binary op lhs rhs => exact .inr ⟨_, _, .overflow computed, rfl⟩
      | translate address access size =>
          cases translated : state.machine.translate (state.cells address) access size with
          | ok physical => exact .inl ⟨_, .translate translated, by simp only [translated]⟩
          | error fault =>
              exact .inr ⟨_, _, .translate translated, by simp only [translated]; rfl⟩
      | load => exact .inl ⟨_, .load rfl, rfl⟩
      | store => exact .inl ⟨_, .store, rfl⟩
      | storeState => exact .inl ⟨_, .storeState, rfl⟩
      | mulDiv => exact .inl ⟨_, .mulDiv rfl, rfl⟩
      | setExitPc => exact .inl ⟨_, .setExitPc, rfl⟩
      | setExitPcIf => exact .inl ⟨_, .setExitPcIf, rfl⟩
      | exitIf condition exit =>
          by_cases holds : state.cells condition = 0
          · exact .inl ⟨_, .exitIf holds, if_pos holds⟩
          · right
            cases exit with
            | exception descriptor => exact ⟨_, _, .exception holds, if_neg holds⟩
            | branch pc => exact ⟨_, _, .branch holds, if_neg holds⟩
      | call routine arguments =>
          cases called : Machine.callRoutine routine (arguments.toList.map state.cells)
              state.machine with
          | ok result machine => exact .inl ⟨_, .call called, by simp only [called]⟩
          | error fault machine => exact .inr ⟨_, _, .call called, by simp only [called]; rfl⟩
      | floatCompare => exact .inl ⟨_, .floatCompare, rfl⟩

theorem Value.proceeds_of_evaluate (evaluates : value.evaluate id state = .next next) :
    value.kind.Proceeds id state next := by
  rcases value.evaluate_cases id state with ⟨_, proceeds, same⟩ | ⟨machine, finish, -, same⟩
  · cases evaluates.symm.trans same
    exact proceeds
  · rw [same] at evaluates
    cases site : value.site <;> simp [Evaluation.leave, site] at evaluates

theorem Value.departs_of_evaluate {retired : BitVec 32} {left : Machine β}
    (evaluates : value.evaluate id state = .left retired left) :
    ∃ machine finish site, value.kind.Departs state machine finish ∧ value.site = some site ∧
      retired = site.retired ∧ left = finish site ({ state with machine }.flush site.flush) := by
  rcases value.evaluate_cases id state with ⟨_, -, same⟩ | ⟨machine, finish, departs, same⟩
  · cases evaluates.symm.trans same
  · rw [same] at evaluates
    cases present : value.site with
    | none =>
        rw [present] at evaluates
        cases evaluates
    | some site =>
        rw [present] at evaluates
        cases evaluates
        exact ⟨machine, finish, site, departs, rfl, rfl, rfl⟩

theorem Value.evaluate_cells_of_ne {other : ValueId}
    (evaluates : value.evaluate id state = .next next) (differs : other ≠ id) :
    next.cells other = state.cells other := by
  obtain ⟨kind, site⟩ := value
  cases Value.proceeds_of_evaluate evaluates with
  | compute | translate | load | call => exact Evaluation.define_cells_of_ne _ _ differs
  | _ => rfl

end Inversion

end MipsRecompiler.Ir
