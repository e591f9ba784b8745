import MipsRecompiler.HostCode.Lowering

/-!
# What lowering gives

A value is lowered to the operation of its kind, with the place of its result, the places of its
operands and its exit site. Whatever is proved about the operations of a block takes one case for
every kind from here.
-/

set_option autoImplicit false

namespace MipsRecompiler.HostCode

open Ir (Block ExitSite Kind Site ValueId)

variable {block : Block} {allocation : Allocation} {id : ValueId}

theorem except_bind_ok {ε α γ : Type} {source : Except ε α} {next : α → Except ε γ} {result : γ}
    (success : (source >>= next) = .ok result) :
    ∃ value, source = .ok value ∧ next value = .ok result := by
  cases source with
  | error reason => cases success
  | ok value => exact ⟨value, rfl, success⟩

/-! ## Places and sites -/

theorem get_of_operandOf {place : Operand} (placed : operandOf block allocation id = .ok place) :
    match place with
    | .general reg => allocation.get id = .register .general reg
    | .float reg => allocation.get id = .register .float reg
    | .spill slot => ∃ kind, allocation.get id = .spilled kind slot
    | .immediate value =>
      allocation.get id = .immediate ∧ (block.kind id).constant? = some value := by
  unfold operandOf at placed
  cases got : allocation.get id with
  | none => simp [got] at placed
  | immediate =>
      simp only [got] at placed
      cases constant : (block.kind id).constant? with
      | none => simp [constant] at placed
      | some value =>
          simp only [constant, Except.ok.injEq] at placed
          subst placed
          exact ⟨rfl, rfl⟩
  | register kind reg => cases kind <;> simp only [got, Except.ok.injEq] at placed <;> subst placed <;> rfl
  | spilled kind slot =>
      simp only [got, Except.ok.injEq] at placed
      subst placed
      exact ⟨kind, rfl⟩

theorem targetOf_eq_ok {target : Operand} (placed : targetOf block allocation id = .ok target) :
    operandOf block allocation id = .ok target ∧ ∀ value, target ≠ .immediate value := by
  obtain ⟨place, held, placed⟩ := except_bind_ok placed
  cases place with
  | immediate value => cases placed
  | general | float | spill =>
      cases placed
      exact ⟨held, fun value same => by cases same⟩

theorem requiredSite_eq_ok {site : Option ExitSite} {pending : Site PendingFlush}
    (required : requiredSite block allocation id site = .ok pending) :
    ∃ present, site = some present ∧ pending = pendingSite block allocation present := by
  cases site with
  | none => cases required
  | some present =>
      cases required
      exact ⟨present, rfl, rfl⟩

theorem ofBytes?_toUInt8 (size : AccessSize) :
    AccessSize.ofBytes? size.bytes.toUInt8.toNat = some size := by
  cases size <;> rfl

/-! ## One case for every kind -/

/-- The value is lowered to this operation if it is of this kind and has this exit site. -/
inductive Lowers (block : Block) (allocation : Allocation) (id : ValueId) :
    Kind → Option ExitSite → Option PendingOp → Prop where
  | skipped {type value site} (immediate : allocation.get id = .immediate) :
      Lowers block allocation id (.constant type value) site none
  | constant {type value target site} (stored : allocation.get id ≠ .immediate)
      (placed : targetOf block allocation id = .ok target) :
      Lowers block allocation id (.constant type value) site
        (some (.move target (.ok (.immediate value))))
  | moveClass {goal operand target site} (placed : targetOf block allocation id = .ok target) :
      Lowers block allocation id (.moveClass goal operand) site
        (some (.move target (operandOf block allocation operand)))
  | loadRegister {reg target site} (placed : targetOf block allocation id = .ok target) :
      Lowers block allocation id (.loadRegister reg) site (some (.loadGuest target reg))
  | flushRegister {reg operand site} :
      Lowers block allocation id (.flushRegister reg operand) site
        (some (.flushGuest reg (operandOf block allocation operand)))
  | binary {op lhs rhs target site} (placed : targetOf block allocation id = .ok target) :
      Lowers block allocation id (.binary op lhs rhs) site
        (some (.binary op target (operandOf block allocation lhs) (operandOf block allocation rhs)
          (site.map (pendingSite block allocation))))
  | not {operand target site} (placed : targetOf block allocation id = .ok target) :
      Lowers block allocation id (.not operand) site
        (some (.not target (operandOf block allocation operand)))
  | cast {type operand target site} (placed : targetOf block allocation id = .ok target) :
      Lowers block allocation id (.cast type operand) site
        (some (.cast type target (operandOf block allocation operand)))
  | shift {op width operand amount target site}
      (placed : targetOf block allocation id = .ok target) :
      Lowers block allocation id (.shift op width operand amount) site
        (some (.shift op width target (operandOf block allocation operand)
          (operandOf block allocation amount)))
  | check {mode lhs rhs target site} (placed : targetOf block allocation id = .ok target) :
      Lowers block allocation id (.check mode lhs rhs) site
        (some (.check mode target (operandOf block allocation lhs)
          (operandOf block allocation rhs)))
  | translate {address access size target site}
      (placed : targetOf block allocation id = .ok target) :
      Lowers block allocation id (.translate address access size) (some site)
        (some (.translate access size.bytes.toUInt8 target (operandOf block allocation address)
          (pendingSite block allocation site)))
  | load {type registerClass address target site}
      (placed : targetOf block allocation id = .ok target) :
      Lowers block allocation id (.load type registerClass address) site
        (some (.load type target (operandOf block allocation address)))
  | store {size address operand site} :
      Lowers block allocation id (.store size address operand) site
        (some (.store size.bytes.toUInt8 (operandOf block allocation address)
          (operandOf block allocation operand)))
  | loadState {field target site} (placed : targetOf block allocation id = .ok target) :
      Lowers block allocation id (.loadState field) site (some (.loadState field target))
  | storeState {field operand site} :
      Lowers block allocation id (.storeState field operand) site
        (some (.storeState field (operandOf block allocation operand)))
  | mulDiv {op lhs rhs site} :
      Lowers block allocation id (.mulDiv op lhs rhs) site
        (some (.mulDiv op (operandOf block allocation lhs) (operandOf block allocation rhs)))
  | setExitPc {pc site} :
      Lowers block allocation id (.setExitPc pc) site
        (some (.setExitPc (operandOf block allocation pc)))
  | setExitPcIf {condition whenTrue whenFalse site} :
      Lowers block allocation id (.setExitPcIf condition whenTrue whenFalse) site
        (some (.setExitPcIf (operandOf block allocation condition)
          (operandOf block allocation whenTrue) (operandOf block allocation whenFalse)))
  | exitIf {condition exit site} :
      Lowers block allocation id (.exitIf condition exit) (some site)
        (some (.exitIf (operandOf block allocation condition) exit
          (pendingSite block allocation site)))
  | call {routine arguments site} {result : Option Operand}
      (has : result.isSome = routine.hasResult)
      (placed : ∀ place ∈ result, targetOf block allocation id = .ok place) :
      Lowers block allocation id (.call routine arguments) site
        (some (.call (.ofRoutine routine) result (pendingArguments block allocation arguments)
          (site.map (pendingSite block allocation))))
  | floatBinary {op format lhs rhs target site}
      (placed : targetOf block allocation id = .ok target) :
      Lowers block allocation id (.floatBinary op format lhs rhs) site
        (some (.floatBinary op format target (operandOf block allocation lhs)
          (operandOf block allocation rhs)))
  | floatUnary {op format operand target site}
      (placed : targetOf block allocation id = .ok target) :
      Lowers block allocation id (.floatUnary op format operand) site
        (some (.floatUnary op format target (operandOf block allocation operand)))
  | floatConvert {origin goal mode operand target site}
      (placed : targetOf block allocation id = .ok target) :
      Lowers block allocation id (.floatConvert origin goal mode operand) site
        (some (.floatConvert origin goal mode target (operandOf block allocation operand)))
  | floatCompare {condition format lhs rhs site} :
      Lowers block allocation id (.floatCompare condition format lhs rhs) site
        (some (.floatCompare condition format (operandOf block allocation lhs)
          (operandOf block allocation rhs)))

theorem lowers_of_lower {op : Option PendingOp} (lowered : lower block allocation id = .ok op) :
    Lowers block allocation id (block.value id).kind (block.value id).site op := by
  unfold lower at lowered
  dsimp only at lowered
  cases kind : (block.value id).kind <;> rw [kind] at lowered
  case constant =>
    dsimp only at lowered
    split at lowered
    · cases lowered
      exact .skipped ‹_›
    · obtain ⟨target, placed, same⟩ := except_bind_ok lowered
      cases same
      exact .constant ‹_› placed
  case translate =>
    obtain ⟨target, placed, lowered⟩ := except_bind_ok lowered
    obtain ⟨pending, required, same⟩ := except_bind_ok lowered
    cases same
    obtain ⟨site, present, rfl⟩ := requiredSite_eq_ok required
    rw [present]
    exact .translate placed
  case exitIf =>
    obtain ⟨pending, required, same⟩ := except_bind_ok lowered
    cases same
    obtain ⟨site, present, rfl⟩ := requiredSite_eq_ok required
    rw [present]
    exact .exitIf
  case call routine arguments =>
    dsimp only at lowered
    split at lowered
    case isTrue has =>
      obtain ⟨result, given, same⟩ := except_bind_ok lowered
      cases same
      cases placed : targetOf block allocation id with
      | error reason =>
          rw [placed] at given
          cases given
      | ok target =>
          rw [placed] at given
          cases given
          exact .call has.symm fun place mine => by rw [placed, Option.mem_some.mp mine]
    case isFalse without =>
      cases lowered
      exact .call (by simpa using without) fun place mine => by cases mine
  case flushRegister | store | storeState | mulDiv | setExitPc | setExitPcIf | floatCompare =>
    cases lowered
    constructor
  all_goals
    obtain ⟨target, placed, same⟩ := except_bind_ok lowered
    cases same
    constructor
    exact placed

theorem lower_eq_ok_iff {op : Option PendingOp} :
    lower block allocation id = .ok op ↔
      Lowers block allocation id (block.value id).kind (block.value id).site op := by
  refine ⟨lowers_of_lower, fun lowers => ?_⟩
  unfold lower
  dsimp only
  generalize (block.value id).kind = kind, (block.value id).site = site at lowers ⊢
  cases lowers with
  | skipped immediate => exact if_pos immediate
  | constant stored placed =>
      rw [placed]
      exact if_neg stored
  | @call _ _ _ result has placed =>
      cases result with
      | none =>
          simp only [← has, Option.isSome_none, Bool.false_eq_true, if_false]
          rfl
      | some place =>
          simp only [← has, Option.isSome_some, if_true, placed place rfl]
          rfl
  | flushRegister | store | storeState | mulDiv | setExitPc | setExitPcIf | exitIf | floatCompare =>
      rfl
  | _ placed =>
      rw [placed]
      rfl

end MipsRecompiler.HostCode
