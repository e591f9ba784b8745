import MipsRecompiler.Ir.Optimize
import MipsRecompiler.Proofs.Ir.Evaluation
import MipsRecompiler.Proofs.Ir.WellFormed

/-!
# Replacing values by constants

Folding and narrowing replace one value after the other, and neither changes what the block does:
where a value is evaluated, the cells of all constants before it hold these constants.
-/

set_option autoImplicit false

namespace MipsRecompiler.Ir

variable {β : Type} [Bus β]

theorem evaluateAll_cells_of_notMem {values : List (ValueId × Value)} {state next : Evaluation β}
    (reaches : evaluateAll values state = .next next) {id : ValueId}
    (absent : id ∉ values.map Prod.fst) : next.cells id = state.cells id := by
  induction values generalizing state with
  | nil =>
      cases reaches
      rfl
  | cons head rest ih =>
      obtain ⟨other, value⟩ := head
      simp only [List.map_cons, List.mem_cons, not_or] at absent
      simp only [evaluateAll] at reaches
      cases evaluated : value.evaluate other state with
      | next middle =>
          rw [evaluated] at reaches
          rw [ih reaches absent.2, Value.evaluate_cells_of_ne evaluated absent.1]
      | left retired machine => simp [evaluated, Outcome.andThen] at reaches
      | stuck => simp [evaluated, Outcome.andThen] at reaches

theorem evaluateAll_cells_constant {values : List (ValueId × Value)} {state next : Evaluation β}
    (reaches : evaluateAll values state = .next next) (distinct : (values.map Prod.fst).Nodup)
    {id : ValueId} {value : Value} {constant : DoubleWord} (member : (id, value) ∈ values)
    (holds : value.kind.constant? = some constant) : next.cells id = constant := by
  induction values generalizing state with
  | nil => simp at member
  | cons head rest ih =>
      obtain ⟨other, first⟩ := head
      simp only [List.map_cons, List.nodup_cons] at distinct
      simp only [evaluateAll] at reaches
      cases evaluated : first.evaluate other state with
      | next middle =>
          rw [evaluated] at reaches
          rcases List.mem_cons.mp member with same | behind
          · obtain ⟨rfl, rfl⟩ := Prod.mk.inj same
            have filled : middle.cells id = constant := by
              obtain ⟨kind, site⟩ := value
              cases kind <;> simp [Kind.constant?] at holds
              simp only [Value.evaluate, Kind.compute?, Outcome.next.injEq, holds] at evaluated
              simp [← evaluated]
            rw [evaluateAll_cells_of_notMem reaches distinct.1, filled]
          · exact ih reaches distinct.2 behind
      | left retired machine => simp [evaluated, Outcome.andThen] at reaches
      | stuck => simp [evaluated, Outcome.andThen] at reaches

/-- A value may stand for another that does the same wherever evaluation comes to it. -/
theorem evaluateAll_replace {before : List (ValueId × Value)} (behind : List (ValueId × Value))
    {id : ValueId} {value other : Value} {start : Evaluation β}
    (effect : Effect.ofKind? other.kind = Effect.ofKind? value.kind)
    (same : ∀ state, evaluateAll before start = .next state →
      other.evaluate id state = value.evaluate id state) :
    ending (before ++ (id, other) :: behind) start =
        ending (before ++ (id, value) :: behind) start ∧
      events (before ++ (id, other) :: behind) start =
        events (before ++ (id, value) :: behind) start := by
  induction before generalizing start with
  | nil =>
      have equal := same start rfl
      simp only [List.nil_append, ending, events, equal, effect, and_self]
  | cons head rest ih =>
      obtain ⟨first, firstValue⟩ := head
      simp only [List.cons_append, ending, events]
      cases evaluated : firstValue.evaluate first start with
      | next middle =>
          have later : ∀ state, evaluateAll rest middle = .next state →
              other.evaluate id state = value.evaluate id state := fun state reaches =>
            same state (by rw [evaluateAll, evaluated]; exact reaches)
          obtain ⟨ends, effects⟩ := ih later
          exact ⟨ends, by simp only [effects]⟩
      | left retired machine => exact ⟨rfl, rfl⟩
      | stuck => exact ⟨rfl, rfl⟩

/-! ## What a pass may change -/

/-- An operation that depends on its operands alone, so that a constant can stand for it. -/
def Kind.isArithmetic : Kind → Bool
  | .constant _ _ | .binary _ _ _ | .not _ | .cast _ _ | .shift _ _ _ _ | .check _ _ _ => true
  | _ => false

/-- What may stand for a value: the value itself, or a constant for an operation. -/
inductive Value.Stands (value : Value) : Value → Prop where
  | same : Stands value value
  | constant {type : ValueType} {constant : DoubleWord} {site : Option ExitSite}
      (arithmetic : value.kind.isArithmetic = true)
      (fewer : ∀ present ∈ site, value.site = some present) :
      Stands value ⟨.constant type constant, site⟩

namespace Value.Stands

variable {first second third : Value}

theorem trans (left : first.Stands second) (right : second.Stands third) : first.Stands third := by
  cases right with
  | same => exact left
  | constant arithmetic fewer =>
      cases left with
      | same => exact .constant arithmetic fewer
      | constant whole less =>
          exact .constant whole fun present member => less present (fewer present member)

theorem uses (stands : first.Stands second) {used : ValueId} (uses : used ∈ second.uses) :
    used ∈ first.uses := by
  cases stands with
  | same => exact uses
  | @constant type constant site arithmetic fewer =>
      cases site with
      | none => cases uses
      | some present =>
          rw [Value.uses, fewer present rfl]
          exact List.mem_append_right _ uses

theorem site (stands : first.Stands second) : ∀ present ∈ second.site, first.site = some present := by
  cases stands with
  | same => exact fun _ member => member
  | constant arithmetic fewer => exact fewer

theorem eq (stands : first.Stands second) (plain : first.kind.isArithmetic = false) :
    second = first := by
  cases stands with
  | same => rfl
  | constant arithmetic fewer => simp [plain] at arithmetic

/-- What can leave the block was not replaced. -/
theorem eq_of_leaves (stands : first.Stands second) (leaves : second.kind.leaves = true) :
    second = first := by
  cases stands with
  | same => rfl
  | constant arithmetic fewer => cases leaves

theorem result (stands : first.Stands second)
    (result : first.kind.resultClass?.isSome = true) :
    second.kind.resultClass?.isSome = true := by
  cases stands with
  | same => exact result
  | constant arithmetic fewer => rfl

theorem field (stands : first.Stands second) {field : StateField}
    (is : second.kind.field? = some field) : first.kind.field? = some field := by
  cases stands with
  | same => exact is
  | constant arithmetic fewer => cases is

theorem target (stands : first.Stands second) {target : ValueId × AccessSize}
    (is : second.kind.target? = some target) : first.kind.target? = some target := by
  cases stands with
  | same => exact is
  | constant arithmetic fewer => cases is

end Value.Stands

namespace Block

/-- A block that is left when values of another were replaced by constants, and removed. -/
structure Reduces (block changed : Block) : Prop where
  bound : changed.bound = block.bound
  listed : ∀ id, changed.isListed id = true → block.isListed id = true
  stands : ∀ id, changed.isListed id = true → (block.value id).Stands (changed.value id)
  /-- What a value uses stays as long as the value. -/
  closed : ∀ id, changed.isListed id = true → ∀ used ∈ (changed.value id).uses,
    block.isListed used = true → changed.isListed used = true
  /-- What has an effect beyond its result stays, but for operations that cannot trap. -/
  stays : ∀ id, block.isListed id = true → (block.kind id).isRoot = true →
    (block.kind id).isArithmetic = false → changed.isListed id = true

namespace Reduces

variable {block changed last : Block}

theorem refl (block : Block) : Reduces block block where
  bound := rfl
  listed _ present := present
  stands _ _ := .same
  closed _ _ _ _ present := present
  stays _ present _ _ := present

theorem trans (left : Reduces block changed) (right : Reduces changed last) :
    Reduces block last where
  bound := right.bound.trans left.bound
  listed id present := left.listed id (right.listed id present)
  stands id present := (left.stands id (right.listed id present)).trans (right.stands id present)
  closed id present used uses old := by
    have between := (right.stands id present).uses uses
    exact right.closed id present used uses
      (left.closed id (right.listed id present) used between old)
  stays id present root plain := by
    have between := left.stays id present root plain
    have same : changed.kind id = block.kind id :=
      congrArg Value.kind ((left.stands id between).eq plain)
    exact right.stays id between (by rw [same]; exact root) (by rw [same]; exact plain)

variable (reduces : Reduces block changed)

include reduces

theorem defined {id : ValueId} (present : changed.isListed id = true) (defined : block.Defined id) :
    changed.Defined id :=
  ⟨present, (reduces.stands id present).result defined.result⟩

theorem ordered (ordered : block.Ordered) : changed.Ordered := by
  intro entry member used uses
  obtain ⟨present, same⟩ := mem_values.mp member
  rw [same] at uses
  obtain ⟨before, defined⟩ := ordered.uses (reduces.listed _ present)
    ((reduces.stands _ present).uses uses)
  exact ⟨before, reduces.defined (reduces.closed _ present used uses defined.listed) defined⟩

theorem sited (sited : block.Sited) : changed.Sited := by
  intro entry member leaves
  obtain ⟨present, same⟩ := mem_values.mp member
  rw [same] at leaves ⊢
  have old := (reduces.stands _ present).eq_of_leaves leaves
  rw [old] at leaves ⊢
  exact sited _ (value_mem (reduces.listed _ present)) leaves

theorem continues (continues : ∃ entry ∈ block.values, entry.2.kind.continues = true) :
    ∃ entry ∈ changed.values, entry.2.kind.continues = true := by
  obtain ⟨⟨id, value⟩, member, continues⟩ := continues
  obtain ⟨present, same⟩ := mem_values.mp member
  dsimp only at present same continues
  rw [same] at continues
  have root : (block.kind id).isRoot = true ∧ (block.kind id).isArithmetic = false := by
    rw [kind]
    cases is : (block.value id).kind <;> simp_all [Kind.continues, Kind.isRoot, Kind.isArithmetic]
  have stays := reduces.stays id present root.1 root.2
  refine ⟨_, value_mem stays, ?_⟩
  rw [(reduces.stands id stays).eq root.2]
  exact continues

theorem lowerable (lowerable : block.Lowerable) : changed.Lowerable where
  ordered := reduces.ordered lowerable.ordered
  flush entry member site is := by
    obtain ⟨present, same⟩ := mem_values.mp member
    rw [same] at is
    exact lowerable.flush _ (value_mem (reduces.listed _ present)) site
      ((reduces.stands _ present).site site is)
  field entry member reg is := by
    obtain ⟨present, same⟩ := mem_values.mp member
    rw [same] at is
    exact lowerable.field _ (value_mem (reduces.listed _ present)) reg
      ((reduces.stands _ present).field is)

theorem wellFormed (formed : block.WellFormed) : changed.WellFormed := by
  have lowerable := reduces.lowerable formed.lowerable
  intro id present
  refine ⟨fun used => lowerable.ordered.uses present, lowerable.flush _ (value_mem present),
    lowerable.field _ (value_mem present), fun target is => ?_⟩
  have old := (reduces.stands id present).target is
  have fits := formed id (reduces.listed id present)
  obtain ⟨virtual, translated⟩ := fits.store target old
  have uses : target.1 ∈ (changed.value id).uses := List.mem_append_left _ (Kind.target?_mem is)
  have listed := (lowerable.ordered.uses present uses).2.listed
  refine ⟨virtual, ?_⟩
  rw [kind, (reduces.stands _ listed).eq (by rw [← kind, translated]; rfl)]
  exact translated

end Reduces

/-- Two blocks that do the same on every machine. -/
structure Equivalent (block other : Block) : Prop where
  ending : ∀ {β : Type} [Bus β] (machine : Machine β), other.ending machine = block.ending machine
  events : ∀ {β : Type} [Bus β] (machine : Machine β), other.events machine = block.events machine

theorem Equivalent.refl (block : Block) : Equivalent block block :=
  ⟨fun _ => rfl, fun _ => rfl⟩

theorem Equivalent.trans {first second third : Block} (left : Equivalent first second)
    (right : Equivalent second third) : Equivalent first third :=
  ⟨fun machine => (right.ending machine).trans (left.ending machine),
    fun machine => (right.events machine).trans (left.events machine)⟩

theorem Equivalent.evaluate {first second : Block} (same : Equivalent first second)
    (retired : BitVec 32) (machine : Machine β) :
    second.evaluate retired machine = first.evaluate retired machine := by
  rw [evaluate_eq_ending, evaluate_eq_ending, same.ending]

variable {block : Block} {id : ValueId} {value : Value}

theorem values_split (listed : block.isListed id = true) :
    ∃ before behind, block.values = before ++ (id, block.value id) :: behind ∧
      (∀ other, block.isListed other = true → other < id →
        (other, block.value other) ∈ before) ∧
      ∀ value, (block.replace id value).values = before ++ (id, value) :: behind := by
  obtain ⟨before, behind, split⟩ := List.append_of_mem (mem_ids.mpr listed)
  have sorted := block.ids_pairwise
  rw [split, List.pairwise_append, List.pairwise_cons] at sorted
  obtain ⟨-, ⟨above, -⟩, below⟩ := sorted
  refine ⟨before.map fun other => (other, block.value other),
    behind.map fun other => (other, block.value other), by simp [values, split], ?_, ?_⟩
  · intro other present earlier
    have member := mem_ids.mpr present
    rw [split] at member
    rcases List.mem_append.mp member with early | late
    · exact List.mem_map.mpr ⟨other, early, rfl⟩
    · rcases List.mem_cons.mp late with same | late
      · exact absurd earlier (by simp [same])
      · exact absurd earlier (Nat.lt_asymm (above other late))
  · intro value
    have unchanged : ∀ other, other ≠ id →
        (other, (block.replace id value).value other) = (other, block.value other) :=
      fun other differs => by rw [value_replace value listed, if_neg differs]
    rw [values, ids_replace, split, List.map_append, List.map_cons, value_replace value listed,
      if_pos rfl]
    congr 1
    · exact List.map_congr_left fun other early =>
        unchanged other (Nat.ne_of_lt (below other early id List.mem_cons_self))
    · congr 1
      exact List.map_congr_left fun other late => unchanged other (Nat.ne_of_gt (above other late))

/-- Where a value is evaluated, the cells of the constants before it hold these constants. -/
def KnowsConstants (block : Block) (id : ValueId) (cells : ValueId → DoubleWord) : Prop :=
  ∀ other constant, other < id → block.isListed other = true →
    (block.kind other).constant? = some constant → cells other = constant

/-- A value may be replaced by one that does the same where the constants are known. -/
theorem Equivalent.replace (listed : block.isListed id = true)
    (effect : Effect.ofKind? value.kind = Effect.ofKind? (block.kind id))
    (same : ∀ {β : Type} [Bus β] (state : Evaluation β), block.KnowsConstants id state.cells →
      value.evaluate id state = (block.value id).evaluate id state) :
    Equivalent block (block.replace id value) := by
  obtain ⟨before, behind, split, earlier, replaced⟩ := values_split listed
  have distinct : (before.map Prod.fst).Nodup := by
    have all : (block.values.map Prod.fst).Nodup := by
      simpa [values, Function.comp_def] using block.ids_nodup
    rw [split, List.map_append] at all
    exact (List.nodup_append.mp all).1
  have whole {β : Type} [Bus β] (machine : Machine β) :=
    evaluateAll_replace behind effect fun state
        (reaches : Ir.evaluateAll before (.start machine) = .next state) =>
      same state fun other constant less present holds =>
        evaluateAll_cells_constant reaches distinct (earlier other present less) holds
  refine ⟨fun machine => ?_, fun machine => ?_⟩
  · change Ir.ending (block.replace id value).values _ = Ir.ending block.values _
    rw [split, replaced]
    exact (whole machine).1
  · change Ir.events (block.replace id value).values _ = Ir.events block.values _
    rw [split, replaced]
    exact (whole machine).2

theorem Reduces.replace (listed : block.isListed id = true)
    (stands : (block.value id).Stands value) : Reduces block (block.replace id value) where
  bound := bound_replace block id value
  listed other present := by simpa using present
  stands other _ := by
    rw [value_replace value listed]
    split
    · rename_i same
      rw [same]
      exact stands
    · exact .same
  closed _ _ used _ present := by simpa using present
  stays other present _ _ := by simpa using present

/-! ## The passes -/

/-- A change that keeps the numbers in a block, and what it does. -/
structure Improves (block changed : Block) : Prop where
  equivalent : Equivalent block changed
  reduces : Reduces block changed
  listed : ∀ id, changed.isListed id = block.isListed id

theorem updateAll_improves {change : Block → ValueId → Option Block}
    (improves : ∀ block changed : Block, ∀ id, block.Ordered → block.isListed id = true →
      change block id = some changed → block.Improves changed)
    (ids : List ValueId) (block : Block) (ordered : block.Ordered)
    (listed : ∀ id ∈ ids, block.isListed id = true) :
    block.Improves (updateAll change block ids).2 := by
  induction ids generalizing block with
  | nil => exact ⟨.refl block, .refl block, fun _ => rfl⟩
  | cons id ids ih =>
      have now := listed id List.mem_cons_self
      have later : ∀ other ∈ ids, block.isListed other = true :=
        fun other member => listed other (List.mem_cons_of_mem id member)
      simp only [updateAll]
      cases changes : change block id with
      | none => exact ih block ordered later
      | some changed =>
          have first := improves block changed id ordered now changes
          have rest := ih changed (first.reduces.ordered ordered) fun other member => by
            rw [first.listed]
            exact later other member
          exact ⟨first.equivalent.trans rest.equivalent, first.reduces.trans rest.reduces,
            fun other => (rest.listed other).trans (first.listed other)⟩

/-- A folded operation computes its constant wherever its operands are known. -/
theorem compute?_of_evaluate? {kind : Kind} {type : ValueType} {constant : DoubleWord}
    (folds : block.evaluate? kind = some (type, constant)) {cells : ValueId → DoubleWord}
    (knows : ∀ operand ∈ kind.operands, ∀ value, (block.kind operand).constant? = some value →
      cells operand = value) (cpu : CpuState) :
    kind.compute? cells cpu = some constant := by
  cases kind with
  | binary op lhs rhs =>
      simp only [evaluate?, Option.bind_eq_bind, Option.bind_eq_some_iff, Option.pure_def] at folds
      obtain ⟨a, left, b, right, result, computes, same⟩ := folds
      simp only [Option.some.injEq, Prod.mk.injEq] at same
      rw [Kind.compute?, knows lhs (by simp [Kind.operands]) a left,
        knows rhs (by simp [Kind.operands]) b right, computes, same.2]
  | not operand =>
      simp only [evaluate?, Option.bind_eq_bind, Option.bind_eq_some_iff, Option.pure_def,
        Option.some.injEq, Prod.mk.injEq] at folds
      obtain ⟨a, known, -, same⟩ := folds
      rw [Kind.compute?, knows operand (by simp [Kind.operands]) a known, same]
  | cast target operand =>
      simp only [evaluate?, Option.bind_eq_bind, Option.bind_eq_some_iff, Option.pure_def,
        Option.some.injEq, Prod.mk.injEq] at folds
      obtain ⟨a, known, -, same⟩ := folds
      rw [Kind.compute?, knows operand (by simp [Kind.operands]) a known, same]
  | shift op width operand amount =>
      simp only [evaluate?, Option.bind_eq_bind, Option.bind_eq_some_iff, Option.pure_def,
        Option.some.injEq, Prod.mk.injEq] at folds
      obtain ⟨a, left, b, right, -, same⟩ := folds
      rw [Kind.compute?, knows operand (by simp [Kind.operands]) a left,
        knows amount (by simp [Kind.operands]) b right, same]
  | check mode lhs rhs =>
      simp only [evaluate?, Option.bind_eq_bind, Option.bind_eq_some_iff, Option.pure_def,
        Option.some.injEq, Prod.mk.injEq] at folds
      obtain ⟨a, left, b, right, -, same⟩ := folds
      rw [Kind.compute?, knows lhs (by simp [Kind.operands]) a left,
        knows rhs (by simp [Kind.operands]) b right, same]
  | _ => simp [evaluate?] at folds

theorem foldValue_improves (block changed : Block) (id : ValueId) (ordered : block.Ordered)
    (listed : block.isListed id = true) (folds : block.foldValue id = some changed) :
    block.Improves changed := by
  simp only [foldValue, Option.map_eq_some_iff] at folds
  obtain ⟨⟨type, constant⟩, evaluates, rfl⟩ := folds
  have operation : (block.kind id).isArithmetic = true ∧
      Effect.ofKind? (block.kind id) = none := by
    cases kind : block.kind id <;> rw [kind] at evaluates <;>
      simp_all [evaluate?, Kind.isArithmetic, Effect.ofKind?]
  refine ⟨.replace listed (by rw [operation.2]; rfl) fun state knows => ?_,
    .replace listed (.constant operation.1 (by simp)), fun other => isListed_replace block id other _⟩
  have computes : (block.value id).kind.compute? state.cells state.machine.cpu = some constant := by
    refine compute?_of_evaluate? evaluates (fun operand member value known => ?_) _
    have used := ordered.uses listed (List.mem_append_left _ member)
    exact knows operand value used.1 used.2.listed known
  simp only [Value.evaluate, computes]
  rfl

theorem narrowValue_improves (block changed : Block) (id : ValueId) (_ : block.Ordered)
    (listed : block.isListed id = true) (narrows : block.narrowValue id = some changed) :
    block.Improves changed := by
  simp only [narrowValue] at narrows
  cases kind : (block.value id).kind with
  | constant type constant =>
      simp only [kind, Option.ite_none_left_eq_some, Option.some.injEq] at narrows
      obtain ⟨-, rfl⟩ := narrows
      refine ⟨.replace listed (by rw [Block.kind, kind]; rfl) fun state _ => ?_,
        .replace listed (.constant (by rw [kind]; rfl) fun _ same => same),
        fun other => isListed_replace block id other _⟩
      simp only [Value.evaluate, kind]
      rfl
  | _ => simp [kind] at narrows

theorem foldConstants_improves (block : Block) (ordered : block.Ordered) :
    block.Improves block.foldConstants.2 :=
  updateAll_improves foldValue_improves block.ids block ordered fun _ member => mem_ids.mp member

theorem narrowConstants_improves (block : Block) (ordered : block.Ordered) :
    block.Improves block.narrowConstants.2 :=
  updateAll_improves narrowValue_improves block.ids block ordered fun _ member => mem_ids.mp member

end Block

end MipsRecompiler.Ir
