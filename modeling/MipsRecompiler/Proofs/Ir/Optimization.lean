import MipsRecompiler.Proofs.Ir.DeadCode
import MipsRecompiler.Proofs.Ir.Totality
import MipsRecompiler.Proofs.Ir.Viewing

/-!
# Optimizing

A block that was optimized does what it did before, down to every access to memory, and there is
nothing left to do for the optimizer. Folding reaches everything in one pass because operands come
before the operations on them; removal because what a kept value uses is marked before the walk
comes to it.
-/

set_option autoImplicit false

namespace MipsRecompiler.Ir.Block

variable {block changed : Block} {id : ValueId}

/-! ## Passes that leave nothing to do -/

section Settle

variable {change : Block → ValueId → Option Block}

private theorem updateAll_of_none {ids : List ValueId}
    (nothing : ∀ id ∈ ids, change block id = none) : updateAll change block ids = (0, block) := by
  induction ids with
  | nil => rfl
  | cons id ids ih =>
      rw [updateAll, nothing id List.mem_cons_self]
      exact ih fun other member => nothing other (List.mem_cons_of_mem id member)

def Local (change : Block → ValueId → Option Block) : Prop :=
  ∀ block changed id, change block id = some changed →
    ∀ other, other ≠ id → changed.value other = block.value other

theorem foldValue_local : Local foldValue := by
  intro block changed id folds other differs
  simp only [foldValue, Option.map_eq_some_iff] at folds
  obtain ⟨_, -, rfl⟩ := folds
  exact value_replace_of_ne block _ differs

theorem updateAll_value_of_notMem (alone : Local change) {ids : List ValueId}
    (absent : id ∉ ids) : (updateAll change block ids).2.value id = block.value id := by
  induction ids generalizing block with
  | nil => rfl
  | cons other ids ih =>
      rw [List.mem_cons, not_or] at absent
      rw [updateAll]
      cases changes : change block other with
      | none => exact ih absent.2
      | some changed =>
          exact (ih absent.2).trans (alone block changed other changes id absent.1)

/-- A pass settles every value if a change settles its own, and no change of later values unsettles
it. -/
theorem updateAll_settles (settled : Block → ValueId → Prop) (alone : Local change)
    (improves : ∀ block changed : Block, ∀ id, block.Ordered → block.isListed id = true →
      change block id = some changed → block.Improves changed)
    (settles : ∀ block : Block, ∀ id, block.Ordered → block.isListed id = true →
      settled ((change block id).getD block) id)
    (keeps : ∀ block changed : Block, ∀ id, block.Ordered → block.isListed id = true →
      (∀ other ≤ id, changed.value other = block.value other) → settled block id →
      settled changed id)
    {ids : List ValueId} (ascending : ids.Pairwise (· < ·)) (ordered : block.Ordered)
    (listed : ∀ id ∈ ids, block.isListed id = true) :
    ∀ id ∈ ids, settled (updateAll change block ids).2 id := by
  induction ids generalizing block with
  | nil => simp
  | cons first ids ih =>
      obtain ⟨above, ascending⟩ := List.pairwise_cons.mp ascending
      have now := listed first List.mem_cons_self
      have later : ∀ id ∈ ids, block.isListed id = true :=
        fun id member => listed id (List.mem_cons_of_mem first member)
      -- The pass goes on from the block that the first value was settled in.
      obtain ⟨next, ends, improved, done⟩ : ∃ next,
          (updateAll change block (first :: ids)).2 = (updateAll change next ids).2 ∧
            block.Improves next ∧ settled next first := by
        have done := settles block first ordered now
        rw [updateAll]
        cases changes : change block first with
        | none =>
            rw [changes] at done
            exact ⟨block, rfl, ⟨.refl block, .refl block, fun _ => rfl⟩, done⟩
        | some changed =>
            rw [changes] at done
            exact ⟨changed, rfl, improves block changed first ordered now changes, done⟩
      have kept := improved.reduces.ordered ordered
      intro id member
      rw [ends]
      rcases List.mem_cons.mp member with rfl | behind
      · refine keeps next _ id kept ((improved.listed id).trans now) (fun other below => ?_) done
        refine updateAll_value_of_notMem alone fun late => ?_
        exact Nat.lt_irrefl id (Nat.lt_of_lt_of_le (above other late) below)
      · exact ih ascending kept (fun other late => (improved.listed other).trans (later other late))
          id behind

end Settle

/-! ## Folding -/

/-- Whether an operation folds depends on which of its operands are constants. -/
theorem evaluate?_congr {kind : Kind}
    (same : ∀ used ∈ kind.operands, (changed.kind used).constant? = (block.kind used).constant?) :
    changed.evaluate? kind = block.evaluate? kind := by
  cases kind <;> simp_all [evaluate?, Kind.operands]

private theorem foldValue_eq_none (folds : block.evaluate? (block.kind id) = none) :
    block.foldValue id = none := by
  rw [foldValue, folds]
  rfl

/-- Behind the folding pass no value can be folded. -/
theorem foldConstants_settled (ordered : block.Ordered) (listed : block.isListed id = true) :
    block.foldConstants.2.evaluate? (block.foldConstants.2.kind id) = none := by
  refine updateAll_settles (fun block id => block.evaluate? (block.kind id) = none)
    foldValue_local foldValue_improves ?_ ?_ block.ids_pairwise ordered
    (fun _ member => mem_ids.mp member) id (mem_ids.mpr listed)
  · intro block id _ listed
    cases folds : block.evaluate? (block.kind id) with
    | none => rw [foldValue_eq_none folds]; exact folds
    | some result =>
        rw [foldValue, folds, Option.map_some, Option.getD_some, kind_replace _ listed, if_pos rfl]
        rfl
  · intro block changed id ordered listed same settled
    have kind : changed.kind id = block.kind id := congrArg Value.kind (same id (Nat.le_refl id))
    rw [kind, ← settled]
    refine evaluate?_congr fun used member => ?_
    have below := (ordered.uses listed (List.mem_append_left _ member)).1
    rw [Block.kind, same used (Nat.le_of_lt below), Block.kind]

/-! ## Removal -/

/-- What a sweep leaves is a root, or was live before, or is used by something left behind it. -/
theorem sweep_reached (live : Array Bool) {ids : List ValueId} (size : live.size = block.bound)
    (descending : ids.Pairwise (· > ·)) (listed : ∀ id ∈ ids, block.isListed id = true) :
    ∀ id ∈ ids, (sweep live block ids).2.isListed id = true →
      (block.kind id).isRoot = true ∨ live.getD id false = true ∨
        ∃ other ∈ ids, id < other ∧ (sweep live block ids).2.isListed other = true ∧
          id ∈ (block.value other).uses := by
  induction ids generalizing live block with
  | nil => simp
  | cons first ids ih =>
      obtain ⟨above, sorted⟩ := List.pairwise_cons.mp descending
      have absent : first ∉ ids := fun member => Nat.lt_irrefl first (above first member)
      have later : ∀ id ∈ ids, block.isListed id = true :=
        fun id member => listed id (List.mem_cons_of_mem first member)
      intro id member present
      rw [sweep] at present ⊢
      by_cases stays : ((block.value first).kind.isRoot || live.getD first false) = true
      · simp only [stays, if_true] at present ⊢
        have size : (markUses live (block.value first)).size = block.bound :=
          ((markUses_getD live (block.value first) first).1).trans size
        have kept := (sweep_swept _ block ids size sorted).other first absent
        rcases List.mem_cons.mp member with rfl | behind
        · rw [Bool.or_eq_true] at stays
          exact stays.imp_right .inl
        · rcases ih _ size sorted later id behind present with root | marked | ⟨other, late, rest⟩
          · exact .inl root
          · rcases of_markUses_getD marked with already | uses
            · exact .inr (.inl already)
            · exact .inr (.inr ⟨first, List.mem_cons_self, above id behind,
                kept.trans (listed first List.mem_cons_self), uses⟩)
          · exact .inr (.inr ⟨other, List.mem_cons_of_mem first late, rest⟩)
      · simp only [stays, if_false, Bool.false_eq_true] at present ⊢
        have size : live.size = (block.remove first).bound := by simpa using size
        rcases List.mem_cons.mp member with rfl | behind
        · have gone := (sweep_swept live (block.remove id) ids size sorted).listed id present
          simp [isListed_remove] at gone
        · have elsewhere : ∀ other ∈ ids, (block.remove first).isListed other = true := by
            intro other late
            have differs : other ≠ first := Nat.ne_of_lt (above other late)
            simpa [isListed_remove, differs] using later other late
          rcases ih _ size sorted elsewhere id behind present with root | already | ⟨other, late, rest⟩
          · exact .inl (by simpa using root)
          · exact .inr (.inl already)
          · exact .inr (.inr ⟨other, List.mem_cons_of_mem first late, by simpa using rest⟩)

/-- A sweep removes nothing if everything is a root, live, or used by something behind it. -/
theorem sweep_keeps {live : Array Bool} {ids : List ValueId} (size : live.size = block.bound)
    (descending : ids.Pairwise (· > ·)) (listed : ∀ id ∈ ids, block.isListed id = true)
    (reached : ∀ id ∈ ids, (block.kind id).isRoot = true ∨ live.getD id false = true ∨
      ∃ other ∈ ids, id < other ∧ id ∈ (block.value other).uses) :
    sweep live block ids = (0, block) := by
  induction ids generalizing live with
  | nil => rfl
  | cons first ids ih =>
      obtain ⟨above, descending⟩ := List.pairwise_cons.mp descending
      have stays : ((block.value first).kind.isRoot || live.getD first false) = true := by
        rw [Bool.or_eq_true]
        rcases reached first List.mem_cons_self with root | already | ⟨other, member, before, -⟩
        · exact .inl root
        · exact .inr already
        · rcases List.mem_cons.mp member with rfl | late
          · exact absurd before (Nat.lt_irrefl _)
          · exact absurd before (Nat.lt_asymm (above other late))
      rw [sweep]
      simp only [stays, if_true]
      refine ih ((markUses_getD live (block.value first) first).1.trans size) descending
        (fun id member => listed id (List.mem_cons_of_mem first member)) fun id member => ?_
      obtain ⟨-, keeps, marks⟩ := markUses_getD live (block.value first) id
      rcases reached id (List.mem_cons_of_mem first member) with root | already | ⟨other, late, rest⟩
      · exact .inl root
      · exact .inr (.inl (keeps already))
      · rcases List.mem_cons.mp late with rfl | late
        · have inside : id < live.size := by
            rw [size]
            exact isListed_lt_bound (listed id (List.mem_cons_of_mem other member))
          exact .inr (.inl (marks rest.2 inside))
        · exact .inr (.inr ⟨other, late, rest⟩)

/-- Every value is a root, or used by a value behind it. -/
def Reached (block : Block) : Prop :=
  ∀ id, block.isListed id = true → (block.kind id).isRoot = true ∨
    ∃ other, id < other ∧ block.isListed other = true ∧ id ∈ (block.value other).uses

private theorem getD_replicate (count id : Nat) :
    (Array.replicate count false).getD id false = false := by
  simp [Array.getD_eq_getD_getElem?, Array.getElem?_replicate]
  split <;> rfl

theorem eliminateDeadCode_reached (block : Block) : block.eliminateDeadCode.2.Reached := by
  have swept := eliminateDeadCode_swept block
  intro id present
  have reached := sweep_reached (Array.replicate block.bound false) (by simp)
    (List.pairwise_reverse.mpr block.ids_pairwise)
    (fun other member => mem_ids.mp (List.mem_reverse.mp member)) id
    (List.mem_reverse.mpr (mem_ids.mpr (swept.listed id present))) present
  rw [getD_replicate] at reached
  rcases reached with root | live | ⟨other, -, before, left, uses⟩
  · exact .inl (by rw [kind, swept.value]; exact root)
  · cases live
  · exact .inr ⟨other, before, left, by rw [swept.value]; exact uses⟩

theorem Reached.eliminateDeadCode (reached : block.Reached) :
    block.eliminateDeadCode = (0, block) := by
  refine sweep_keeps (by simp) (List.pairwise_reverse.mpr block.ids_pairwise)
    (fun other member => mem_ids.mp (List.mem_reverse.mp member)) fun id member => ?_
  rcases reached id (mem_ids.mp (List.mem_reverse.mp member)) with root | ⟨other, before, listed, uses⟩
  · exact .inl root
  · exact .inr (.inr ⟨other, List.mem_reverse.mpr (mem_ids.mpr listed), before, uses⟩)

/-! ## Narrowing -/

/-- A value that narrowing leaves: the value itself, or the constant in another type. -/
inductive Narrows (value : Value) : Value → Prop where
  | same : Narrows value value
  | constant {type narrow : ValueType} {constant : DoubleWord}
      (is : value.kind = .constant type constant) :
      Narrows value { value with kind := .constant narrow constant }

namespace Narrows

variable {first second third : Value}

theorem trans (left : Narrows first second) (right : Narrows second third) :
    Narrows first third := by
  cases right with
  | same => exact left
  | constant is =>
      cases left with
      | same => exact .constant is
      | constant was =>
          cases is
          exact .constant was

theorem constant? (narrows : Narrows first second) :
    second.kind.constant? = first.kind.constant? := by
  cases narrows with
  | same => rfl
  | constant is => rw [is]; rfl

theorem isRoot (narrows : Narrows first second) : second.kind.isRoot = first.kind.isRoot := by
  cases narrows with
  | same => rfl
  | constant is => rw [is]; rfl

theorem uses (narrows : Narrows first second) : second.uses = first.uses := by
  cases narrows with
  | same => rfl
  | constant is => rw [Value.uses, Value.uses, is]; rfl

end Narrows

/-- A constant in its smallest type, or no constant. -/
def Narrow (value : Value) : Prop :=
  ∀ type constant, value.kind = .constant type constant → ValueType.narrowest constant = type

private theorem narrowValue_cases (block : Block) (id : ValueId) :
    (block.narrowValue id = none ∧ Narrow (block.value id)) ∨
      ∃ value, block.narrowValue id = some (block.replace id value) ∧ Narrow value ∧
        Narrows (block.value id) value := by
  simp only [narrowValue]
  cases is : (block.value id).kind with
  | constant type constant =>
      by_cases narrow : ValueType.narrowest constant = type
      · refine .inl ⟨if_pos narrow, fun other same whole => ?_⟩
        rw [is] at whole
        cases whole
        exact narrow
      · refine .inr ⟨_, if_neg narrow, fun other same whole => ?_, .constant is⟩
        cases whole
        rfl
  | _ =>
      refine .inl ⟨rfl, fun type constant whole => ?_⟩
      rw [is] at whole
      cases whole

private theorem narrowValue_eq_none (narrow : Narrow (block.value id)) :
    block.narrowValue id = none := by
  simp only [narrowValue]
  cases is : (block.value id).kind with
  | constant type constant => exact if_pos (narrow type constant is)
  | _ => rfl

theorem narrowValue_local : Local narrowValue := by
  intro block changed id narrows other differs
  rcases narrowValue_cases block id with ⟨none, -⟩ | ⟨value, some, -, -⟩
  · rw [none] at narrows
    cases narrows
  · rw [some] at narrows
    cases narrows
    exact value_replace_of_ne block _ differs

theorem narrowConstants_value (block : Block) (id : ValueId) :
    Narrows (block.value id) (block.narrowConstants.2.value id) := by
  have listed : ∀ id ∈ block.ids, block.isListed id = true := fun _ member => mem_ids.mp member
  unfold narrowConstants
  generalize block.ids = ids at listed
  induction ids generalizing block with
  | nil => exact .same
  | cons other ids ih =>
      have later : ∀ id ∈ ids, block.isListed id = true :=
        fun id member => listed id (List.mem_cons_of_mem other member)
      rw [updateAll]
      rcases narrowValue_cases block other with ⟨none, -⟩ | ⟨value, some, -, narrows⟩
      · rw [none]
        exact ih block later
      · rw [some]
        refine Narrows.trans ?_ (ih (block.replace other value) fun id member => ?_)
        · rw [value_replace _ (listed other List.mem_cons_self)]
          split
          · rename_i same
            rw [same]
            exact narrows
          · exact .same
        · rw [isListed_replace]
          exact later id member

theorem narrowConstants_settled (ordered : block.Ordered) (listed : block.isListed id = true) :
    Narrow (block.narrowConstants.2.value id) := by
  refine updateAll_settles (fun block id => Narrow (block.value id))
    narrowValue_local narrowValue_improves ?_ ?_ block.ids_pairwise ordered
    (fun _ member => mem_ids.mp member) id (mem_ids.mpr listed)
  · intro block id _ listed
    rcases narrowValue_cases block id with ⟨none, narrow⟩ | ⟨value, some, narrow, -⟩
    · rw [none]
      exact narrow
    · rw [some, Option.getD_some, value_replace _ listed, if_pos rfl]
      exact narrow
  · intro block changed id _ _ same narrow
    rw [same id (Nat.le_refl id)]
    exact narrow

/-! ## Optimizing twice -/

/-- There is nothing left to do in an optimized block. -/
theorem optimize_optimize (ordered : block.Ordered) :
    block.optimize.2.optimize =
      ({ folded := 0, removed := 0, narrowed := 0 }, block.optimize.2) := by
  have folded := foldConstants_improves block ordered
  have foldedOrdered := folded.reduces.ordered ordered
  have settled := fun id (listed : block.isListed id = true) => foldConstants_settled ordered listed
  have swept := eliminateDeadCode_swept block.foldConstants.2
  have sweptOrdered := (eliminateDeadCode_improves foldedOrdered).2.ordered foldedOrdered
  have reached := eliminateDeadCode_reached block.foldConstants.2
  have narrowed := narrowConstants_improves _ sweptOrdered
  have narrows := narrowConstants_value block.foldConstants.2.eliminateDeadCode.2
  have narrow := fun id (listed : block.foldConstants.2.eliminateDeadCode.2.isListed id = true) =>
    narrowConstants_settled sweptOrdered listed
  have passes : block.optimize.2 =
      block.foldConstants.2.eliminateDeadCode.2.narrowConstants.2 := by simp only [optimize]
  rw [passes]
  generalize block.foldConstants.2.eliminateDeadCode.2.narrowConstants.2 = last at narrowed narrows narrow ⊢
  generalize block.foldConstants.2.eliminateDeadCode.2 = kept at swept sweptOrdered reached narrowed narrows narrow
  generalize block.foldConstants.2 = between at folded settled swept
  have listed : ∀ id, last.isListed id = true → kept.isListed id = true :=
    fun id present => (narrowed.listed id).symm.trans present
  have same (id : ValueId) : kept.kind id = between.kind id := congrArg Value.kind (swept.value id)
  have folds : last.foldConstants = (0, last) := by
    refine updateAll_of_none fun id member => foldValue_eq_none ?_
    have present := listed id (mem_ids.mp member)
    have was : between.evaluate? (between.kind id) = none :=
      settled id ((folded.listed id).symm.trans (swept.listed id present))
    have constants : ∀ used, (last.kind used).constant? = (between.kind used).constant? :=
      fun used => (narrows used).constant?.trans (congrArg Kind.constant? (same used))
    have value := narrows id
    rw [Block.kind]
    generalize last.value id = value at value
    cases value with
    | same =>
        rw [← Block.kind, same, ← was]
        exact evaluate?_congr fun used _ => constants used
    | constant is => rfl
  have removes : last.eliminateDeadCode = (0, last) := by
    refine Reached.eliminateDeadCode fun id present => ?_
    rcases reached id (listed id present) with root | ⟨other, before, left, uses⟩
    · exact .inl ((narrows id).isRoot.trans root)
    · refine .inr ⟨other, before, (narrowed.listed other).trans left, ?_⟩
      rw [(narrows other).uses]
      exact uses
  have keeps : last.narrowConstants = (0, last) :=
    updateAll_of_none fun id member =>
      narrowValue_eq_none (narrow id (listed id (mem_ids.mp member)))
  simp only [optimize, folds, removes, keeps]

/-! ## What an optimized block does -/

section Leaving

variable {β : Type} [Bus β] {machine after : Machine β} {state : Evaluation β}
  {retired : BitVec 32}

private theorem mem_of_ending_left {values : List (ValueId × Value)}
    (ends : Ir.ending values state = .left id retired after) :
    ∃ value, (id, value) ∈ values ∧ value.kind.leaves = true := by
  induction values generalizing state with
  | nil => cases ends
  | cons head rest ih =>
      obtain ⟨other, value⟩ := head
      rw [Ir.ending] at ends
      cases evaluates : value.evaluate other state with
      | next next =>
          rw [evaluates] at ends
          obtain ⟨last, member, leaves⟩ := ih ends
          exact ⟨last, List.mem_cons_of_mem _ member, leaves⟩
      | left count machine =>
          rw [evaluates] at ends
          cases ends
          exact ⟨value, List.mem_cons_self, Value.leaves_of_evaluate evaluates⟩
      | stuck =>
          rw [evaluates] at ends
          cases ends

theorem leaves_of_ending (ends : block.ending machine = .left id retired after) :
    block.isListed id = true ∧ (block.kind id).leaves = true := by
  obtain ⟨value, member, leaves⟩ := mem_of_ending_left ends
  obtain ⟨listed, same⟩ := mem_values.mp member
  dsimp only at listed same
  rw [same] at leaves
  exact ⟨listed, leaves⟩

/-- A block is left at a value that is reached and leaves. -/
theorem Reaches.ending_left (reaches : block.Reaches machine id state)
    (leaves : (block.value id).evaluate id state = .left retired after) :
    block.ending machine = .left id retired after := by
  obtain ⟨before, behind, values, reaches⟩ := reaches
  rw [Block.ending, values, ending_append reaches, Ir.ending, leaves]

theorem Reaches.listed (reaches : block.Reaches machine id state) : block.isListed id = true := by
  obtain ⟨before, behind, values, -⟩ := reaches
  have member : (id, block.value id) ∈ block.values := by
    rw [values]
    exact List.mem_append_right _ List.mem_cons_self
  exact (mem_values.mp member).1

/-- An operation that overflows on some machine is not folded. -/
theorem Reaches.keeps_overflow (reaches : block.Reaches machine id state) (ordered : block.Ordered)
    (sited : block.Sited) {op : BinaryOp} {lhs rhs : ValueId}
    (is : block.kind id = .binary op lhs rhs)
    (overflows : op.eval? (state.cells lhs) (state.cells rhs) = none) :
    block.optimize.2.isListed id = true ∧ block.optimize.2.value id = block.value id := by
  have traps : op.traps = true := by
    cases op <;> first | rfl | simp [BinaryOp.eval?] at overflows
  obtain ⟨site, present⟩ := Option.isSome_iff_exists.mp
    (sited _ (value_mem reaches.listed) (by rw [← kind, is]; exact traps))
  have leaves : (block.value id).evaluate id state = state.raiseAt (some site) (.ofCode .overflow) := by
    rw [← present, Value.evaluate, ← kind, is]
    simp only [Kind.compute?, overflows]
  obtain ⟨same, reduces⟩ := optimize_improves ordered
  have ends := reaches.ending_left leaves
  rw [← same.ending] at ends
  obtain ⟨listed, still⟩ := leaves_of_ending ends
  exact ⟨listed, (reduces.stands id listed).eq_of_leaves still⟩

end Leaving

/-- An optimized block ends as the block does on every machine, whatever is attached to its bus,
and accesses memory in the same way. It is well-formed if the block is, and optimizing it again
finds nothing to do. A trapping operation is folded only if it cannot overflow. -/
theorem optimize_preserves (ordered : block.Ordered) (sited : block.Sited) :
    (∀ {β : Type} [Bus β] (machine : Machine β),
      block.optimize.2.ending machine = block.ending machine ∧
      (∀ retired, block.optimize.2.evaluate retired machine = block.evaluate retired machine) ∧
      block.optimize.2.accesses machine = block.accesses machine) ∧
    block.optimize.2.Ordered ∧ block.optimize.2.Sited ∧
    block.optimize.2.optimize =
      ({ folded := 0, removed := 0, narrowed := 0 }, block.optimize.2) ∧
    ∀ {β : Type} [Bus β] (machine : Machine β) id state op lhs rhs,
      block.Reaches machine id state → block.kind id = .binary op lhs rhs →
      op.eval? (state.cells lhs) (state.cells rhs) = none →
      block.optimize.2.isListed id = true ∧ block.optimize.2.value id = block.value id := by
  obtain ⟨same, reduces⟩ := optimize_improves ordered
  refine ⟨fun machine => ⟨same.ending machine, fun retired => same.evaluate retired machine, ?_⟩,
    reduces.ordered ordered, reduces.sited sited, optimize_optimize ordered, ?_⟩
  · rw [accesses, accesses, same.ending]
  · intro β _ machine id state op lhs rhs reaches is overflows
    exact reaches.keeps_overflow ordered sited is overflows

/-- A block that adds two constants, and could trap. -/
def addingBlock : Block :=
  let site : ExitSite :=
    { pc := 0x80001000, delaySlot := false, retired := 1, flush := [(.general 3, 0)] }
  ⟨#[⟨⟨.constant .u64 5, none⟩, true⟩, ⟨⟨.constant .u32 7, none⟩, true⟩,
    ⟨⟨.binary .addTrapWord 0 1, some site⟩, true⟩, ⟨⟨.setExitPc 2, none⟩, true⟩]⟩

theorem addingBlock_optimized :
    addingBlock.Ordered ∧ addingBlock.Sited ∧
      addingBlock.optimize.1 = { folded := 1, removed := 2, narrowed := 1 } ∧
      addingBlock.optimize.2.optimize =
        ({ folded := 0, removed := 0, narrowed := 0 }, addingBlock.optimize.2) := by
  have ordered : addingBlock.Ordered := by decide
  have sited : addingBlock.Sited := by decide
  obtain ⟨-, -, -, again, -⟩ := optimize_preserves ordered sited
  exact ⟨ordered, sited, by decide, again⟩

end MipsRecompiler.Ir.Block
