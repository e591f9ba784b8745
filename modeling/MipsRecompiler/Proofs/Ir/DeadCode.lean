import MipsRecompiler.Proofs.Ir.Folding

/-!
# Removing dead values

Whatever a kept value uses is kept, and every root is. So the values that were removed only
filled cells that nothing reads.
-/

set_option autoImplicit false

namespace MipsRecompiler.Ir

/-- What is neither a root nor trapping computes its result and does nothing else. -/
theorem Kind.compute?_isSome {kind : Kind} (dispensable : kind.isRoot = false)
    (cells : ValueId → DoubleWord) (cpu : CpuState) :
    (kind.compute? cells cpu).isSome = true := by
  cases kind with
  | binary op lhs rhs => cases op <;> simp_all [isRoot, compute?, BinaryOp.traps, BinaryOp.eval?]
  | _ => simp_all [isRoot, compute?]

theorem Effect.ofKind?_of_isRoot {kind : Kind} (dispensable : kind.isRoot = false) :
    Effect.ofKind? kind = none := by
  cases kind <;> simp_all [Kind.isRoot, Effect.ofKind?]

section Kept

variable {β : Type} [Bus β] (kept : ValueId → Bool)

/-- Values outside a set that is closed under use, and without roots, need not be evaluated. -/
theorem ending_filter {values : List (ValueId × Value)}
    (closed : ∀ entry ∈ values, kept entry.1 = true → ∀ used ∈ entry.2.uses, kept used = true)
    (roots : ∀ entry ∈ values, kept entry.1 = false → entry.2.kind.isRoot = false)
    {first second : Evaluation β} (agree : Evaluation.AgreeOn (kept · = true) first second) :
    ending (values.filter fun entry => kept entry.1) second = ending values first ∧
      events (values.filter fun entry => kept entry.1) second = events values first := by
  induction values generalizing first second with
  | nil => exact ⟨by simp [ending, agree.exitPc, agree.machine], rfl⟩
  | cons head rest ih =>
      obtain ⟨id, value⟩ := head
      have tail {first second : Evaluation β}
          (agree : Evaluation.AgreeOn (kept · = true) first second) :=
        ih (fun entry member => closed entry (List.mem_cons_of_mem _ member))
          (fun entry member => roots entry (List.mem_cons_of_mem _ member)) agree
      cases stays : kept id with
      | true =>
          have step := Value.evaluate_agreeOn agree
            (closed (id, value) List.mem_cons_self stays) id
          simp only [List.filter_cons, stays, if_true, ending, events]
          revert step
          generalize value.evaluate id first = left
          generalize value.evaluate id second = right
          intro step
          cases step with
          | next both =>
              have both := both.mono fun other (member : kept other = true) => Or.inl member
              obtain ⟨ends, effects⟩ := tail both
              exact ⟨ends, by simp only [effects, both.machine, agree.machine]⟩
          | left => exact ⟨rfl, rfl⟩
          | stuck => exact ⟨rfl, rfl⟩
      | false =>
          have dispensable := roots (id, value) List.mem_cons_self stays
          obtain ⟨result, computes⟩ := Option.isSome_iff_exists.mp
            (Kind.compute?_isSome dispensable first.cells first.machine.cpu)
          have both : Evaluation.AgreeOn (kept · = true) (first.define id result) second := by
            refine ⟨fun other member => ?_, agree.exitPc, agree.machine⟩
            have differs : other ≠ id := fun same => by simp [same, stays] at member
            rw [first.define_cells_of_ne result differs, agree.cells other member]
          simp only [List.filter_cons, stays, ending, events, Value.evaluate, computes,
            Effect.ofKind?_of_isRoot dispensable]
          exact tail both

end Kept

namespace Block

variable {block : Block}

/-- What is left of a block when the sweep has come through the given numbers. -/
structure Swept (live : Array Bool) (block : Block) (ids : List ValueId) (result : Block) :
    Prop where
  value : ∀ id, result.value id = block.value id
  bound : result.bound = block.bound
  listed : ∀ id, result.isListed id = true → block.isListed id = true
  other : ∀ id, id ∉ ids → result.isListed id = block.isListed id
  live : ∀ id, live.getD id false = true → result.isListed id = block.isListed id
  root : ∀ id, (block.kind id).isRoot = true → result.isListed id = block.isListed id
  /-- What a kept value uses and the sweep meets later is kept. -/
  closed : ∀ id, id ∈ ids → result.isListed id = true → ∀ used ∈ (block.value id).uses,
    used < id → result.isListed used = block.isListed used

theorem getD_setIfInBounds (live : Array Bool) (id other : ValueId) :
    (live.setIfInBounds id true).getD other false =
      (live.getD other false || (id == other && decide (id < live.size))) := by
  simp only [Array.getD_eq_getD_getElem?, Array.getElem?_setIfInBounds]
  by_cases same : id = other
  · subst same
    by_cases inside : id < live.size <;> simp [inside]
  · simp [same]

/-- Marking keeps what is live, and makes live what a value uses. -/
theorem markUses_getD (live : Array Bool) (value : Value) (id : ValueId) :
    (markUses live value).size = live.size ∧
      (live.getD id false = true → (markUses live value).getD id false = true) ∧
      (id ∈ value.uses → id < live.size → (markUses live value).getD id false = true) := by
  unfold markUses
  induction value.uses generalizing live with
  | nil => simp
  | cons used rest ih =>
      obtain ⟨size, keeps, marks⟩ := ih (live.setIfInBounds used true)
      rw [Array.size_setIfInBounds] at size marks
      simp only [List.foldl_cons]
      refine ⟨size, fun already => keeps ?_, fun member inside => ?_⟩
      · rw [getD_setIfInBounds, already, Bool.true_or]
      · rcases List.mem_cons.mp member with same | behind
        · exact keeps (by rw [getD_setIfInBounds, same]; simp [same ▸ inside])
        · exact marks behind inside

theorem of_markUses_getD {live : Array Bool} {value : Value} {id : ValueId}
    (marked : (markUses live value).getD id false = true) :
    live.getD id false = true ∨ id ∈ value.uses := by
  unfold markUses at marked
  generalize value.uses = uses at marked ⊢
  induction uses generalizing live with
  | nil => exact .inl marked
  | cons used rest ih =>
      rcases ih marked with already | behind
      · rw [getD_setIfInBounds, Bool.or_eq_true, Bool.and_eq_true, beq_iff_eq] at already
        rcases already with already | ⟨same, -⟩
        · exact .inl already
        · exact .inr (same ▸ List.mem_cons_self)
      · exact .inr (List.mem_cons_of_mem _ behind)

theorem sweep_swept (live : Array Bool) (block : Block) (ids : List ValueId)
    (size : live.size = block.bound) (descending : ids.Pairwise (· > ·)) :
    Swept live block ids (sweep live block ids).2 := by
  induction ids generalizing live block with
  | nil => exact ⟨fun _ => rfl, rfl, fun _ => id, by simp [sweep], by simp [sweep],
      by simp [sweep], by simp⟩
  | cons id ids ih =>
      obtain ⟨above, descending⟩ := List.pairwise_cons.mp descending
      simp only [sweep]
      split
      · rename_i stays
        obtain ⟨size', keeps, marks⟩ : (markUses live (block.value id)).size = live.size ∧ _ ∧ _ :=
          ⟨(markUses_getD live _ id).1, fun other => (markUses_getD live (block.value id) other).2.1,
            fun other => (markUses_getD live (block.value id) other).2.2⟩
        have rest := ih (markUses live (block.value id)) block (size'.trans size) descending
        refine ⟨rest.value, rest.bound, rest.listed, fun other absent => rest.other other
          fun member => absent (List.mem_cons_of_mem id member), fun other already =>
          rest.live other (keeps other already), rest.root, ?_⟩
        intro other member present used uses before
        rcases List.mem_cons.mp member with rfl | behind
        · have inside := isListed_lt_bound (rest.listed other present)
          exact rest.live used (marks used uses (size ▸ Nat.lt_trans before inside))
        · exact rest.closed other behind present used uses before
      · rename_i dies
        simp only [Bool.or_eq_true, not_or, Bool.not_eq_true] at dies
        have rest := ih live (block.remove id) (by simpa using size) descending
        have elsewhere : ∀ other, other ≠ id →
            (block.remove id).isListed other = block.isListed other := fun other differs => by
          simp [isListed_remove, differs]
        refine ⟨fun other => (rest.value other).trans (value_remove block id other),
          rest.bound.trans (bound_remove block id), fun other present => ?_, fun other absent => ?_,
          fun other already => ?_, fun other root => ?_, ?_⟩
        · have kept := rest.listed other present
          rw [isListed_remove, Bool.and_eq_true] at kept
          exact kept.2
        · rw [List.mem_cons, not_or] at absent
          rw [rest.other other absent.2, elsewhere other absent.1]
        · have differs : other ≠ id := fun same => by simp [← same, already] at dies
          rw [rest.live other already, elsewhere other differs]
        · have differs : other ≠ id := fun same => by simp [same, kind, dies.1] at root
          rw [rest.root other (by simpa using root), elsewhere other differs]
        · intro other member present used uses before
          rcases List.mem_cons.mp member with rfl | behind
          · have kept := rest.listed other present
            simp [isListed_remove] at kept
          · have differs : used ≠ id := Nat.ne_of_lt (Nat.lt_trans before (above other behind))
            rw [rest.closed other behind present used (by simpa using uses) before,
              elsewhere used differs]

theorem eliminateDeadCode_swept (block : Block) :
    Swept (Array.replicate block.bound false) block block.ids.reverse block.eliminateDeadCode.2 :=
  sweep_swept _ block _ (by simp) (List.pairwise_reverse.mpr block.ids_pairwise)

theorem Swept.values {live : Array Bool} {ids : List ValueId} {result : Block}
    (swept : Swept live block ids result) :
    result.values = block.values.filter fun entry => result.isListed entry.1 := by
  have ids : result.ids = block.ids.filter result.isListed := by
    rw [Block.ids, Block.ids, swept.bound, List.filter_filter]
    refine List.filter_congr fun id _ => ?_
    cases present : result.isListed id with
    | true => simp [swept.listed id present]
    | false => simp
  rw [Block.values, ids, Block.values, List.filter_map]
  exact List.map_congr_left fun id _ => by rw [swept.value]

theorem eliminateDeadCode_improves (ordered : block.Ordered) :
    Equivalent block block.eliminateDeadCode.2 ∧ Reduces block block.eliminateDeadCode.2 := by
  have swept := eliminateDeadCode_swept block
  generalize block.eliminateDeadCode.2 = result at swept
  have values := swept.values
  have closed : ∀ id, result.isListed id = true → ∀ used ∈ (block.value id).uses,
      result.isListed used = true := by
    intro id present used uses
    have listed := swept.listed id present
    obtain ⟨before, defined⟩ := ordered.uses listed uses
    rw [swept.closed id (by simpa using listed) present used uses before]
    exact defined.listed
  have evaluates {β : Type} [Bus β] (machine : Machine β) :=
    ending_filter result.isListed
      (fun entry member present => by
        rw [(mem_values.mp member).2]
        exact closed entry.1 present)
      (fun entry member absent => by
        obtain ⟨listed, same⟩ := mem_values.mp member
        cases root : entry.2.kind.isRoot with
        | false => rfl
        | true =>
            have stays := swept.root entry.1 (by rw [kind, ← same]; exact root)
            rw [absent, listed] at stays
            cases stays)
      (.refl _ (.start machine))
  constructor
  · refine ⟨fun machine => ?_, fun machine => ?_⟩
    · simp only [Block.ending, values]
      exact (evaluates machine).1
    · simp only [Block.events, values]
      exact (evaluates machine).2
  · refine ⟨swept.bound, swept.listed, fun id _ => ?_, fun id present used uses _ => ?_,
      fun id present root _ => ?_⟩
    · rw [swept.value]
      exact .same
    · rw [swept.value] at uses
      exact closed id present used uses
    · rw [swept.root id root]
      exact present

/-- Optimizing reduces a block, and keeps what it does on every machine. -/
theorem optimize_improves (ordered : block.Ordered) :
    Equivalent block block.optimize.2 ∧ Reduces block block.optimize.2 := by
  have passes : block.optimize.2 =
      block.foldConstants.2.eliminateDeadCode.2.narrowConstants.2 := by simp only [optimize]
  rw [passes]
  have folded := foldConstants_improves block ordered
  have between := folded.reduces.ordered ordered
  obtain ⟨same, swept⟩ := eliminateDeadCode_improves between
  have narrowed := narrowConstants_improves _ (swept.ordered between)
  exact ⟨(folded.equivalent.trans same).trans narrowed.equivalent,
    (folded.reduces.trans swept).trans narrowed.reduces⟩

end Block

end MipsRecompiler.Ir
