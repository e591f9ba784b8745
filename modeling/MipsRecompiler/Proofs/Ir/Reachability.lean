import MipsRecompiler.Proofs.Ir.Optimization

/-!
# Values that are needed

A value is needed if it has an effect of its own, or if a needed value reads it or writes it back
where it leaves the block. Removing dead code leaves the needed values and no others.
-/

set_option autoImplicit false

namespace MipsRecompiler.Ir

theorem Value.mem_uses {value : Value} {id : ValueId} :
    id ∈ value.uses ↔ id ∈ value.kind.operands ∨
      ∃ site reg, value.site = some site ∧ (reg, id) ∈ site.flush := by
  rw [uses, List.mem_append]
  refine or_congr_right ?_
  cases value.site with
  | none => simp
  | some site => simp

namespace Block

variable {block : Block} {id : ValueId}

/-- The values of a block use only listed values before them. -/
def Backward (block : Block) : Prop :=
  ∀ entry ∈ block.values, ∀ used ∈ entry.2.uses, used < entry.1 ∧ block.isListed used = true

instance : Decidable block.Backward :=
  inferInstanceAs (Decidable (∀ entry ∈ block.values, ∀ used ∈ entry.2.uses,
    used < entry.1 ∧ block.isListed used = true))

theorem Backward.uses (backward : block.Backward) (listed : block.isListed id = true)
    {used : ValueId} (uses : used ∈ (block.value id).uses) :
    used < id ∧ block.isListed used = true :=
  backward _ (value_mem listed) used uses

/-- The roots in the list, and what is reached from them along operands and flush entries. -/
inductive Needed (block : Block) : ValueId → Prop where
  | root {id : ValueId} :
      block.isListed id = true → (block.kind id).isRoot = true → Needed block id
  | operand {user id : ValueId} :
      Needed block user → id ∈ (block.kind user).operands → Needed block id
  | flush {user id : ValueId} {site : ExitSite} {reg : GuestRegister} :
      Needed block user → (block.value user).site = some site → (reg, id) ∈ site.flush →
      Needed block id

theorem Needed.use {user used : ValueId} (needed : block.Needed user)
    (uses : used ∈ (block.value user).uses) : block.Needed used := by
  rcases Value.mem_uses.mp uses with operand | ⟨site, reg, leaves, entry⟩
  · exact needed.operand operand
  · exact needed.flush leaves entry

theorem Needed.kept (backward : block.Backward) (needed : block.Needed id) :
    block.eliminateDeadCode.2.isListed id = true := by
  have swept := eliminateDeadCode_swept block
  have used {user used : ValueId} (kept : block.eliminateDeadCode.2.isListed user = true)
      (uses : used ∈ (block.value user).uses) :
      block.eliminateDeadCode.2.isListed used = true := by
    have listed := swept.listed user kept
    obtain ⟨before, there⟩ := backward.uses listed uses
    rw [swept.closed user (List.mem_reverse.mpr (mem_ids.mpr listed)) kept used uses before]
    exact there
  induction needed with
  | root listed root =>
      rw [swept.root _ root]
      exact listed
  | operand _ member ih => exact used ih (Value.mem_uses.mpr (.inl member))
  | flush _ leaves entry ih => exact used ih (Value.mem_uses.mpr (.inr ⟨_, _, leaves, entry⟩))

/-- What is left is needed. The induction runs from the end of the block, because what keeps a
value is a later one. -/
theorem needed_of_kept (kept : block.eliminateDeadCode.2.isListed id = true) :
    block.Needed id := by
  have swept := eliminateDeadCode_swept block
  induction distance : block.bound - id using Nat.strong_induction_on generalizing id with
  | _ count ih =>
      rcases eliminateDeadCode_reached block id kept with root | ⟨user, later, there, uses⟩
      · rw [kind, swept.value] at root
        exact .root (swept.listed id kept) root
      · have inside : id < block.bound := isListed_lt_bound (swept.listed id kept)
        have nearer := Nat.sub_lt_sub_left inside later
        rw [swept.value] at uses
        exact (ih (block.bound - user) (distance ▸ nearer) there rfl).use uses

theorem sweep_count (live : Array Bool) {ids : List ValueId} (size : live.size = block.bound)
    (descending : ids.Pairwise (· > ·)) (listed : ∀ id ∈ ids, block.isListed id = true) :
    (sweep live block ids).1 =
      (ids.filter fun id => !(sweep live block ids).2.isListed id).length := by
  induction ids generalizing live block with
  | nil => rfl
  | cons first ids ih =>
      obtain ⟨above, sorted⟩ := List.pairwise_cons.mp descending
      have absent : first ∉ ids := fun member => Nat.lt_irrefl first (above first member)
      simp only [sweep]
      split
      · have size := (markUses_getD live (block.value first) first).1.trans size
        have stays := (sweep_swept _ block ids size sorted).other first absent
        rw [listed first List.mem_cons_self] at stays
        rw [List.filter_cons_of_neg (by simp [stays])]
        exact ih _ size sorted fun id member => listed id (List.mem_cons_of_mem first member)
      · have size : live.size = (block.remove first).bound := by simpa using size
        have gone : (sweep live (block.remove first) ids).2.isListed first = false := by
          rw [(sweep_swept live _ ids size sorted).other first absent]
          simp [isListed_remove]
        have elsewhere : ∀ id ∈ ids, (block.remove first).isListed id = true := by
          intro id member
          have differs : id ≠ first := Nat.ne_of_lt (above id member)
          simpa [isListed_remove, differs] using listed id (List.mem_cons_of_mem first member)
        rw [List.filter_cons_of_pos (by simp [gone]), List.length_cons]
        exact congrArg (· + 1) (ih live size sorted elsewhere)

/-- Removing dead code leaves exactly the needed values, as they were and in their order, uses
nothing that it removed, and counts what it removed. -/
theorem eliminateDeadCode_exact (backward : block.Backward) :
    (∀ id, block.eliminateDeadCode.2.isListed id = true ↔ block.Needed id) ∧
    (∀ id, block.eliminateDeadCode.2.value id = block.value id) ∧
    block.eliminateDeadCode.2.values =
      block.values.filter (fun entry => block.eliminateDeadCode.2.isListed entry.1) ∧
    (∀ id, block.eliminateDeadCode.2.isListed id = true →
      ∀ used ∈ (block.eliminateDeadCode.2.value id).uses,
        block.eliminateDeadCode.2.isListed used = true) ∧
    block.eliminateDeadCode.1 =
      (block.ids.filter fun id => !block.eliminateDeadCode.2.isListed id).length := by
  have swept := eliminateDeadCode_swept block
  refine ⟨fun id => ⟨needed_of_kept, fun needed => needed.kept backward⟩, swept.value, swept.values,
    fun id kept used uses => ?_, ?_⟩
  · rw [swept.value] at uses
    exact ((needed_of_kept kept).use uses).kept backward
  · have counted := sweep_count (Array.replicate block.bound false) (by simp)
      (List.pairwise_reverse.mpr block.ids_pairwise)
      fun id member => mem_ids.mp (List.mem_reverse.mp member)
    rw [List.filter_reverse, List.length_reverse] at counted
    exact counted

/-- A block with a value that only an exit writes back, and two that nothing needs. -/
def flushingBlock : Block :=
  let site : ExitSite :=
    { pc := 0x80001000, delaySlot := false, retired := 1, flush := [(.general 3, 1)] }
  ⟨#[⟨⟨.loadRegister (.general 4), none⟩, true⟩, ⟨⟨.not 0, none⟩, true⟩,
    ⟨⟨.not 1, none⟩, true⟩, ⟨⟨.binary .or 0 2, none⟩, true⟩,
    ⟨⟨.constant .u64 1, none⟩, true⟩,
    ⟨⟨.exitIf 4 (.branch 0x80001008), some site⟩, true⟩, ⟨⟨.setExitPc 0, none⟩, true⟩]⟩

theorem flushingBlock_swept :
    flushingBlock.Backward ∧ flushingBlock.eliminateDeadCode.1 = 2 ∧
      flushingBlock.eliminateDeadCode.2.ids = [0, 1, 4, 5, 6] ∧
      flushingBlock.Needed 1 ∧ ¬ flushingBlock.Needed 3 := by
  have backward : flushingBlock.Backward := by decide
  obtain ⟨kept, -⟩ := eliminateDeadCode_exact backward
  exact ⟨backward, by decide, by decide, (kept 1).mp (by decide),
    fun needed => absurd ((kept 3).mpr needed) (by decide)⟩

end Block

end MipsRecompiler.Ir
