import MipsRecompiler.Proofs.Ir.Walking

/-!
# Lists that are edited

After any changes to a new list it shows exactly the values that were appended and not removed,
each of them once, and no value was changed.
-/

set_option autoImplicit false

namespace MipsRecompiler.Ir

namespace Edit

/-- Changes that remove only what was appended before them, behind a number of other values. -/
def Known : Nat → List Edit → Prop
  | _, [] => True
  | count, .remove id :: edits => id < count ∧ Known count edits
  | count, .push _ :: edits | count, .pushWithSite _ _ :: edits | count, .constant _ _ :: edits =>
    Known (count + 1) edits

variable {edit : Edit} {edits : List Edit} {value : Value} {count : Nat}

theorem Known.push (known : Known count (edit :: edits)) (is : edit.value? = some value) :
    Known (count + 1) edits := by
  cases edit with
  | remove id => cases is
  | _ => exact known

theorem eq_remove (is : edit.value? = none) : ∃ id, edit = .remove id := by
  cases edit with
  | remove id => exact ⟨id, rfl⟩
  | _ => cases is

instance decidableKnown : (count : Nat) → (edits : List Edit) → Decidable (Known count edits)
  | _, [] => .isTrue trivial
  | count, .remove id :: edits =>
    have := decidableKnown count edits
    inferInstanceAs (Decidable (id < count ∧ Known count edits))
  | count, .push _ :: edits | count, .pushWithSite _ _ :: edits | count, .constant _ _ :: edits =>
    decidableKnown (count + 1) edits

end Edit

def Draft.perform (draft : Draft) : Edit → Draft
  | .push kind => (draft.push kind).2
  | .pushWithSite kind site => (draft.pushWithSite kind site).2
  | .constant type value => (draft.constant type value).2
  | .remove id => { draft with block := draft.block.remove id }

structure Block.Edited (block : Block) (edits : List Edit) (after : Block) : Prop where
  bound : after.bound = block.bound + (edits.filterMap Edit.value?).length
  old : ∀ id < block.bound, after.value id = block.value id
  new : ∀ index value, (edits.filterMap Edit.value?)[index]? = some value →
    after.value (block.bound + index) = value
  listed : ∀ id, after.isListed id = true ↔ Edit.remove id ∉ edits ∧
    (block.isListed id = true ∨ block.bound ≤ id ∧ id < after.bound)

namespace Block.Edited

variable {block after : Block} {edits : List Edit} {edit : Edit} {value : Value} {id : ValueId}

theorem nil (block : Block) : block.Edited [] block where
  bound := rfl
  old _ _ := rfl
  new _ _ found := by cases found
  listed id := by
    constructor
    · exact fun listed => ⟨List.not_mem_nil, .inl listed⟩
    · rintro ⟨-, listed | ⟨above, below⟩⟩
      · exact listed
      · exact absurd below (Nat.not_lt_of_le above)

theorem push (rest : (block.push value).2.Edited edits after) (is : edit.value? = some value) :
    block.Edited (edit :: edits) after where
  bound := by
    rw [rest.bound, bound_push, List.filterMap_cons_some is, List.length_cons]
    omega
  old id inside := by
    have longer : id < (block.push value).2.bound := by
      rw [bound_push]
      exact Nat.lt_succ_of_lt inside
    rw [rest.old id longer, value_push_of_lt value inside]
  new index found there := by
    rw [List.filterMap_cons_some is] at there
    cases index with
    | zero =>
        cases there
        have last : block.bound < (block.push value).2.bound := by
          rw [bound_push]
          exact Nat.lt_succ_self _
        rw [Nat.add_zero, rest.old _ last, value_push, if_pos rfl]
    | succ index =>
        have later := rest.new index found there
        rwa [bound_push, Nat.add_right_comm, Nat.add_assoc] at later
  listed id := by
    have grows : block.bound < after.bound := by
      rw [rest.bound, bound_push]
      omega
    have other : edit ≠ .remove id := fun same => by
      rw [same] at is
      cases is
    have present : (id == block.bound || block.isListed id) = true ∨
        block.bound + 1 ≤ id ∧ id < after.bound ↔
          block.isListed id = true ∨ block.bound ≤ id ∧ id < after.bound := by
      cases block.isListed id with
      | true => simp
      | false =>
          rw [Bool.or_false, beq_iff_eq]
          constructor
          · rintro (same | ⟨above, below⟩)
            · exact .inr ⟨Nat.le_of_eq same.symm, same ▸ grows⟩
            · exact .inr ⟨Nat.le_of_succ_le above, below⟩
          · rintro (early | ⟨above, below⟩)
            · cases early
            · exact (Nat.eq_or_lt_of_le above).imp Eq.symm fun behind => ⟨behind, below⟩
    rw [rest.listed, isListed_push, bound_push, List.mem_cons, not_or, present]
    exact and_congr_left fun _ => (and_iff_right (Ne.symm other)).symm

theorem remove (rest : (block.remove id).Edited edits after) (inside : id < block.bound) :
    block.Edited (.remove id :: edits) after where
  bound := by
    rw [rest.bound, bound_remove]
    rfl
  old other before := by
    rw [rest.old other (by rwa [bound_remove]), value_remove]
  new index found there := by
    have later := rest.new index found there
    rwa [bound_remove] at later
  listed other := by
    rw [rest.listed, isListed_remove, bound_remove, List.mem_cons, not_or]
    by_cases same : other = id
    · simp [same, inside]
    · simp [same]

end Block.Edited

theorem Draft.perform_block (draft : Draft) {edit : Edit} {value : Value}
    (is : edit.value? = some value) :
    (draft.perform edit).block = (draft.block.push value).2 := by
  cases edit <;> cases is <;> rfl

theorem Draft.performAll_edited (draft : Draft) {edits : List Edit}
    (known : Edit.Known draft.block.bound edits) :
    draft.block.Edited edits (edits.foldl Draft.perform draft).block := by
  induction edits generalizing draft with
  | nil => exact .nil _
  | cons edit edits ih =>
      cases is : edit.value? with
      | some value =>
          have block := draft.perform_block is
          have rest := ih (draft.perform edit) (by
            rw [block, Block.bound_push]
            exact known.push is)
          rw [block] at rest
          exact rest.push is
      | none =>
          obtain ⟨id, rfl⟩ := Edit.eq_remove is
          obtain ⟨inside, known⟩ := known
          have rest := ih (draft.perform (.remove id)) (by
            show Edit.Known (draft.block.remove id).bound edits
            rwa [Block.bound_remove])
          exact rest.remove inside

namespace Arena

variable {arena start : Arena} {draft : Draft} {edits : List Edit}

theorem Holds.perform (holds : arena.Holds draft.block) (edit : Edit) :
    (arena.perform edit).Holds (draft.perform edit).block := by
  cases edit with
  | push kind => exact holds.append _
  | pushWithSite kind site => exact holds.append _
  | constant type value => exact holds.append _
  | remove id => exact holds.remove id

/-- An arena and a block that go through the same changes stay together. -/
theorem Holds.performAll (holds : arena.Holds draft.block) (edits : List Edit) :
    (edits.foldl Arena.perform arena).Holds (edits.foldl Draft.perform draft).block := by
  induction edits generalizing arena draft with
  | nil => exact holds
  | cons edit edits ih => exact ih (holds.perform edit)

/-- What an arena shows of the values that were appended, and of those that are in its list. -/
structure Lists (arena : Arena) (values : List Value) (kept : List ValueId) : Prop where
  bound : arena.bound = values.length
  /-- Every value stays what it was, also when it is not in the list. -/
  value : ∀ id value, values[id]? = some value → arena.value id = value
  size : arena.size = kept.length
  ascending : kept.Pairwise (· < ·)
  ids : arena.ids = kept
  idsBack : arena.idsBack = kept.reverse
  /-- Behind the last value there is nothing, however often one asks. -/
  forward : ∀ rounds, arena.answers (List.replicate rounds .front) =
    (kept.map some).take rounds ++ List.replicate (rounds - kept.length) none
  backward : ∀ rounds, arena.answers (List.replicate rounds .back) =
    (kept.reverse.map some).take rounds ++ List.replicate (rounds - kept.length) none
  /-- Whichever ends are asked, there are values until each was given once. -/
  ends : ∀ sides, ∃ taken left : List ValueId,
    arena.answers sides =
      taken.map some ++ List.replicate (sides.length - kept.length) none ∧
    (taken ++ left).Perm kept ∧ (kept.length ≤ sides.length → left = [])

private theorem filterMap_answers (kept : List ValueId) {rounds : Nat}
    (few : kept.length ≤ rounds) :
    ((kept.map some).take rounds ++ List.replicate (rounds - kept.length) none).filterMap id =
      kept := by
  rw [List.take_of_length_le (by rwa [List.length_map]), List.filterMap_append, List.filterMap_map]
  simp

theorem Holds.lists {block : Block} {values : List Value} (holds : arena.Holds block)
    (bound : block.bound = values.length)
    (value : ∀ id value, values[id]? = some value → block.value id = value) :
    arena.Lists values block.ids := by
  have few : block.ids.length ≤ arena.bound := by
    rw [holds.bound, Block.ids]
    refine Nat.le_trans (List.length_filter_le _ _) ?_
    rw [List.length_range]
  have forward (rounds : Nat) := (holds.chain.answers (List.replicate rounds .front)).trans
    (Walk.answers_front rounds block.ids)
  have backward (rounds : Nat) := (holds.chain.answers (List.replicate rounds .back)).trans
    (Walk.answers_back rounds block.ids)
  constructor
  · rw [holds.bound, bound]
  · intro id found is
    rw [holds.values]
    exact value id found is
  · exact holds.size
  · exact block.ids_pairwise
  · rw [ids, collect, forward]
    exact filterMap_answers block.ids few
  · rw [← List.length_reverse] at few
    have whole := filterMap_answers block.ids.reverse few
    rw [idsBack, collect, backward]
    rwa [List.length_reverse] at whole
  · exact forward
  · exact backward
  · intro sides
    rw [holds.chain.answers]
    exact Walk.answers_perm sides block.ids

/-- The arena of a block shows the values of the block. -/
theorem ofBlock_lists (block : Block) :
    block.arena.Lists (block.entries.toList.map Entry.value) block.ids := by
  refine block.arena_holds.lists (by simp [Block.bound]) fun id value is => ?_
  obtain ⟨entry, there, rfl⟩ := by simpa using is
  rw [Block.value, Array.getD_eq_getD_getElem?, there]
  rfl

theorem ofBlock_ascending (block : Block) : block.arena.ids.Pairwise (· < ·) := by
  rw [(ofBlock_lists block).ids]
  exact (ofBlock_lists block).ascending

/-- Numbers are handed out in order, and none of them twice. -/
theorem handOut_eq (arena : Arena) (edits : List Edit) :
    arena.handOut edits = List.range' arena.bound (edits.filterMap Edit.value?).length := by
  induction edits generalizing arena with
  | nil => rfl
  | cons edit edits ih =>
      have pushed (value : Value) :
          arena.bound :: (arena.append value).2.handOut edits =
            List.range' arena.bound ((edits.filterMap Edit.value?).length + 1) := by
        rw [ih, bound_append, List.range'_succ]
      cases edit with
      | push kind => exact pushed _
      | pushWithSite kind site => exact pushed _
      | constant type value => exact pushed _
      | remove id =>
          have rest := ih (arena.remove id)
          rw [bound_remove] at rest
          exact rest

/-- Whatever is appended to a new list and removed from it, the list shows what was appended and
not removed. -/
theorem performAll_lists (fresh : start = .empty ∨ ∃ used : Arena, start = used.reset)
    (known : Edit.Known 0 edits) :
    (edits.foldl Arena.perform start).Lists (edits.filterMap Edit.value?)
      ((start.handOut edits).filter fun id => Edit.remove id ∉ edits) := by
  have blank : start = .empty := by
    rcases fresh with same | ⟨used, same⟩
    · exact same
    · rw [same, reset_eq]
  have holds :
      (edits.foldl Arena.perform start).Holds (edits.foldl Draft.perform .empty).block := by
    rw [blank]
    exact Holds.performAll .empty edits
  have edited := Draft.empty.performAll_edited known
  have bound := edited.bound.trans (Nat.zero_add _)
  have ids : (edits.foldl Draft.perform .empty).block.ids =
      (start.handOut edits).filter fun id => Edit.remove id ∉ edits := by
    have numbers : start.handOut edits = List.range (edits.filterMap Edit.value?).length := by
      rw [handOut_eq, blank, List.range_eq_range']
      rfl
    rw [Block.ids, bound, numbers]
    refine List.filter_congr fun id member => ?_
    -- What is handed out was appended, so only a removal can take it from the list.
    have inside := bound ▸ List.mem_range.mp member
    rw [Bool.eq_iff_iff, edited.listed, decide_eq_true_iff]
    exact and_iff_left (.inr ⟨Nat.zero_le id, inside⟩)
  rw [← ids]
  refine holds.lists bound fun id value is => ?_
  have there := edited.new id value is
  rwa [show Draft.empty.block.bound = 0 from rfl, Nat.zero_add] at there

def relinkingEdits : List Edit :=
  [.constant .u64 0, .constant .u64 1, .constant .u64 2, .constant .u64 3, .remove 0, .remove 2,
    .remove 2]

theorem relinkingEdits_lists :
    Edit.Known 0 relinkingEdits ∧
      (relinkingEdits.foldl Arena.perform (Arena.empty.push (.constant .u8 7)).2.reset).Lists
        (relinkingEdits.filterMap Edit.value?) [1, 3] ∧
      (relinkingEdits.foldl Arena.perform .empty).ids = [1, 3] := by
  have known : Edit.Known 0 relinkingEdits := by decide
  refine ⟨known, performAll_lists (.inr ⟨_, rfl⟩) known, ?_⟩
  exact (performAll_lists (.inl rfl) known).ids

end Arena

end MipsRecompiler.Ir
