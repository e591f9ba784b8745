import MipsRecompiler.Allocation.LinearScan
import MipsRecompiler.Proofs.Ir.WellFormed

/-!
# Lifetimes of values

The last use that the scan works with lies behind every use.
-/

set_option autoImplicit false

namespace MipsRecompiler.Allocation

open Ir (Block Value ValueId)

/-- The last value that uses this one, or the value itself. -/
def lastUseOf (block : Block) (id : ValueId) : ValueId :=
  ((lastUses block).getD id none).getD id

private theorem noteUses_getD (last : Array (Option ValueId)) (id : ValueId) (uses : List ValueId)
    (other : ValueId) :
    (uses.foldl (fun last used => last.setIfInBounds used (some id)) last).size = last.size ∧
      (uses.foldl (fun last used => last.setIfInBounds used (some id)) last).getD other none =
        if other ∈ uses ∧ other < last.size then some id else last.getD other none := by
  induction uses generalizing last with
  | nil => simp
  | cons used rest ih =>
      obtain ⟨size, shown⟩ := ih (last.setIfInBounds used (some id))
      simp only [List.foldl_cons]
      refine ⟨by rw [size, Array.size_setIfInBounds], ?_⟩
      rw [shown, Array.size_setIfInBounds]
      by_cases behind : other ∈ rest ∧ other < last.size
      · simp [behind]
      · rw [if_neg behind]
        by_cases now : other = used
        · subst now
          by_cases inside : other < last.size
          · simp [inside, Array.getD_eq_getD_getElem?]
          · simp [inside, Array.getD_eq_getD_getElem?]
        · have unused : ¬((other ∈ used :: rest) ∧ other < last.size) := by
            simpa [now] using behind
          rw [if_neg unused]
          simp [Array.getD_eq_getD_getElem?, Ne.symm now]

private theorem lastUses_foldl {values : List (ValueId × Value)}
    (sorted : (values.map Prod.fst).Pairwise (· < ·)) (last : Array (Option ValueId))
    (user used : ValueId) (inside : used < last.size)
    (uses : (∃ value, (user, value) ∈ values ∧ used ∈ value.uses) ∨
      ((∃ latest, last.getD used none = some latest ∧ user ≤ latest) ∧
        ∀ entry ∈ values, user ≤ entry.1)) :
    ∃ latest, (values.foldl (fun last (id, value) =>
        value.uses.foldl (fun last used => last.setIfInBounds used (some id)) last) last).getD
        used none = some latest ∧ user ≤ latest := by
  induction values generalizing last with
  | nil =>
      rcases uses with ⟨value, member, -⟩ | ⟨known, -⟩
      · simp at member
      · exact known
  | cons head rest ih =>
      obtain ⟨id, value⟩ := head
      simp only [List.map_cons, List.pairwise_cons, List.mem_map] at sorted
      obtain ⟨size, shown⟩ := noteUses_getD last id value.uses used
      refine ih sorted.2 _ (by rw [size]; exact inside) ?_
      rcases uses with ⟨user', member, used'⟩ | ⟨⟨latest, known, below⟩, later⟩
      · rcases List.mem_cons.mp member with same | behind
        · obtain ⟨rfl, rfl⟩ := Prod.mk.inj same
          right
          refine ⟨⟨user, by rw [shown, if_pos ⟨used', inside⟩], Nat.le_refl _⟩, fun entry found => ?_⟩
          exact Nat.le_of_lt (sorted.1 entry.1 ⟨entry, found, rfl⟩)
        · exact Or.inl ⟨user', behind, used'⟩
      · right
        refine ⟨?_, fun entry found => later entry (List.mem_cons_of_mem _ found)⟩
        rw [shown]
        by_cases marked : used ∈ value.uses ∧ used < last.size
        · exact ⟨id, if_pos marked, later (id, value) List.mem_cons_self⟩
        · exact ⟨latest, (if_neg marked).trans known, below⟩

private theorem lastUses_foldl_mem {values : List (ValueId × Value)}
    (last : Array (Option ValueId)) (user used : ValueId)
    (found : (values.foldl (fun last (id, value) =>
        value.uses.foldl (fun last used => last.setIfInBounds used (some id)) last) last).getD
        used none = some user) :
    last.getD used none = some user ∨ ∃ value, (user, value) ∈ values ∧ used ∈ value.uses := by
  induction values generalizing last with
  | nil => exact .inl found
  | cons head rest ih =>
      obtain ⟨id, value⟩ := head
      rcases ih _ found with noted | ⟨other, member, uses⟩
      · rw [(noteUses_getD last id value.uses used).2] at noted
        split at noted
        next marked =>
          cases noted
          exact .inr ⟨value, List.mem_cons_self, marked.1⟩
        next => exact .inl noted
      · exact .inr ⟨other, List.mem_cons_of_mem _ member, uses⟩

theorem lastUseOf_cases (block : Block) (id : ValueId) :
    lastUseOf block id = id ∨
      ∃ entry ∈ block.values, entry.1 = lastUseOf block id ∧ id ∈ entry.2.uses := by
  cases found : (lastUses block).getD id none with
  | none => exact .inl (by rw [lastUseOf, found]; rfl)
  | some user =>
      have is : lastUseOf block id = user := by rw [lastUseOf, found]; rfl
      rcases lastUses_foldl_mem _ user id found with never | ⟨value, member, uses⟩
      · simp [Array.getD_eq_getD_getElem?, Array.getElem?_replicate] at never
        split at never <;> cases never
      · exact .inr ⟨(user, value), member, is.symm, uses⟩

theorem le_lastUseOf {block : Block} {user used : ValueId} (listed : block.isListed user = true)
    (uses : used ∈ (block.value user).uses) (inside : used < block.bound) :
    user ≤ lastUseOf block used := by
  have sorted : (block.values.map Prod.fst).Pairwise (· < ·) := by
    simpa [Block.values, Function.comp_def] using block.ids_pairwise
  obtain ⟨latest, known, below⟩ := lastUses_foldl sorted (Array.replicate block.bound none) user
    used (by simpa using inside)
    (Or.inl ⟨block.value user, Block.mem_values.mpr ⟨listed, rfl⟩, uses⟩)
  rw [lastUseOf, lastUses, known]
  exact below

end MipsRecompiler.Allocation
