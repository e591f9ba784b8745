import MipsRecompiler.Ir.Block
import Mathlib.Data.List.Sort

/-!
# Well-formed blocks

What every block has that compilation makes: a value uses only listed values before it that have
a result, what can leave the block says how, few enough registers are written back at an exit, and
every store goes to an address that was translated for it.
-/

set_option autoImplicit false

namespace MipsRecompiler.Ir

namespace Kind

/-- The state field that a value reads or writes. -/
def field? : Kind → Option StateField
  | .loadState field | .storeState field _ => some field
  | _ => none

/-- The value that a store takes its address from, and how much it stores there. -/
def target? : Kind → Option (ValueId × AccessSize)
  | .store size address _ => some (address, size)
  | _ => none

def leaves : Kind → Bool
  | .binary op _ _ => op.traps
  | .translate _ _ _ | .exitIf _ _ => true
  | .call routine _ => routine.mayRaise
  | _ => false

def continues : Kind → Bool
  | .setExitPc _ | .setExitPcIf _ _ _ => true
  | _ => false

theorem target?_mem {kind : Kind} {target : ValueId × AccessSize}
    (is : kind.target? = some target) : target.1 ∈ kind.operands := by
  cases kind <;> cases is
  exact List.mem_cons_self

end Kind

namespace Block

variable {block : Block} {id other : ValueId} {value : Value}

/-! ## The numbers in a block -/

theorem isListed_lt_bound (listed : block.isListed id = true) : id < block.bound := by
  unfold isListed at listed
  cases present : block.entries[id]? with
  | none => simp [present] at listed
  | some entry => exact (Array.getElem?_eq_some_iff.mp present).1

@[simp] theorem mem_ids : id ∈ block.ids ↔ block.isListed id = true := by
  simp only [ids, List.mem_filter, List.mem_range, and_iff_right_iff_imp]
  exact isListed_lt_bound

theorem ids_pairwise (block : Block) : block.ids.Pairwise (· < ·) :=
  List.pairwise_lt_range.filter _

theorem ids_nodup (block : Block) : block.ids.Nodup :=
  block.ids_pairwise.imp Nat.ne_of_lt

theorem mem_values {entry : ValueId × Value} :
    entry ∈ block.values ↔ block.isListed entry.1 = true ∧ entry.2 = block.value entry.1 := by
  obtain ⟨id, value⟩ := entry
  simp only [values, List.mem_map, mem_ids, Prod.mk.injEq]
  constructor
  · rintro ⟨id, listed, rfl, rfl⟩
    exact ⟨listed, rfl⟩
  · rintro ⟨listed, rfl⟩
    exact ⟨id, listed, rfl, rfl⟩

theorem value_of_le (outside : block.bound ≤ id) : block.value id = default := by
  have missing : block.entries[id]? = none := Array.getElem?_eq_none outside
  rw [Block.value, Array.getD_eq_getD_getElem?, missing]
  rfl

/-! ## Appending -/

@[simp] theorem bound_push (block : Block) (value : Value) :
    (block.push value).2.bound = block.bound + 1 := by
  simp [push, bound]

theorem value_push (block : Block) (value : Value) (id : ValueId) :
    (block.push value).2.value id = if id = block.bound then value else block.value id := by
  simp only [push, bound, Block.value, Array.getD_eq_getD_getElem?, Array.getElem?_push]
  split <;> simp_all

theorem isListed_push (block : Block) (value : Value) (id : ValueId) :
    (block.push value).2.isListed id = (id == block.bound || block.isListed id) := by
  simp only [push, bound, isListed, Array.getElem?_push]
  by_cases last : id = block.entries.size <;> simp [last]

theorem value_push_of_lt (value : Value) (before : id < block.bound) :
    (block.push value).2.value id = block.value id := by
  rw [value_push, if_neg (Nat.ne_of_lt before)]

theorem ids_push (block : Block) (value : Value) :
    (block.push value).2.ids = block.ids ++ [block.bound] := by
  have old : (List.range block.bound).filter (block.push value).2.isListed = block.ids := by
    refine List.filter_congr fun id member => ?_
    have before : id ≠ block.bound := Nat.ne_of_lt (List.mem_range.mp member)
    simp [isListed_push, before]
  rw [ids, bound_push, List.range_succ, List.filter_append, old]
  simp [isListed_push]

theorem values_push (block : Block) (value : Value) :
    (block.push value).2.values = block.values ++ [(block.bound, value)] := by
  have old : block.ids.map (fun id => (id, (block.push value).2.value id)) = block.values := by
    refine List.map_congr_left fun id member => ?_
    rw [value_push_of_lt value (isListed_lt_bound (mem_ids.mp member))]
  rw [values, ids_push, List.map_append, old]
  simp [value_push]

/-! ## Replacing and removing -/

@[simp] theorem bound_replace (block : Block) (id : ValueId) (value : Value) :
    (block.replace id value).bound = block.bound := by
  simp [replace, bound]

@[simp] theorem isListed_replace (block : Block) (id other : ValueId) (value : Value) :
    (block.replace id value).isListed other = block.isListed other := by
  simp only [replace, isListed, Array.getElem?_modify]
  cases block.entries[other]? <;> by_cases same : id = other <;> simp [same]

@[simp] theorem ids_replace (block : Block) (id : ValueId) (value : Value) :
    (block.replace id value).ids = block.ids := by
  have same : (block.replace id value).isListed = block.isListed :=
    funext fun other => isListed_replace block id other value
  rw [ids, ids, bound_replace, same]

theorem value_replace_of_ne (block : Block) (value : Value) (differs : other ≠ id) :
    (block.replace id value).value other = block.value other := by
  simp only [replace, Block.value, Array.getD_eq_getD_getElem?, Array.getElem?_modify,
    if_neg (Ne.symm differs)]

theorem value_replace_of_lt (value : Value) (inside : id < block.bound) (other : ValueId) :
    (block.replace id value).value other = if other = id then value else block.value other := by
  have size : id < block.entries.size := inside
  simp only [replace, Block.value, Array.getD_eq_getD_getElem?, Array.getElem?_modify]
  by_cases same : other = id
  · subst same
    simp [Array.getElem?_eq_getElem size]
  · simp [same, Ne.symm same]

theorem value_replace_of_le (value : Value) (outside : block.bound ≤ id) (other : ValueId) :
    (block.replace id value).value other = block.value other := by
  have none : block.entries[id]? = none := Array.getElem?_eq_none outside
  simp only [replace, Block.value, Array.getD_eq_getD_getElem?, Array.getElem?_modify]
  by_cases same : id = other
  · subst same
    simp [none]
  · simp [same]

theorem value_replace (value : Value) (listed : block.isListed id = true) (other : ValueId) :
    (block.replace id value).value other = if other = id then value else block.value other :=
  value_replace_of_lt value (isListed_lt_bound listed) other

theorem kind_replace (value : Value) (listed : block.isListed id = true) (other : ValueId) :
    (block.replace id value).kind other = if other = id then value.kind else block.kind other := by
  simp only [kind, value_replace value listed]
  split <;> rfl

@[simp] theorem bound_remove (block : Block) (id : ValueId) :
    (block.remove id).bound = block.bound := by
  simp [remove, bound]

@[simp] theorem value_remove (block : Block) (id other : ValueId) :
    (block.remove id).value other = block.value other := by
  simp only [remove, Block.value, Array.getD_eq_getD_getElem?, Array.getElem?_modify]
  cases block.entries[other]? <;> by_cases same : id = other <;> simp [same]

@[simp] theorem kind_remove (block : Block) (id other : ValueId) :
    (block.remove id).kind other = block.kind other := by
  simp [kind]

theorem isListed_remove (block : Block) (id other : ValueId) :
    (block.remove id).isListed other = (other != id && block.isListed other) := by
  simp only [remove, isListed, Array.getElem?_modify]
  by_cases same : other = id
  · cases block.entries[other]? <;> simp [same]
  · cases block.entries[other]? <;> simp [same, Ne.symm same]

theorem ids_remove (block : Block) (id : ValueId) :
    (block.remove id).ids = block.ids.filter (· != id) := by
  rw [ids, ids, bound_remove, List.filter_filter]
  exact List.filter_congr fun other _ => isListed_remove block id other

theorem ids_remove_of_split {before behind : List ValueId}
    (split : block.ids = before ++ id :: behind) : (block.remove id).ids = before ++ behind := by
  have distinct := block.ids_nodup
  rw [split] at distinct
  have early : id ∉ before := fun member =>
    (List.nodup_cons.mp (List.nodup_middle.mp distinct)).1 (List.mem_append_left _ member)
  rw [ids_remove, ← block.ids_nodup.erase_eq_filter, split, List.erase_append_right _ early,
    List.erase_cons_head]

theorem ids_remove_of_not_mem (gone : id ∉ block.ids) : (block.remove id).ids = block.ids := by
  rw [ids_remove, List.filter_eq_self]
  exact fun other member => bne_iff_ne.mpr fun same => gone (same ▸ member)

/-! ## Well-formedness -/

/-- A listed value with a result. -/
structure Defined (block : Block) (id : ValueId) : Prop where
  listed : block.isListed id = true
  result : (block.kind id).resultClass?.isSome = true

instance : Decidable (block.Defined id) :=
  decidable_of_iff (block.isListed id = true ∧ (block.kind id).resultClass?.isSome = true)
    ⟨fun both => ⟨both.1, both.2⟩, fun defined => ⟨defined.listed, defined.result⟩⟩

/-- The values of a block use only listed values before them that have a result. -/
def Ordered (block : Block) : Prop :=
  ∀ entry ∈ block.values, ∀ used ∈ entry.2.uses, used < entry.1 ∧ block.Defined used

/-- The values that can leave a block say how. -/
def Sited (block : Block) : Prop :=
  ∀ entry ∈ block.values, entry.2.kind.leaves = true → entry.2.site.isSome = true

instance : Decidable block.Ordered :=
  inferInstanceAs (Decidable (∀ entry ∈ block.values, ∀ used ∈ entry.2.uses,
    used < entry.1 ∧ block.Defined used))

instance : Decidable block.Sited :=
  inferInstanceAs (Decidable (∀ entry ∈ block.values,
    entry.2.kind.leaves = true → entry.2.site.isSome = true))

/-- A block that can be expressed in host code. -/
structure Lowerable (block : Block) : Prop where
  ordered : block.Ordered
  /-- An exit writes back no more registers than there are. -/
  flush : ∀ entry ∈ block.values, ∀ site ∈ entry.2.site, site.flush.length ≤ 64
  field : ∀ entry ∈ block.values, ∀ reg, entry.2.kind.field? = some (.control reg) → reg < 32

theorem value_mem (listed : block.isListed id = true) : (id, block.value id) ∈ block.values :=
  mem_values.mpr ⟨listed, rfl⟩

theorem Ordered.uses (ordered : block.Ordered) (listed : block.isListed id = true) {used : ValueId}
    (uses : used ∈ (block.value id).uses) : used < id ∧ block.Defined used :=
  ordered _ (value_mem listed) used uses

/-- A value that can stand at a place of a block. -/
structure Fits (block : Block) (id : ValueId) (value : Value) : Prop where
  uses : ∀ used ∈ value.uses, used < id ∧ block.Defined used
  flush : ∀ site ∈ value.site, site.flush.length ≤ 64
  field : ∀ reg, value.kind.field? = some (.control reg) → reg < 32
  /-- A store goes to an address that was translated for it. -/
  store : ∀ target, value.kind.target? = some target →
    ∃ virtual, block.kind target.1 = .translate virtual .store target.2

/-- A block all of whose values fit. -/
def WellFormed (block : Block) : Prop :=
  ∀ id, block.isListed id = true → block.Fits id (block.value id)

theorem WellFormed.lowerable (formed : block.WellFormed) : block.Lowerable where
  ordered := by
    intro entry member
    obtain ⟨listed, same⟩ := mem_values.mp member
    rw [same]
    exact (formed entry.1 listed).uses
  flush := by
    intro entry member
    obtain ⟨listed, same⟩ := mem_values.mp member
    rw [same]
    exact (formed entry.1 listed).flush
  field := by
    intro entry member
    obtain ⟨listed, same⟩ := mem_values.mp member
    rw [same]
    exact (formed entry.1 listed).field

theorem WellFormed.empty : Block.empty.WellFormed :=
  fun id listed => absurd (isListed_lt_bound listed) (Nat.not_lt_zero id)

theorem Defined.lt_bound (defined : block.Defined id) : id < block.bound :=
  isListed_lt_bound defined.listed

theorem Defined.push (defined : block.Defined id) (value : Value) :
    (block.push value).2.Defined id :=
  ⟨by simp [isListed_push, defined.listed],
    by rw [kind, value_push_of_lt value defined.lt_bound]; exact defined.result⟩

theorem Defined.push_self (block : Block) (result : value.kind.resultClass?.isSome = true) :
    (block.push value).2.Defined block.bound :=
  ⟨by simp [isListed_push], by simpa [kind, value_push] using result⟩

theorem Fits.push (fits : block.Fits id value) (last : Value) (before : id ≤ block.bound) :
    (block.push last).2.Fits id value where
  uses used member :=
    ⟨(fits.uses used member).1, (fits.uses used member).2.push last⟩
  flush := fits.flush
  field := fits.field
  store target is := by
    obtain ⟨virtual, translated⟩ := fits.store target is
    have used : target.1 ∈ value.uses := List.mem_append_left _ (Kind.target?_mem is)
    have earlier : target.1 < block.bound := Nat.lt_of_lt_of_le (fits.uses _ used).1 before
    exact ⟨virtual, by rw [Block.kind, value_push_of_lt last earlier]; exact translated⟩

theorem WellFormed.push (formed : block.WellFormed) (fits : block.Fits block.bound value) :
    (block.push value).2.WellFormed := by
  intro id listed
  rw [value_push]
  split
  · rename_i same
    rw [same]
    exact fits.push value (Nat.le_refl _)
  · rename_i differs
    have old : block.isListed id = true := by simpa [isListed_push, differs] using listed
    exact (formed id old).push value (Nat.le_of_lt (isListed_lt_bound old))

end Block

end MipsRecompiler.Ir
