import MipsRecompiler.Proofs.Ir.Folding

/-!
# Values that are used at once

Most values of a block are only used by one of the next two, and values that use many others are
rare. The exceptions are kept in a list. Optimizing a block adds none.
-/

set_option autoImplicit false

namespace MipsRecompiler.Ir

/-- At most two values are used. -/
def Value.UsesFew (value : Value) : Prop :=
  ∃ one two, ∀ used ∈ value.uses, used = one ∨ used = two

namespace Value

variable {value first second : Value}

theorem UsesFew.of_operands {kind : Kind} (short : kind.operands.length ≤ 2) :
    UsesFew ⟨kind, none⟩ := by
  rw [UsesFew, Value.uses, List.append_nil]
  generalize kind.operands = operands at short
  rcases operands with _ | ⟨one, _ | ⟨two, _ | ⟨three, rest⟩⟩⟩
  · exact ⟨0, 0, fun used member => absurd member List.not_mem_nil⟩
  · exact ⟨one, one, fun used member => .inl (List.mem_singleton.mp member)⟩
  · exact ⟨one, two, fun used member => by simpa using member⟩
  · simp at short

theorem UsesFew.mate (few : value.UsesFew) {id : ValueId} (uses : id ∈ value.uses) :
    ∃ mate, ∀ used ∈ value.uses, used = id ∨ used = mate := by
  obtain ⟨one, two, all⟩ := few
  rcases all id uses with rfl | rfl
  · exact ⟨two, all⟩
  · exact ⟨one, fun used member => (all used member).symm⟩

theorem Stands.usesFew (stands : first.Stands second) (few : first.UsesFew) : second.UsesFew := by
  obtain ⟨one, two, all⟩ := few
  exact ⟨one, two, fun used member => all used (stands.uses member)⟩

theorem Stands.result_iff (stands : first.Stands second) :
    second.kind.resultClass?.isSome = true ↔ first.kind.resultClass?.isSome = true := by
  refine ⟨fun result => ?_, stands.result⟩
  cases stands with
  | same => exact result
  | constant arithmetic => 
      generalize first.kind = kind at arithmetic
      cases kind <;> first | rfl | cases arithmetic

end Value

namespace Block

variable {block changed : Block} {kept more : List ValueId} {id first : ValueId} {age : Nat}
  {value : Value}

/-- The listed values between two use few. -/
def Calm (block : Block) (first last : ValueId) : Prop :=
  ∀ id, first ≤ id → id ≤ last → block.isListed id = true → (block.value id).UsesFew

/-- Values are used by one of the next two, with nothing between that uses many. All others, and
results that use many themselves, are kept in a list. -/
structure Brief (block : Block) (kept : List ValueId) : Prop where
  near : ∀ user, block.isListed user = true → ∀ used ∈ (block.value user).uses,
    used ∈ kept ∨ (used < user ∧ user ≤ used + 2 ∧ block.Calm used user)
  busy : ∀ id, block.isListed id = true → (block.kind id).resultClass?.isSome = true →
    ¬(block.value id).UsesFew → id ∈ kept

/-- A value is one of the last, and none since uses many. -/
structure Near (block : Block) (age : Nat) (id : ValueId) : Prop where
  before : id < block.bound
  recent : block.bound ≤ id + age
  calm : block.Calm id block.bound

theorem Brief.empty : Brief .empty kept where
  near user listed := absurd (isListed_lt_bound listed) (Nat.not_lt_zero user)
  busy id listed := absurd (isListed_lt_bound listed) (Nat.not_lt_zero id)

theorem Brief.mono (brief : block.Brief kept) (grows : kept ⊆ more) : block.Brief more where
  near user listed used uses := (brief.near user listed used uses).imp_left (grows ·)
  busy id listed result many := grows (brief.busy id listed result many)

theorem Reduces.brief (reduces : Reduces block changed) (brief : block.Brief kept) :
    changed.Brief kept where
  near user listed used uses := by
    have stands := reduces.stands user listed
    refine (brief.near user (reduces.listed user listed) used (stands.uses uses)).imp_right
      fun ⟨before, close, calm⟩ => ⟨before, close, fun id behind within present => ?_⟩
    exact (reduces.stands id present).usesFew (calm id behind within (reduces.listed id present))
  busy id listed result many := by
    have stands := reduces.stands id listed
    exact brief.busy id (reduces.listed id listed) (stands.result_iff.mp result)
      fun few => many (stands.usesFew few)

/-! ## Appending -/

theorem isListed_push_of_ne (value : Value) (differs : id ≠ block.bound) :
    (block.push value).2.isListed id = block.isListed id := by
  simp [isListed_push, differs]

theorem Calm.push_before (calm : block.Calm first id) (inside : id < block.bound) :
    (block.push value).2.Calm first id := by
  intro other behind within listed
  have below := Nat.lt_of_le_of_lt within inside
  rw [isListed_push_of_ne value (Nat.ne_of_lt below)] at listed
  rw [value_push_of_lt value below]
  exact calm other behind within listed

theorem Calm.push (calm : block.Calm first block.bound) (few : value.UsesFew) (last : ValueId) :
    (block.push value).2.Calm first last := by
  intro id behind _ listed
  rw [value_push]
  split
  · exact few
  · rename_i older
    rw [isListed_push_of_ne value older] at listed
    exact calm id behind (Nat.le_of_lt (isListed_lt_bound listed)) listed

theorem Near.push (near : block.Near age id) (few : value.UsesFew) :
    (block.push value).2.Near (age + 1) id where
  before := by
    rw [bound_push]
    exact Nat.lt_succ_of_lt near.before
  recent := by
    rw [bound_push]
    exact Nat.succ_le_succ near.recent
  calm := near.calm.push few _

theorem Near.pushed (few : value.UsesFew) : (block.push value).2.Near 1 block.bound where
  before := by
    rw [bound_push]
    exact Nat.lt_succ_self _
  recent := Nat.le_of_eq (bound_push block value)
  calm := Calm.push (fun _ behind _ listed =>
    absurd (isListed_lt_bound listed) (Nat.not_lt_of_le behind)) few _

theorem Near.older (near : block.Near age id) {other : Nat} (order : age ≤ other) :
    block.Near other id :=
  { near with recent := Nat.le_trans near.recent (Nat.add_le_add_left order id) }

private theorem Brief.append (brief : block.Brief kept)
    (near : ∀ used ∈ value.uses, used ∈ kept ∨ (used < block.bound ∧ block.bound ≤ used + 2 ∧
      (block.push value).2.Calm used block.bound))
    (busy : value.kind.resultClass?.isSome = true → ¬value.UsesFew → block.bound ∈ kept) :
    (block.push value).2.Brief kept where
  near user listed used uses := by
    by_cases here : user = block.bound
    · subst here
      rw [value_push, if_pos rfl] at uses
      exact near used uses
    · rw [isListed_push_of_ne value here] at listed
      rw [value_push, if_neg here] at uses
      exact (brief.near user listed used uses).imp_right fun ⟨before, close, calm⟩ =>
        ⟨before, close, calm.push_before (isListed_lt_bound listed)⟩
  busy id listed result many := by
    rw [kind, value_push] at result
    rw [value_push] at many
    by_cases here : id = block.bound
    · rw [if_pos here] at result many
      exact here ▸ busy result many
    · rw [if_neg here] at result many
      rw [isListed_push_of_ne value here] at listed
      exact brief.busy id listed result many

theorem Brief.push (brief : block.Brief kept) (few : value.UsesFew)
    (known : ∀ used ∈ value.uses, used ∈ kept ∨ block.Near 2 used) :
    (block.push value).2.Brief kept :=
  brief.append
    (fun used uses => (known used uses).imp_right fun near =>
      ⟨near.before, near.recent, near.calm.push few _⟩)
    fun _ many => absurd few many

/-- A value may use many that are kept, if it is kept itself or has no result. -/
theorem Brief.pushBusy (brief : block.Brief kept) (known : ∀ used ∈ value.uses, used ∈ kept)
    (result : value.kind.resultClass?.isSome = true → block.bound ∈ kept) :
    (block.push value).2.Brief kept :=
  brief.append (fun used uses => .inl (known used uses)) fun some _ => result some

end Block

end MipsRecompiler.Ir
