import MipsRecompiler.Proofs.Allocation.Interference

/-!
# Values have places

The scan gives every result a place. A value may lose its register to a later one, but only for a
spill slot, and only constants stand in the instructions that use them.
-/

set_option autoImplicit false

namespace MipsRecompiler.Allocation

open Ir (Block RegisterClass Value ValueId)

namespace Scan

variable {scan next : Scan} {id : ValueId} {kind : RegisterClass}

/-- A value got a place at run time, and others stayed where they were or went to spill slots. -/
structure Settles (scan next : Scan) (id : ValueId) : Prop where
  placed : next.get id ≠ .none
  atRunTime : next.get id ≠ .immediate
  others : ∀ other, other ≠ id →
    next.get other = scan.get other ∨ ∃ kind slot, next.get other = .spilled kind slot
  size : next.placements.size = scan.placements.size

theorem settles_assign {lastUse : ValueId} {pool : Pool} (inside : id < scan.placements.size)
    (assigned : Assigned scan kind id lastUse pool next) : Settles scan next id := by
  obtain ⟨mine, others⟩ := assigned.get inside
  refine ⟨?_, ?_, fun other differs => (others other differs).imp_right ?_, assigned.size⟩
  · rcases mine with ⟨reg, is⟩ | ⟨slot, is⟩ <;> simp [is]
  · rcases mine with ⟨reg, is⟩ | ⟨slot, is⟩ <;> simp [is]
  · rintro ⟨-, slot, goes⟩
    exact ⟨kind, slot, goes⟩

def Covers (block : Block) (done : List ValueId) (scan : Scan) : Prop :=
  ∀ id ∈ done, (block.kind id).resultClass?.isSome = true →
    scan.get id ≠ .none ∧ (scan.get id = .immediate → (block.kind id).constant?.isSome = true)

variable {block : Block} {platform : Platform} {done : List ValueId}

private theorem Covers.settle (covers : scan.Covers block done) (settles : Settles scan next id) :
    next.Covers block (done ++ [id]) := by
  intro other member result
  by_cases same : other = id
  · rw [same]
    exact ⟨settles.placed, fun immediate => absurd immediate settles.atRunTime⟩
  · have visited : other ∈ done := by simpa [same] using member
    rcases settles.others other same with stays | ⟨kind, slot, goes⟩
    · rw [stays]
      exact covers other visited result
    · rw [goes]
      exact ⟨by simp, by simp⟩

theorem Covers.visit (covers : scan.Covers block done) {last : Array (Option ValueId)}
    (inside : id < scan.placements.size)
    (visited : scan.visit platform last id (block.value id) = .ok next) :
    next.Covers block (done ++ [id]) := by
  rcases visit_ok visited with ⟨none, rfl⟩ | ⟨-, accepted, rfl⟩ | ⟨kind, -, -, assigned⟩
  · intro other member result
    rcases List.mem_append.mp member with before | mine
    · exact covers other before result
    · rw [List.mem_singleton.mp mine, Block.kind, none] at result
      cases result
  · intro other member result
    rw [get_place scan inside]
    split
    next mine =>
      rw [mine]
      exact ⟨by simp, fun _ => Platform.constant_of_accepts accepted⟩
    next differs => exact covers other (by simpa [differs] using member) result
  · exact covers.settle (settles_assign inside assigned)

/-! ## Where the scan fails -/

variable {reason : CompileError}

private theorem spill_error (fails : scan.spill kind id = .error reason) :
    ∃ slots, reason = .spillExhausted slots := by
  unfold spill at fails
  split at fails
  · cases fails
  · cases fails
    exact ⟨_, rfl⟩

private theorem assign_error {lastUse : ValueId}
    (fails : scan.assign kind id lastUse = .error reason) :
    ∃ slots, reason = .spillExhausted slots := by
  simp only [assign] at fails
  split at fails
  · cases fails
  · split at fails
    · rename_i longest _
      split at fails
      · dsimp only [bind, Except.bind] at fails
        cases spills : scan.spill kind longest.value with
        | error cause =>
            rw [spills] at fails
            cases fails
            exact spill_error spills
        | ok spilled =>
            rw [spills] at fails
            cases fails
      · exact spill_error fails
    · exact spill_error fails

private theorem visit_error {platform : Platform} {last : Array (Option ValueId)} {value : Value}
    (fails : scan.visit platform last id value = .error reason) :
    ∃ slots, reason = .spillExhausted slots := by
  unfold visit at fails
  split at fails
  · cases fails
  · dsimp only at fails
    split at fails
    · split at fails
      · cases fails
      · exact assign_error fails
    · exact assign_error fails

end Scan

variable {block : Block} {platform : Platform} {allocation : Allocation} {id : ValueId}

theorem ofBlock_covers (allocated : ofBlock block platform = .ok allocation)
    (defined : block.Defined id) :
    allocation.get id ≠ .none ∧
      (allocation.get id = .immediate → (block.kind id).constant?.isSome = true) := by
  obtain ⟨last, scan, covers, done, rfl⟩ := ofBlock_visits
    (motive := fun now scan => scan.Covers block (block.ids.filter (· < now))) allocated
    (by simp [Scan.Covers])
    (by
      intro now id scan next follows inside covers visited other member
      refine covers.visit inside visited other (List.mem_append.mpr ?_)
      rw [List.mem_filter, decide_eq_true_eq, Block.mem_ids] at member ⊢
      rw [List.mem_singleton]
      by_cases before : other < now
      · exact .inl ⟨member.1, before⟩
      · have behind := follows.first other (Nat.le_of_not_lt before) member.1
        exact .inr (Nat.le_antisymm (Nat.le_of_lt_succ member.2) behind))
  refine covers id (List.mem_filter.mpr ⟨Block.mem_ids.mpr defined.listed, ?_⟩) defined.result
  exact decide_eq_true (done id defined.listed)

/-- However the registers of a platform are numbered, no block gets more slots than there are. -/
theorem ofBlock_spillSlots_le (allocated : ofBlock block platform = .ok allocation) :
    allocation.spillSlots ≤ maxSpillSlots := by
  obtain ⟨last, scan, within, -, rfl⟩ := ofBlock_visits
    (motive := fun _ scan => scan.spillSlots ≤ maxSpillSlots) allocated (Nat.zero_le _)
    (by
      intro now id scan next _ _ within visited
      rcases Scan.visit_ok visited with ⟨-, rfl⟩ | ⟨-, -, rfl⟩ | ⟨kind, -, -, assigned⟩
      · exact within
      · exact within
      · exact assigned.spillSlots within)
  exact within

/-- Placing the values of a block fails only for want of spill slots. -/
theorem ofBlock_error {reason : CompileError} (fails : ofBlock block platform = .error reason) :
    ∃ slots, reason = .spillExhausted slots := by
  obtain ⟨_, _, _, -, -, -, stopped⟩ := ofBlock_stops (motive := fun _ _ => True) fails trivial
    fun _ _ _ _ _ _ _ _ => trivial
  exact Scan.visit_error stopped

end MipsRecompiler.Allocation
