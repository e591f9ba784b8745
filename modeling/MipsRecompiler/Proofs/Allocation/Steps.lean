import MipsRecompiler.Proofs.Allocation.Lifetimes

/-!
# What the scan does with a value

A result takes a free register, the register of the value that is used longest, or a spill slot.
What all of these keep holds of the places that the scan comes to.
-/

set_option autoImplicit false

namespace MipsRecompiler

/-- Whether a value stands in the instructions that use it. -/
def Platform.accepts (platform : Platform) : Ir.Kind → Bool
  | .constant type value => platform.isImmediate type value
  | _ => false

theorem Platform.constant_of_accepts {platform : Platform} {kind : Ir.Kind}
    (accepted : platform.accepts kind = true) : kind.constant?.isSome = true := by
  cases kind with
  | constant => rfl
  | _ => cases accepted

namespace Allocation

open Ir (Block RegisterClass Value ValueId)

namespace Scan

def get (scan : Scan) (id : ValueId) : Placement :=
  scan.placements.getD id .none

@[simp] theorem get_setPool (scan : Scan) (kind : RegisterClass) (pool : Pool) (id : ValueId) :
    (scan.setPool kind pool).get id = scan.get id := by
  cases kind <;> rfl

@[simp] theorem size_setPool (scan : Scan) (kind : RegisterClass) (pool : Pool) :
    (scan.setPool kind pool).placements.size = scan.placements.size := by
  cases kind <;> rfl

@[simp] theorem spillSlots_setPool (scan : Scan) (kind : RegisterClass) (pool : Pool) :
    (scan.setPool kind pool).spillSlots = scan.spillSlots := by
  cases kind <;> rfl

theorem pool_setPool (scan : Scan) (kind other : RegisterClass) (pool : Pool) :
    (scan.setPool kind pool).pool other = if other = kind then pool else scan.pool other := by
  cases kind <;> cases other <;> rfl

@[simp] theorem setPool_setPool (scan : Scan) (kind : RegisterClass) (pool other : Pool) :
    (scan.setPool kind pool).setPool kind other = scan.setPool kind other := by
  cases kind <;> rfl

@[simp] theorem size_place (scan : Scan) (id : ValueId) (placement : Placement) :
    (scan.place id placement).placements.size = scan.placements.size := by
  simp [place]

@[simp] theorem pool_place (scan : Scan) (id : ValueId) (placement : Placement)
    (kind : RegisterClass) : (scan.place id placement).pool kind = scan.pool kind := by
  cases kind <;> rfl

theorem get_place (scan : Scan) {id : ValueId} (inside : id < scan.placements.size)
    (placement : Placement) (other : ValueId) :
    (scan.place id placement).get other = if other = id then placement else scan.get other := by
  simp only [place, get, Array.getD_eq_getD_getElem?, Array.getElem?_setIfInBounds]
  by_cases same : other = id
  · subst same
    simp [inside]
  · simp [same, Ne.symm same]

variable {platform : Platform} {scan next : Scan} {kind other : RegisterClass}
  {id lastUse : ValueId} {pool : Pool}

private theorem get_place_other (scan : Scan) (placement : Placement) {other : ValueId}
    (differs : other ≠ id) : (scan.place id placement).get other = scan.get other := by
  simp only [place, get, Array.getD_eq_getD_getElem?, Array.getElem?_setIfInBounds,
    if_neg (Ne.symm differs)]

theorem lt_size_of_get (placed : scan.get id ≠ .none) : id < scan.placements.size := by
  by_contra outside
  exact placed (by
    rw [get, Array.getD_eq_getD_getElem?, Array.getElem?_eq_none (Nat.le_of_not_lt outside)]
    rfl)

/-! ## Spilling -/

theorem spill_setPool (scan : Scan) (kind : RegisterClass) (pool : Pool) (id : ValueId) :
    (scan.setPool kind pool).spill kind id =
      (scan.spill kind id).map (·.setPool kind pool) := by
  unfold spill
  rw [spillSlots_setPool]
  split
  · cases kind <;> rfl
  · rfl

theorem spill_ok (spills : scan.spill kind id = .ok next) :
    scan.spillSlots < maxSpillSlots ∧
      next = { scan.place id (.spilled kind (BitVec.ofNat 16 scan.spillSlots)) with
        spillSlots := scan.spillSlots + 1 } := by
  unfold spill at spills
  split at spills
  next room =>
    cases spills
    exact ⟨room, rfl⟩
  next => cases spills

theorem size_spill (spills : scan.spill kind id = .ok next) :
    next.placements.size = scan.placements.size := by
  rw [(spill_ok spills).2]
  exact size_place scan id _

theorem pool_spill (spills : scan.spill kind id = .ok next) : next.pool other = scan.pool other := by
  rw [(spill_ok spills).2]
  cases other <;> rfl

theorem spillSlots_spill (spills : scan.spill kind id = .ok next) :
    next.spillSlots ≤ maxSpillSlots := by
  obtain ⟨room, made⟩ := spill_ok spills
  rw [made]
  exact room

theorem slot_toNat (spills : scan.spill kind id = .ok next) :
    (BitVec.ofNat 16 scan.spillSlots).toNat = scan.spillSlots := by
  have room := (spill_ok spills).1
  rw [BitVec.toNat_ofNat]
  exact Nat.mod_eq_of_lt (by simp only [maxSpillSlots] at room; omega)

theorem get_spill_self (spills : scan.spill kind id = .ok next)
    (inside : id < scan.placements.size) :
    next.get id = .spilled kind (BitVec.ofNat 16 scan.spillSlots) := by
  rw [(spill_ok spills).2]
  exact (get_place scan inside _ id).trans (if_pos rfl)

theorem get_spill (spills : scan.spill kind id = .ok next) :
    (∀ other, other ≠ id → next.get other = scan.get other) ∧
      (id < scan.placements.size → ∃ slot, next.get id = .spilled kind slot) := by
  refine ⟨fun other differs => ?_, fun inside => ⟨_, get_spill_self spills inside⟩⟩
  rw [(spill_ok spills).2]
  exact get_place_other scan _ differs

/-! ## Taking a register -/

@[simp] theorem size_hold (scan : Scan) (kind : RegisterClass) (pool : Pool) (entry : Active) :
    (scan.hold kind pool entry).placements.size = scan.placements.size := by
  simp [hold]

@[simp] theorem spillSlots_hold (scan : Scan) (kind : RegisterClass) (pool : Pool)
    (entry : Active) : (scan.hold kind pool entry).spillSlots = scan.spillSlots := by
  rw [hold, spillSlots_setPool]
  rfl

theorem get_hold {entry : Active} (inside : entry.value < scan.placements.size)
    (value : ValueId) :
    (scan.hold kind pool entry).get value =
      if value = entry.value then .register kind entry.reg else scan.get value := by
  rw [hold, get_setPool]
  exact get_place scan inside _ value

theorem pool_hold (entry : Active) :
    (scan.hold kind pool entry).pool other =
      if other = kind then pool.insert entry else scan.pool other := by
  rw [hold, pool_setPool, pool_place]

/-! ## Finding a place -/

/-- How a result found its place, with the pool behind the values that have ended. -/
inductive Assigned (scan : Scan) (kind : RegisterClass) (id lastUse : ValueId) (pool : Pool) :
    Scan → Prop where
  | free {reg : UInt8} {free : List UInt8} : pool.free = reg :: free →
      Assigned scan kind id lastUse pool
        (scan.hold kind { pool with free } { lastUse, value := id, reg })
  | steal {longest : Active} {spilled : Scan} : pool.free = [] →
      pool.active.getLast? = some longest → lastUse < longest.lastUse →
      scan.spill kind longest.value = .ok spilled →
      Assigned scan kind id lastUse pool
        (spilled.hold kind { pool with active := pool.active.dropLast }
          { lastUse, value := id, reg := longest.reg })
  | spill {next : Scan} : pool.free = [] → (scan.setPool kind pool).spill kind id = .ok next →
      Assigned scan kind id lastUse pool next

theorem assign_ok (assigned : scan.assign kind id lastUse = .ok next) :
    Assigned scan kind id lastUse ((scan.pool kind).expire id) next := by
  simp only [assign] at assigned
  split at assigned
  next reg free is =>
    cases assigned
    exact .free is
  next none =>
    split at assigned
    next longest last =>
      split at assigned
      next longer =>
        cases spills : scan.spill kind longest.value with
        | error reason => simp [spills, bind, Except.bind] at assigned
        | ok spilled =>
            simp only [spills, bind, Except.bind, pure, Except.pure, Except.ok.injEq] at assigned
            rw [← assigned]
            exact .steal none last longer spills
      next => exact .spill none assigned
    next => exact .spill none assigned

theorem visit_ok {last : Array (Option ValueId)} {value : Value}
    (visited : scan.visit platform last id value = .ok next) :
    (value.kind.resultClass? = none ∧ next = scan) ∨
      (value.kind.resultClass?.isSome = true ∧ platform.accepts value.kind = true ∧
        next = scan.place id .immediate) ∨
      ∃ kind, value.kind.resultClass? = some kind ∧ platform.accepts value.kind = false ∧
        Assigned scan kind id ((last.getD id none).getD id) ((scan.pool kind).expire id) next := by
  simp only [visit] at visited
  cases result : value.kind.resultClass? with
  | none =>
      simp only [result, Except.ok.injEq] at visited
      exact .inl ⟨rfl, visited.symm⟩
  | some kind =>
      right
      simp only [result] at visited
      split at visited
      next type constant is =>
        split at visited
        next accepted =>
          cases visited
          exact .inl ⟨rfl, by rw [is]; exact accepted, rfl⟩
        next refused =>
          exact .inr ⟨kind, rfl, by rw [is]; simpa [Platform.accepts] using refused,
            assign_ok visited⟩
      next other =>
        refine .inr ⟨kind, rfl, ?_, assign_ok visited⟩
        cases is : value.kind with
        | constant type constant => exact absurd is (other type constant)
        | _ => rfl

theorem Assigned.size (assigned : Assigned scan kind id lastUse pool next) :
    next.placements.size = scan.placements.size := by
  cases assigned with
  | free => exact size_hold ..
  | steal _ _ _ spills => exact (size_hold ..).trans (size_spill spills)
  | spill _ spills => exact (size_spill spills).trans (size_setPool ..)

theorem Assigned.spillSlots (assigned : Assigned scan kind id lastUse pool next)
    (within : scan.spillSlots ≤ maxSpillSlots) : next.spillSlots ≤ maxSpillSlots := by
  cases assigned with
  | free =>
      rw [spillSlots_hold]
      exact within
  | steal _ _ _ spills =>
      rw [spillSlots_hold]
      exact spillSlots_spill spills
  | spill _ spills => exact spillSlots_spill spills

theorem Assigned.pool_of_ne (assigned : Assigned scan kind id lastUse pool next)
    (differs : other ≠ kind) : next.pool other = scan.pool other := by
  cases assigned with
  | free => rw [pool_hold, if_neg differs]
  | steal _ _ _ spills => rw [pool_hold, if_neg differs, pool_spill spills]
  | spill _ spills => rw [pool_spill spills, pool_setPool, if_neg differs]

/-- The result gets a register or a slot of its kind. Others stay where they are, or leave a
register for a slot. -/
theorem Assigned.get (assigned : Assigned scan kind id lastUse pool next)
    (inside : id < scan.placements.size) :
    ((∃ reg, next.get id = .register kind reg) ∨ ∃ slot, next.get id = .spilled kind slot) ∧
      ∀ value, value ≠ id → next.get value = scan.get value ∨
        (∃ entry ∈ pool.active, entry.value = value) ∧
          ∃ slot, next.get value = .spilled kind slot := by
  cases assigned with
  | free =>
      refine ⟨.inl ⟨_, (get_hold inside id).trans (if_pos rfl)⟩, fun value differs => .inl ?_⟩
      rw [get_hold inside, if_neg differs]
  | @steal longest spilled _ last _ spills =>
      have room : id < spilled.placements.size := by
        rw [size_spill spills]
        exact inside
      obtain ⟨others, slot⟩ := get_spill spills
      refine ⟨.inl ⟨_, (get_hold room id).trans (if_pos rfl)⟩, fun value differs => ?_⟩
      rw [get_hold room, if_neg differs]
      by_cases victim : value = longest.value
      · by_cases listed : value < scan.placements.size
        · rw [victim] at listed ⊢
          exact .inr ⟨⟨longest, List.mem_of_getLast? last, rfl⟩, slot listed⟩
        · left
          have none : scan.get value = .none := by
            by_contra placed
            exact listed (lt_size_of_get placed)
          rw [none]
          by_contra placed
          exact listed (size_spill spills ▸ lt_size_of_get placed)
      · exact .inl (others value victim)
  | spill _ spills =>
      obtain ⟨others, slot⟩ := get_spill spills
      refine ⟨.inr (slot (by simpa using inside)), fun value differs => .inl ?_⟩
      rw [others value differs, get_setPool]

theorem size_visit {last : Array (Option ValueId)} {value : Value}
    (visited : scan.visit platform last id value = .ok next) :
    next.placements.size = scan.placements.size := by
  rcases visit_ok visited with ⟨-, rfl⟩ | ⟨-, -, rfl⟩ | ⟨kind, -, -, assigned⟩
  · rfl
  · exact size_place ..
  · exact assigned.size

/-! ## The run -/

def initial (block : Block) (platform : Platform) : Scan :=
  { placements := Array.replicate block.bound .none
    general := .ofPlatform platform .general
    float := .ofPlatform platform .float
    spillSlots := 0 }

@[simp] theorem pool_initial (block : Block) (platform : Platform) (kind : RegisterClass) :
    (initial block platform).pool kind = .ofPlatform platform kind := by
  cases kind <;> rfl

@[simp] theorem get_initial (block : Block) (platform : Platform) (id : ValueId) :
    (initial block platform).get id = .none := by
  simp only [get, initial, Array.getD_eq_getD_getElem?, Array.getElem?_replicate]
  split <;> rfl

end Scan

/-- The first listed value that the scan has not come by. -/
structure Follows (block : Block) (now id : ValueId) : Prop where
  order : now ≤ id
  listed : block.isListed id = true
  first : ∀ other, now ≤ other → block.isListed other = true → id ≤ other

variable {platform : Platform} {block : Block}

/-- The scan has stopped at a value, with something that held when it came there. -/
def Stops (block : Block) (platform : Platform) (motive : ValueId → Scan → Prop)
    (reason : CompileError) : Prop :=
  ∃ now id scan, Follows block now id ∧ id < scan.placements.size ∧ motive now scan ∧
    scan.visit platform (lastUses block) id (block.value id) = .error reason

/-- Something holds where the scan ends, or held where it stopped. -/
private def Comes (block : Block) (platform : Platform) (motive : ValueId → Scan → Prop) :
    Except CompileError Scan → Prop
  | .ok next => ∃ last, motive last next ∧ ∀ id, block.isListed id = true → id < last
  | .error reason => Stops block platform motive reason

private theorem foldlM_visits {motive : ValueId → Scan → Prop}
    (visits : ∀ now id scan next, Follows block now id → id < scan.placements.size →
      motive now scan → scan.visit platform (lastUses block) id (block.value id) = .ok next →
      motive (id + 1) next)
    {ids : List ValueId} (sorted : ids.Pairwise (· < ·)) {now : ValueId} {scan : Scan}
    (ahead : ∀ id, id ∈ ids ↔ now ≤ id ∧ block.isListed id = true)
    (size : scan.placements.size = block.bound) (holds : motive now scan)
    {result : Except CompileError Scan}
    (runs : (ids.map fun id => (id, block.value id)).foldlM
      (fun scan (id, value) => scan.visit platform (lastUses block) id value) scan = result) :
    Comes block platform motive result := by
  induction ids generalizing now scan with
  | nil =>
      subst runs
      refine ⟨now, holds, fun id listed => ?_⟩
      by_contra behind
      exact List.not_mem_nil ((ahead id).mpr ⟨Nat.le_of_not_lt behind, listed⟩)
  | cons id rest ih =>
      obtain ⟨below, sorted⟩ := List.pairwise_cons.mp sorted
      obtain ⟨order, listed⟩ := (ahead id).mp List.mem_cons_self
      have follows : Follows block now id := by
        refine ⟨order, listed, fun other behind there => ?_⟩
        rcases List.mem_cons.mp ((ahead other).mpr ⟨behind, there⟩) with rfl | later
        · exact Nat.le_refl other
        · exact Nat.le_of_lt (below other later)
      have inside : id < scan.placements.size := by
        rw [size]
        exact Block.isListed_lt_bound listed
      simp only [List.map_cons, List.foldlM_cons, bind, Except.bind] at runs
      cases visited : scan.visit platform (lastUses block) id (block.value id) with
      | error reason =>
          rw [visited] at runs
          subst runs
          exact ⟨now, id, scan, follows, inside, holds, visited⟩
      | ok middle =>
          rw [visited] at runs
          refine ih sorted (fun other => ⟨fun member => ?_, fun ⟨behind, there⟩ => ?_⟩)
            ((Scan.size_visit visited).trans size) (visits now id scan middle follows inside holds
              visited) runs
          · exact ⟨below other member, ((ahead other).mp (List.mem_cons_of_mem id member)).2⟩
          · have member := (ahead other).mpr ⟨Nat.le_trans order (Nat.le_of_lt behind), there⟩
            exact (List.mem_cons.mp member).resolve_left (Nat.ne_of_gt behind)

/-- Whatever holds at the start of the scan, and behind every value if it holds before it, holds
of the places that the scan comes to. -/
theorem ofBlock_visits {motive : ValueId → Scan → Prop} {allocation : Allocation}
    (allocated : ofBlock block platform = .ok allocation)
    (start : motive 0 (Scan.initial block platform))
    (visits : ∀ now id scan next, Follows block now id → id < scan.placements.size →
      motive now scan → scan.visit platform (lastUses block) id (block.value id) = .ok next →
      motive (id + 1) next) :
    ∃ last scan, motive last scan ∧ (∀ id, block.isListed id = true → id < last) ∧
      allocation = ⟨scan.placements, scan.spillSlots⟩ := by
  simp only [ofBlock, bind, Except.bind] at allocated
  split at allocated
  · cases allocated
  · rename_i scan scanned
    injection allocated with same
    obtain ⟨last, holds, done⟩ := foldlM_visits visits block.ids_pairwise
      (fun id => by simp [Block.mem_ids]) (by simp [Scan.initial]) start scanned
    exact ⟨last, scan, holds, done, same.symm⟩

/-- If a block has no allocation, the scan stops at one of its values. -/
theorem ofBlock_stops {motive : ValueId → Scan → Prop} {reason : CompileError}
    (fails : ofBlock block platform = .error reason)
    (start : motive 0 (Scan.initial block platform))
    (visits : ∀ now id scan next, Follows block now id → id < scan.placements.size →
      motive now scan → scan.visit platform (lastUses block) id (block.value id) = .ok next →
      motive (id + 1) next) : Stops block platform motive reason := by
  simp only [ofBlock, bind, Except.bind] at fails
  split at fails
  · rename_i cause scanned
    cases fails
    exact foldlM_visits visits block.ids_pairwise (fun id => by simp [Block.mem_ids])
      (by simp [Scan.initial]) start scanned
  · cases fails

end Allocation

end MipsRecompiler
