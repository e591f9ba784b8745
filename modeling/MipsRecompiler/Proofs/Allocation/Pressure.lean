import Mathlib.Data.List.Perm.Subperm
import MipsRecompiler.Proofs.Allocation.Coverage

/-!
# Values that are live together

A value is live from where it is defined to its last use. Values that are live together are never
in one register, and none is spilled as long as no more of them need a register than there are.
-/

set_option autoImplicit false

namespace MipsRecompiler.Allocation

open Ir (Block RegisterClass Value ValueId)

/-! ## Lifetimes -/

/-- A value is live at a point from its definition to the last value that uses it, both of them
included. -/
def Live (block : Block) (id point : ValueId) : Prop :=
  id ≤ point ∧ (point = id ∨ ∃ entry ∈ block.values, point ≤ entry.1 ∧ id ∈ entry.2.uses)

instance (block : Block) (id point : ValueId) : Decidable (Live block id point) :=
  inferInstanceAs (Decidable (id ≤ point ∧ (point = id ∨
    ∃ entry ∈ block.values, point ≤ entry.1 ∧ id ∈ entry.2.uses)))

theorem Live.ends {block : Block} {id point : ValueId} (live : Live block id point)
    (listed : block.isListed id = true) : point = id ∨ point ≤ lastUseOf block id := by
  refine live.2.imp_right ?_
  rintro ⟨entry, member, order, uses⟩
  obtain ⟨there, value⟩ := Block.mem_values.mp member
  rw [value] at uses
  exact Nat.le_trans order (le_lastUseOf there uses (Block.isListed_lt_bound listed))

theorem live_of_le_lastUseOf {block : Block} {id point : ValueId} (defined : id ≤ point)
    (used : point ≤ lastUseOf block id) : Live block id point := by
  rcases lastUseOf_cases block id with unused | ⟨entry, member, is, uses⟩
  · rw [unused] at used
    exact ⟨defined, .inl (Nat.le_antisymm used defined)⟩
  · exact ⟨defined, .inr ⟨entry, member, by rw [is]; exact used, uses⟩⟩

/-- A value with a result of a kind, which needs a register of that kind. -/
def Competes (block : Block) (platform : Platform) (kind : RegisterClass) (id : ValueId) : Prop :=
  (block.kind id).resultClass? = some kind ∧ platform.accepts (block.kind id) = false

instance (block : Block) (platform : Platform) (kind : RegisterClass) (id : ValueId) :
    Decidable (Competes block platform kind id) :=
  inferInstanceAs (Decidable ((block.kind id).resultClass? = some kind ∧
    platform.accepts (block.kind id) = false))

/-- How many listed values need a register of a kind at a point. -/
def pressure (block : Block) (platform : Platform) (kind : RegisterClass) (point : ValueId) : Nat :=
  (block.ids.filter fun id => Competes block platform kind id ∧ Live block id point).length

/-- Wherever a value that needs a register is defined, there are enough for it and all others. -/
def Fits (block : Block) (platform : Platform) (kind : RegisterClass) : Prop :=
  ∀ id ∈ block.ids, Competes block platform kind id →
    pressure block platform kind id ≤ (platform.registers kind).length

/-! ## Pools in order -/

private theorem of_mem_dropWhile {passes : Active → Bool} {entries : List Active}
    (sorted : entries.Pairwise fun first second => first.lastUse ≤ second.lastUse)
    (down : ∀ first second, first.lastUse ≤ second.lastUse → passes second = true →
      passes first = true) :
    ∀ entry ∈ entries.dropWhile passes, passes entry = false := by
  induction entries with
  | nil => simp
  | cons head rest ih =>
      obtain ⟨below, sorted⟩ := List.pairwise_cons.mp sorted
      intro entry member
      rw [List.dropWhile_cons] at member
      split at member
      · exact ih sorted entry member
      · rename_i stops
        rw [Bool.not_eq_true] at stops
        rcases List.mem_cons.mp member with rfl | behind
        · exact stops
        · by_contra passed
          rw [down head entry (below entry behind) (by simpa using passed)] at stops
          cases stops

theorem Pool.expire_current {pool : Pool} (now : ValueId)
    (sorted : pool.active.Pairwise fun first second => first.lastUse ≤ second.lastUse) :
    ∀ entry ∈ (pool.expire now).active, now ≤ entry.lastUse := by
  intro entry member
  simp only [expire, List.span_eq_takeWhile_dropWhile] at member
  have stops := of_mem_dropWhile sorted (by
    intro first second order passes
    rw [decide_eq_true_eq] at passes ⊢
    exact Nat.lt_of_le_of_lt order passes) entry member
  exact Nat.le_of_not_lt (by simpa using stops)

theorem Pool.expire_sorted {pool : Pool} (now : ValueId)
    (sorted : pool.active.Pairwise fun first second => first.lastUse ≤ second.lastUse) :
    (pool.expire now).active.Pairwise fun first second => first.lastUse ≤ second.lastUse := by
  simp only [expire, List.span_eq_takeWhile_dropWhile]
  exact sorted.sublist (List.dropWhile_sublist _)

theorem Pool.insert_sorted {pool : Pool} (entry : Active)
    (sorted : pool.active.Pairwise fun first second => first.lastUse ≤ second.lastUse) :
    (pool.insert entry).active.Pairwise fun first second => first.lastUse ≤ second.lastUse := by
  simp only [insert, List.span_eq_takeWhile_dropWhile]
  have before : ∀ other ∈ pool.active.takeWhile fun other => other.lastUse ≤ entry.lastUse,
      other.lastUse ≤ entry.lastUse := by
    intro other member
    simpa using List.mem_takeWhile_imp member
  have behind : ∀ other ∈ pool.active.dropWhile fun other => other.lastUse ≤ entry.lastUse,
      entry.lastUse ≤ other.lastUse := by
    intro other member
    have stops := of_mem_dropWhile sorted (by
      intro first second order passes
      rw [decide_eq_true_eq] at passes ⊢
      exact Nat.le_trans order passes) other member
    exact Nat.le_of_not_le (by simpa using stops)
  rw [List.pairwise_append, List.pairwise_cons]
  refine ⟨sorted.sublist (List.takeWhile_sublist _),
    ⟨behind, sorted.sublist (List.dropWhile_sublist _)⟩, ?_⟩
  intro first early second late
  rcases List.mem_cons.mp late with rfl | late
  · exact before first early
  · exact Nat.le_trans (before first early) (behind second late)

/-! ## What one value changes -/

namespace Scan

variable {block : Block} {platform : Platform} {scan next : Scan} {kind other : RegisterClass}
  {now id lastUse : ValueId} {pool : Pool}

def Suits (block : Block) (platform : Platform) (id : ValueId) : Placement → Prop
  | .none => True
  | .immediate => block.isListed id = true ∧ platform.accepts (block.kind id) = true
  | .register kind _ | .spilled kind _ =>
    block.isListed id = true ∧ Competes block platform kind id

def Suited (block : Block) (platform : Platform) (scan : Scan) : Prop :=
  ∀ id, Suits block platform id (scan.get id)

/-- No value of a kind was spilled, so the pool still has all registers, and its values in order. -/
structure Unspilled (platform : Platform) (kind : RegisterClass) (scan : Scan) : Prop where
  unspilled : ∀ id slot, scan.get id ≠ .spilled kind slot
  registers : (scan.pool kind).registers.length = (platform.registers kind).length
  sorted : (scan.pool kind).active.Pairwise fun first second => first.lastUse ≤ second.lastUse

theorem Suited.register (suited : scan.Suited block platform) {reg : UInt8}
    (is : scan.get id = .register kind reg) :
    block.isListed id = true ∧ Competes block platform kind id := by
  have holds := suited id
  rwa [is] at holds

theorem Suited.assign (suited : scan.Suited block platform)
    (listed : block.isListed id = true) (competes : Competes block platform kind id)
    (assigned : Assigned scan kind id lastUse pool next) (inside : id < scan.placements.size)
    (active : ∀ entry ∈ pool.active, scan.get entry.value = .register kind entry.reg) :
    next.Suited block platform := by
  obtain ⟨mine, others⟩ := assigned.get inside
  intro value
  by_cases same : value = id
  · rw [same]
    rcases mine with ⟨reg, is⟩ | ⟨slot, is⟩ <;> rw [is] <;> exact ⟨listed, competes⟩
  · rcases others value same with stays | ⟨⟨entry, member, rfl⟩, slot, goes⟩
    · rw [stays]
      exact suited value
    · rw [goes]
      exact suited.register (active entry member)

theorem Unspilled.assign_other (unspilled : scan.Unspilled platform other) (differs : other ≠ kind)
    (assigned : Assigned scan kind id lastUse pool next) (inside : id < scan.placements.size) :
    next.Unspilled platform other := by
  obtain ⟨mine, others⟩ := assigned.get inside
  have pools := assigned.pool_of_ne differs
  constructor
  · intro value slot is
    by_cases same : value = id
    · rw [same] at is
      rcases mine with ⟨reg, placed⟩ | ⟨slot, placed⟩
      · cases placed.symm.trans is
      · cases placed.symm.trans is
        exact differs rfl
    · rcases others value same with stays | ⟨-, slot, goes⟩
      · exact unspilled.unspilled value slot (stays.symm.trans is)
      · cases goes.symm.trans is
        exact differs rfl
  · rw [pools]
    exact unspilled.registers
  · rw [pools]
    exact unspilled.sorted

theorem Consistent.active_before {lastUse : ValueId → ValueId}
    (consistent : scan.Consistent platform lastUse id) {entry : Active}
    (member : entry ∈ (scan.pool kind).active) : entry.value < id := by
  by_contra behind
  have none := consistent.ahead entry.value (Nat.le_of_not_lt behind)
  rw [(consistent.active kind entry member).1] at none
  cases none

/-- The values in registers are different, and none is the one that the scan has come to. -/
theorem Consistent.active_nodup {lastUse : ValueId → ValueId}
    (consistent : scan.Consistent platform lastUse id) (kind : RegisterClass) :
    (id :: (scan.pool kind).active.map Active.value).Nodup := by
  have held (entry : Active) (member : entry ∈ (scan.pool kind).active) :=
    consistent.active kind entry member
  have different : ((scan.pool kind).active.map Active.value).Nodup := by
    have registers := (List.nodup_append.mp (consistent.nodup kind)).2.1
    rw [List.Nodup, List.pairwise_map] at registers ⊢
    refine registers.imp_of_mem ?_
    intro first second one two apart same
    have reg := (held first one).1
    rw [same, (held second two).1] at reg
    injection reg with _ reg
    exact apart reg.symm
  refine List.nodup_cons.mpr ⟨fun member => ?_, different⟩
  obtain ⟨entry, active, same⟩ := List.mem_map.mp member
  exact Nat.ne_of_lt (consistent.active_before active) same

/-- A value in a register that is still used is one of those that the pressure counts. -/
private theorem length_active_lt_pressure {lastUse : ValueId → ValueId}
    (consistent : scan.Consistent platform lastUse id) (is : lastUse = lastUseOf block)
    (suited : scan.Suited block platform) (listed : block.isListed id = true)
    (competes : Competes block platform kind id)
    (current : ∀ entry ∈ (scan.pool kind).active, id ≤ entry.lastUse) :
    (scan.pool kind).active.length < pressure block platform kind id := by
  have held (entry : Active) (member : entry ∈ (scan.pool kind).active) :=
    consistent.active kind entry member
  have live (entry : Active) (member : entry ∈ (scan.pool kind).active) :
      Live block entry.value id := by
    have ends := current entry member
    rw [(held entry member).2, is] at ends
    exact live_of_le_lastUseOf (Nat.le_of_lt (consistent.active_before member)) ends
  have nodup := consistent.active_nodup kind
  have counted : id :: (scan.pool kind).active.map Active.value ⊆
      block.ids.filter fun id' => Competes block platform kind id' ∧ Live block id' id := by
    intro value member
    rw [List.mem_filter, decide_eq_true_eq, Block.mem_ids]
    rcases List.mem_cons.mp member with rfl | member
    · exact ⟨listed, competes, Nat.le_refl _, .inl rfl⟩
    · obtain ⟨entry, active, rfl⟩ := List.mem_map.mp member
      obtain ⟨there, needs⟩ := suited.register (held entry active).1
      exact ⟨there, needs, live entry active⟩
  have below := (List.subperm_of_subset nodup counted).length_le
  rwa [List.length_cons, List.length_map] at below

/-- Where values fit, a register is free for each. -/
theorem Unspilled.assign (unspilled : scan.Unspilled platform kind)
    (consistent : scan.Consistent platform (lastUseOf block) now) (order : now ≤ id)
    (suited : scan.Suited block platform) (listed : block.isListed id = true)
    (competes : Competes block platform kind id) (fits : Fits block platform kind)
    (inside : id < scan.placements.size)
    (assigned : Assigned scan kind id lastUse ((scan.pool kind).expire id) next) :
    next.Unspilled platform kind := by
  have crowd := length_active_lt_pressure (consistent.expire order kind) rfl
    (fun value => by simpa only [get_setPool] using suited value) listed competes
    (by simpa only [pool_setPool, if_pos] using Pool.expire_current id unspilled.sorted)
  rw [pool_setPool, if_pos rfl] at crowd
  have registers : ((scan.pool kind).expire id).registers.length =
      (platform.registers kind).length :=
    (Pool.expire_registers _ _).length_eq.trans unspilled.registers
  have sorted := Pool.expire_sorted id unspilled.sorted
  have room := fits id (Block.mem_ids.mpr listed) competes
  have free : ((scan.pool kind).expire id).free ≠ [] := by
    intro none
    rw [Pool.registers, none, List.nil_append, List.length_map] at registers
    omega
  cases assigned with
  | @free reg rest is =>
      constructor
      · intro value slot
        rw [get_hold inside]
        split
        · simp
        · exact unspilled.unspilled value slot
      · rw [pool_hold, if_pos rfl, (Pool.insert_registers _ _).length_eq, ← registers]
        simp [Pool.registers, is]
      · rw [pool_hold, if_pos rfl]
        exact Pool.insert_sorted _ sorted
  | steal none => exact absurd none free
  | spill none => exact absurd none free

structure Orderly (block : Block) (platform : Platform) (now : ValueId) (scan : Scan) : Prop where
  consistent : scan.Consistent platform (lastUseOf block) now
  suited : scan.Suited block platform
  unspilled : ∀ kind, Fits block platform kind → scan.Unspilled platform kind

theorem Orderly.initial (nodup : ∀ kind, ((platform.registers kind).map HostRegister.id).Nodup) :
    Orderly block platform 0 (.initial block platform) where
  consistent := .initial nodup
  suited id := by
    rw [get_initial]
    trivial
  unspilled kind _ := ⟨by simp, by simp, by simp [Pool.ofPlatform]⟩

theorem Orderly.visit (orderly : Orderly block platform now scan) (order : now ≤ id)
    (listed : block.isListed id = true) (inside : id < scan.placements.size)
    (visited : scan.visit platform (lastUses block) id (block.value id) = .ok next) :
    Orderly block platform (id + 1) next := by
  refine ⟨orderly.consistent.visit order inside visited, ?_, ?_⟩
  all_goals
    rcases visit_ok visited with ⟨-, rfl⟩ | ⟨-, accepted, rfl⟩ | ⟨kind, result, refused, assigned⟩
  · exact orderly.suited
  · intro value
    rw [get_place scan inside]
    split
    next same =>
      rw [same]
      exact ⟨listed, accepted⟩
    next => exact orderly.suited value
  · exact orderly.suited.assign listed ⟨result, refused⟩ assigned inside fun entry member =>
      (orderly.consistent.active kind entry ((Pool.mem_expire_active _ id).1 member)).1
  · exact orderly.unspilled
  · intro kind fits
    obtain ⟨unspilled, registers, sorted⟩ := orderly.unspilled kind fits
    refine ⟨fun value slot => ?_, by simpa using registers, by simpa using sorted⟩
    rw [get_place scan inside]
    split
    · simp
    · exact unspilled value slot
  · intro other fits
    by_cases same : other = kind
    · subst same
      exact (orderly.unspilled other fits).assign orderly.consistent order orderly.suited listed
        ⟨result, refused⟩ fits inside assigned
    · exact (orderly.unspilled other fits).assign_other same assigned inside

end Scan

variable {block : Block} {platform : Platform} {allocation : Allocation}

/-- Every listed value with a result stands in the instructions that use it, which only constants
do that the platform accepts, or has a register of its kind or a spill slot. Values of one kind that
are live together have different registers, spill slots are different, and where all values of a
kind fit at once, none is spilled. -/
theorem ofBlock_apart (nodup : ∀ kind, ((platform.registers kind).map HostRegister.id).Nodup)
    (allocated : ofBlock block platform = .ok allocation) :
    (∀ id, block.Defined id →
      (allocation.get id = .immediate ∧ platform.accepts (block.kind id) = true) ∨
      ∃ kind, Competes block platform kind id ∧
        ((∃ reg ∈ (platform.registers kind).map HostRegister.id,
            allocation.get id = .register kind reg) ∨
          ∃ slot, allocation.get id = .spilled kind slot)) ∧
    (∀ kind first second one two point, first ≠ second →
      allocation.get first = .register kind one → allocation.get second = .register kind two →
      Live block first point → Live block second point → one ≠ two) ∧
    (∀ kind id slot, allocation.get id = .spilled kind slot →
      slot.toNat < allocation.spillSlots) ∧
    (∀ kind other first second slot, allocation.get first = .spilled kind slot →
      allocation.get second = .spilled other slot → first = second) ∧
    ∀ kind, Fits block platform kind → ∀ id slot, allocation.get id ≠ .spilled kind slot := by
  have covers (id : ValueId) (defined : block.Defined id) := ofBlock_covers allocated defined
  obtain ⟨last, scan, orderly, -, rfl⟩ := ofBlock_visits (motive := Scan.Orderly block platform)
    allocated (.initial nodup)
    fun now id scan next follows inside orderly visited =>
      orderly.visit follows.order follows.listed inside visited
  have suits (id : ValueId) : Scan.Suits block platform id (scan.placements.getD id .none) :=
    orderly.suited id
  refine ⟨?_, ?_, orderly.consistent.slot, orderly.consistent.slots, ?_⟩
  · intro id defined
    have placed := (covers id defined).1
    have suits := suits id
    simp only [get] at placed ⊢
    generalize placement : scan.placements.getD id .none = place at placed suits
    cases place with
    | none => exact absurd rfl placed
    | immediate => exact .inl ⟨rfl, suits.2⟩
    | register kind reg =>
        exact .inr ⟨kind, suits.2, .inl ⟨reg, orderly.consistent.inside kind id reg placement, rfl⟩⟩
    | spilled kind slot => exact .inr ⟨kind, suits.2, .inr ⟨slot, rfl⟩⟩
  · have ordered {kind : RegisterClass} {first second point : ValueId} {reg : UInt8}
        (order : first < second) (one : scan.get first = .register kind reg)
        (two : scan.get second = .register kind reg) (live : Live block first point)
        (also : second ≤ point) : False := by
      have listed := (orderly.suited.register one).1
      have apart := orderly.consistent.apart kind first second reg order one two
      rcases live.ends listed with here | before
      · exact Nat.not_lt_of_le also (here ▸ order)
      · exact Nat.not_lt_of_le (Nat.le_trans also before) apart
    intro kind first second one two point differs left right live also same
    subst same
    rcases Nat.lt_or_gt_of_ne differs with before | behind
    · exact ordered before left right live also.1
    · exact ordered behind right left also live.1
  · intro kind fits
    exact (orderly.unspilled kind fits).unspilled

/-- A block in which a value loses its register to another, and a third gets none. -/
def crowdedBlock : Block :=
  ⟨#[⟨⟨.loadRegister (.general 1), none⟩, true⟩, ⟨⟨.loadRegister (.general 2), none⟩, true⟩,
    ⟨⟨.loadRegister (.general 3), none⟩, true⟩, ⟨⟨.binary .or 2 1, none⟩, true⟩,
    ⟨⟨.binary .add 1 3, none⟩, true⟩, ⟨⟨.constant .u16 7, none⟩, true⟩,
    ⟨⟨.binary .add 4 5, none⟩, true⟩, ⟨⟨.loadRegister (.float 9), none⟩, true⟩,
    ⟨⟨.flushRegister (.float 8) 7, none⟩, true⟩, ⟨⟨.flushRegister (.general 1) 0, none⟩, true⟩,
    ⟨⟨.setExitPc 6, none⟩, true⟩]⟩

theorem crowdedBlock_apart :
    ∃ allocation, ofBlock crowdedBlock narrowPlatform = .ok allocation ∧
      (∀ kind, ((narrowPlatform.registers kind).map HostRegister.id).Nodup) ∧
      (∀ one two, allocation.get 1 = .register .general one →
        allocation.get 2 = .register .general two → one ≠ two) ∧
      (∃ slot, allocation.get 0 = .spilled .general slot) ∧
      ∀ id slot, allocation.get id ≠ .spilled .float slot := by
  have nodup := distinct_narrowPlatform.nodup
  let places : Allocation :=
    ⟨#[.spilled .general 0, .register .general 5, .register .general 3, .spilled .general 1,
      .register .general 3, .immediate, .register .general 5, .register .float 1, .none, .none,
      .none], 2⟩
  have allocated : ofBlock crowdedBlock narrowPlatform = .ok places := by rfl
  obtain ⟨-, apart, -, -, fits⟩ := ofBlock_apart nodup allocated
  exact ⟨places, allocated, nodup,
    fun one two left right => apart .general 1 2 one two 2 (by decide) left right (by decide)
      (by decide),
    ⟨0, rfl⟩, fits .float (by unfold Fits; decide)⟩

end MipsRecompiler.Allocation
