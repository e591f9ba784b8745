import MipsRecompiler.Proofs.Allocation.Pressure
import MipsRecompiler.Proofs.Ir.Brevity

/-!
# What is spilled

A value goes to a slot only where more values need registers than there are, and none of them is
used longer than it. So a block whose crowded values are few enough can always be allocated.
-/

set_option autoImplicit false

namespace MipsRecompiler.Allocation

open Ir (Block RegisterClass Value ValueId)

/-- Values that need registers of a kind at a point, and are more than those. None is used behind
`last`. -/
structure Crowd (block : Block) (platform : Platform) (kind : RegisterClass)
    (point last : ValueId) (ids : List ValueId) : Prop where
  nodup : ids.Nodup
  many : (platform.registers kind).length < ids.length
  listed : ∀ id ∈ ids, block.isListed id = true
  competes : ∀ id ∈ ids, Competes block platform kind id
  live : ∀ id ∈ ids, id = point ∨ (id < point ∧ point ≤ lastUseOf block id)
  ends : ∀ id ∈ ids, lastUseOf block id ≤ last

/-- A value that is in a crowd, and used as long as any other in it. -/
def CrowdedOut (block : Block) (platform : Platform) (kind : RegisterClass) (id : ValueId) :
    Prop :=
  ∃ point ids, id ∈ ids ∧ Crowd block platform kind point (lastUseOf block id) ids

namespace Scan

variable {block : Block} {platform : Platform} {scan next : Scan} {kind other : RegisterClass}
  {now id lastUse : ValueId} {pool : Pool}

/-! ## Pools stay complete -/

/-- All registers of a kind are in the pool, and its values in order. -/
structure Stocked (platform : Platform) (scan : Scan) (kind : RegisterClass) : Prop where
  registers : (scan.pool kind).registers.length = (platform.registers kind).length
  sorted : (scan.pool kind).active.Pairwise fun first second => first.lastUse ≤ second.lastUse

theorem Stocked.expire (stocked : scan.Stocked platform kind) (now : ValueId) :
    ((scan.pool kind).expire now).registers.length = (platform.registers kind).length ∧
      ((scan.pool kind).expire now).active.Pairwise fun first second =>
        first.lastUse ≤ second.lastUse :=
  ⟨(Pool.expire_registers _ _).length_eq.trans stocked.registers,
    Pool.expire_sorted now stocked.sorted⟩

theorem Stocked.of_pool (stocked : scan.Stocked platform kind)
    (same : next.pool kind = scan.pool kind) : next.Stocked platform kind :=
  ⟨same ▸ stocked.registers, same ▸ stocked.sorted⟩

theorem Stocked.assign (stocked : scan.Stocked platform other)
    (assigned : Assigned scan kind id lastUse ((scan.pool kind).expire now) next) :
    next.Stocked platform other := by
  by_cases same : other = kind
  · subst same
    obtain ⟨registers, sorted⟩ := stocked.expire now
    cases assigned with
    | @free reg rest is =>
        constructor
        · rw [pool_hold, if_pos rfl, (Pool.insert_registers _ _).length_eq, ← registers]
          simp [Pool.registers, is]
        · rw [pool_hold, if_pos rfl]
          exact Pool.insert_sorted _ sorted
    | @steal longest spilled none last _ _ =>
        have split : ((scan.pool other).expire now).active =
            ((scan.pool other).expire now).active.dropLast ++ [longest] :=
          (List.dropLast_append_getLast? longest last).symm
        constructor
        · rw [pool_hold, if_pos rfl, (Pool.insert_registers _ _).length_eq, ← registers,
            Pool.registers, Pool.registers, split]
          simp [none]
        · rw [pool_hold, if_pos rfl]
          exact Pool.insert_sorted _ (sorted.sublist (List.dropLast_sublist _))
    | spill _ spills =>
        have pools : next.pool other = (scan.pool other).expire now := by
          rw [pool_spill spills, pool_setPool, if_pos rfl]
        exact ⟨pools ▸ registers, pools ▸ sorted⟩
  · exact stocked.of_pool (assigned.pool_of_ne same)

/-! ## Who is spilled -/

/-- The value that goes to a slot when a result finds its place, if one has to. -/
def victim? (pool : Pool) (id lastUse : ValueId) : Option ValueId :=
  match pool.free, pool.active.getLast? with
  | _ :: _, _ => none
  | [], some longest => if lastUse < longest.lastUse then some longest.value else some id
  | [], none => some id

theorem assign_of_room (room : victim? ((scan.pool kind).expire id) id lastUse = none) :
    ∃ next, scan.assign kind id lastUse = .ok next ∧ next.spillSlots = scan.spillSlots := by
  unfold victim? at room
  split at room
  next reg free is =>
    refine ⟨_, ?_, spillSlots_hold scan kind { (scan.pool kind).expire id with free }
      { lastUse, value := id, reg }⟩
    simp only [assign, is]
  next => split at room <;> cases room
  next => cases room

theorem spill_of_room (scan : Scan) (kind : RegisterClass) (value : ValueId)
    (room : scan.spillSlots < maxSpillSlots) :
    ∃ next, scan.spill kind value = .ok next ∧ next.spillSlots = scan.spillSlots + 1 := by
  rw [spill, if_pos room]
  exact ⟨_, rfl, rfl⟩

theorem assign_of_victim {victim : ValueId}
    (spills : victim? ((scan.pool kind).expire id) id lastUse = some victim)
    (others : ∀ entry ∈ ((scan.pool kind).expire id).active, entry.value ≠ id)
    (inside : id < scan.placements.size) (victimInside : victim < scan.placements.size)
    (room : scan.spillSlots < maxSpillSlots) :
    ∃ next slot, scan.assign kind id lastUse = .ok next ∧
      next.spillSlots = scan.spillSlots + 1 ∧ next.get victim = .spilled kind slot := by
  unfold victim? at spills
  split at spills
  next => cases spills
  next longest none last =>
    split at spills
    next longer =>
      cases spills
      obtain ⟨spilled, done, slots⟩ := spill_of_room scan kind longest.value room
      obtain ⟨slot, placed⟩ := (get_spill done).2 victimInside
      refine ⟨_, slot, by simp only [assign, none, last, if_pos longer, done]; rfl,
        (spillSlots_hold ..).trans slots, ?_⟩
      rw [get_hold (by rw [size_spill done]; exact inside),
        if_neg (others longest (List.mem_of_getLast? last))]
      exact placed
    next shorter =>
      cases spills
      obtain ⟨next, done, slots⟩ := spill_of_room
        (scan.setPool kind ((scan.pool kind).expire id)) kind id (by simpa using room)
      obtain ⟨slot, placed⟩ := (get_spill done).2 (by simpa using inside)
      exact ⟨next, slot, by simp only [assign, none, last, if_neg shorter, done],
        by simpa using slots, placed⟩
  next none last =>
    cases spills
    obtain ⟨next, done, slots⟩ := spill_of_room
      (scan.setPool kind ((scan.pool kind).expire id)) kind id (by simpa using room)
    obtain ⟨slot, placed⟩ := (get_spill done).2 (by simpa using inside)
    exact ⟨next, slot, by simp only [assign, none, last, done], by simpa using slots, placed⟩

/-- The victim is used at least as long as every value in a register, and as the result. -/
theorem victim?_longest {victim : ValueId} (spills : victim? pool id lastUse = some victim)
    (sorted : pool.active.Pairwise fun first second => first.lastUse ≤ second.lastUse) :
    pool.free = [] ∧
      ((victim = id ∧ ∀ entry ∈ pool.active, entry.lastUse ≤ lastUse) ∨
        ∃ longest ∈ pool.active, victim = longest.value ∧ lastUse ≤ longest.lastUse ∧
          ∀ entry ∈ pool.active, entry.lastUse ≤ longest.lastUse) := by
  have ends {longest : Active} (last : pool.active.getLast? = some longest) :
      ∀ entry ∈ pool.active, entry.lastUse ≤ longest.lastUse := by
    rw [← List.dropLast_append_getLast? longest last] at sorted ⊢
    intro entry member
    rcases List.mem_append.mp member with before | this
    · exact (List.pairwise_append.mp sorted).2.2 entry before longest List.mem_cons_self
    · rw [List.mem_singleton.mp this]
  unfold victim? at spills
  split at spills
  next => cases spills
  next longest none last =>
    refine ⟨none, ?_⟩
    split at spills
    next longer =>
      cases spills
      exact .inr ⟨longest, List.mem_of_getLast? last, rfl, Nat.le_of_lt longer, ends last⟩
    next shorter =>
      cases spills
      exact .inl ⟨rfl, fun entry member =>
        Nat.le_trans (ends last entry member) (Nat.le_of_not_lt shorter)⟩
  next none last =>
    cases spills
    refine ⟨none, .inl ⟨rfl, fun entry member => ?_⟩⟩
    rw [List.getLast?_eq_none_iff.mp last] at member
    cases member

/-! ## The run -/

/-- Every slot went to another one of the marked values. -/
def Paid (marked : List ValueId) (scan : Scan) : Prop :=
  ∃ out : List ValueId, out.Nodup ∧ out.length = scan.spillSlots ∧
    ∀ id ∈ out, id ∈ marked ∧ ∃ kind slot, scan.get id = .spilled kind slot

theorem Paid.spillSlots_le {marked : List ValueId} (paid : scan.Paid marked) :
    scan.spillSlots ≤ marked.length := by
  obtain ⟨out, nodup, length, spilled⟩ := paid
  rw [← length]
  exact (List.subperm_of_subset nodup fun id member => (spilled id member).1).length_le

theorem Paid.keep {marked : List ValueId} (paid : scan.Paid marked)
    (slots : next.spillSlots = scan.spillSlots)
    (stays : ∀ id, (∃ kind slot, scan.get id = .spilled kind slot) →
      ∃ kind slot, next.get id = .spilled kind slot) : next.Paid marked := by
  obtain ⟨out, nodup, length, spilled⟩ := paid
  exact ⟨out, nodup, length.trans slots.symm, fun id member =>
    (spilled id member).imp_right (stays id)⟩

theorem Paid.add {marked : List ValueId} (paid : scan.Paid marked)
    (slots : next.spillSlots = scan.spillSlots + 1)
    (stays : ∀ id, (∃ kind slot, scan.get id = .spilled kind slot) →
      ∃ kind slot, next.get id = .spilled kind slot)
    {victim : ValueId} (mark : victim ∈ marked)
    (fresh : ¬∃ kind slot, scan.get victim = .spilled kind slot)
    (placed : ∃ kind slot, next.get victim = .spilled kind slot) : next.Paid marked := by
  obtain ⟨out, nodup, length, spilled⟩ := paid
  have new : victim ∉ out := fun member => fresh (spilled victim member).2
  exact ⟨victim :: out, List.nodup_cons.mpr ⟨new, nodup⟩,
    by rw [List.length_cons, length, slots],
    List.forall_mem_cons.mpr ⟨⟨mark, placed⟩, fun id member =>
      (spilled id member).imp_right (stays id)⟩⟩

/-- While a marked value has no slot, a slot is left for it. -/
theorem Paid.room {marked : List ValueId} (paid : scan.Paid marked) {victim : ValueId}
    (mark : victim ∈ marked) (fresh : ¬∃ kind slot, scan.get victim = .spilled kind slot) :
    scan.spillSlots < marked.length := by
  obtain ⟨out, nodup, length, spilled⟩ := paid
  have new : victim ∉ out := fun member => fresh (spilled victim member).2
  have within : victim :: out ⊆ marked :=
    List.cons_subset.mpr ⟨mark, fun other member => (spilled other member).1⟩
  have below := (List.subperm_of_subset (List.nodup_cons.mpr ⟨new, nodup⟩) within).length_le
  rw [List.length_cons, length] at below
  exact below

structure Charged (block : Block) (platform : Platform) (marked : List ValueId) (now : ValueId)
    (scan : Scan) : Prop where
  orderly : scan.Orderly block platform now
  stocked : ∀ kind, scan.Stocked platform kind
  paid : scan.Paid marked

theorem Charged.unspilled {marked : List ValueId} (charged : scan.Charged block platform marked now)
    (order : now ≤ id) : ¬∃ kind slot, scan.get id = .spilled kind slot := by
  rintro ⟨kind, slot, is⟩
  rw [charged.orderly.consistent.ahead id order] at is
  cases is

/-- The values in registers and the result are a crowd when no register is free. -/
theorem Charged.crowd {marked : List ValueId} (charged : scan.Charged block platform marked now)
    (order : now ≤ id) (listed : block.isListed id = true)
    (competes : Competes block platform kind id)
    (full : ((scan.pool kind).expire id).free = []) {last : ValueId}
    (mine : lastUseOf block id ≤ last)
    (ends : ∀ entry ∈ ((scan.pool kind).expire id).active, entry.lastUse ≤ last) :
    Crowd block platform kind id last
      (id :: ((scan.pool kind).expire id).active.map Active.value) := by
  have consistent := charged.orderly.consistent.expire order kind
  have here : (scan.setPool kind ((scan.pool kind).expire id)).pool kind =
      (scan.pool kind).expire id := by rw [pool_setPool, if_pos rfl]
  have held (entry : Active) (member : entry ∈ ((scan.pool kind).expire id).active) :=
    charged.orderly.consistent.active kind entry ((Pool.mem_expire_active _ id).1 member)
  have before (entry : Active) (member : entry ∈ ((scan.pool kind).expire id).active) :
      entry.value < id := by
    rw [← here] at member
    exact consistent.active_before member
  obtain ⟨registers, sorted⟩ := (charged.stocked kind).expire id
  have all : ∀ {holds : ValueId → Prop}, holds id →
      (∀ entry ∈ ((scan.pool kind).expire id).active, holds entry.value) →
      ∀ value ∈ id :: ((scan.pool kind).expire id).active.map Active.value, holds value := by
    intro holds one others value member
    rcases List.mem_cons.mp member with rfl | member
    · exact one
    · obtain ⟨entry, active, rfl⟩ := List.mem_map.mp member
      exact others entry active
  constructor
  · exact here ▸ consistent.active_nodup kind
  · rw [List.length_cons, List.length_map, ← registers, Pool.registers, full, List.nil_append,
      List.length_map]
    exact Nat.lt_succ_self _
  · exact all listed fun entry member => (charged.orderly.suited.register (held entry member).1).1
  · exact all competes fun entry member => (charged.orderly.suited.register (held entry member).1).2
  · refine all (.inl rfl) fun entry member => .inr ⟨before entry member, ?_⟩
    rw [← (held entry member).2]
    exact Pool.expire_current id (charged.stocked kind).sorted entry member
  · refine all mine fun entry member => ?_
    rw [← (held entry member).2]
    exact ends entry member

/-- Only values that are crowded out are spilled. -/
theorem Charged.victim {marked : List ValueId} (charged : scan.Charged block platform marked now)
    (order : now ≤ id) (listed : block.isListed id = true)
    (competes : Competes block platform kind id) {victim : ValueId}
    (spills : victim? ((scan.pool kind).expire id) id (lastUseOf block id) = some victim) :
    CrowdedOut block platform kind victim := by
  obtain ⟨full, ⟨rfl, ends⟩ | ⟨longest, member, rfl, mine, ends⟩⟩ :=
    victim?_longest spills ((charged.stocked kind).expire id).2
  · exact ⟨_, _, List.mem_cons_self,
      charged.crowd order listed competes full (Nat.le_refl _) ends⟩
  · have held := (charged.orderly.consistent.active kind longest
      ((Pool.mem_expire_active _ id).1 member)).2
    exact ⟨_, _, List.mem_cons_of_mem _ (List.mem_map_of_mem member),
      held ▸ charged.crowd order listed competes full mine ends⟩

/-- The victim has no slot yet: it is the result, or in a register. -/
theorem Charged.victim_fresh {marked : List ValueId}
    (charged : scan.Charged block platform marked now) (order : now ≤ id)
    (inside : id < scan.placements.size) {victim : ValueId}
    (spills : victim? ((scan.pool kind).expire id) id lastUse = some victim) :
    victim < scan.placements.size ∧ ¬∃ kind slot, scan.get victim = .spilled kind slot := by
  obtain ⟨-, ⟨rfl, -⟩ | ⟨longest, member, rfl, -⟩⟩ :=
    victim?_longest spills ((charged.stocked kind).expire id).2
  · exact ⟨inside, charged.unspilled order⟩
  · have held := charged.orderly.consistent.active kind longest
      ((Pool.mem_expire_active _ id).1 member)
    refine ⟨lt_size_of_get (by rw [held.1]; nofun), ?_⟩
    rintro ⟨_, _, is⟩
    rw [held.1] at is
    cases is

/-- A result always finds its place while all that can be crowded out has a slot left. -/
theorem Charged.assign {marked : List ValueId} (charged : scan.Charged block platform marked now)
    (few : marked.length ≤ maxSpillSlots)
    (covered : ∀ kind id, CrowdedOut block platform kind id → id ∈ marked)
    (order : now ≤ id) (listed : block.isListed id = true)
    (competes : Competes block platform kind id) (inside : id < scan.placements.size) :
    ∃ next, scan.assign kind id (lastUseOf block id) = .ok next ∧ next.Paid marked := by
  have stays {next : Scan} (assigned : scan.assign kind id (lastUseOf block id) = .ok next)
      (other : ValueId) (spilled : ∃ kind slot, scan.get other = .spilled kind slot) :
      ∃ kind slot, next.get other = .spilled kind slot := by
    have differs : other ≠ id := by
      rintro rfl
      exact charged.unspilled order spilled
    rcases ((assign_ok assigned).get inside).2 other differs with same | ⟨-, slot, goes⟩
    · rwa [same]
    · exact ⟨_, slot, goes⟩
  cases spills : victim? ((scan.pool kind).expire id) id (lastUseOf block id) with
  | none =>
      obtain ⟨next, assigned, slots⟩ := assign_of_room spills
      exact ⟨next, assigned, charged.paid.keep slots (stays assigned)⟩
  | some victim =>
      have mark := covered kind victim (charged.victim order listed competes spills)
      obtain ⟨victimInside, fresh⟩ := charged.victim_fresh order inside spills
      have others : ∀ entry ∈ ((scan.pool kind).expire id).active, entry.value ≠ id := by
        intro entry member
        have kept := (Pool.mem_expire_active _ id).1 member
        exact Nat.ne_of_lt
          (Nat.lt_of_lt_of_le (charged.orderly.consistent.active_before kept) order)
      obtain ⟨next, slot, assigned, slots, placed⟩ := assign_of_victim spills others inside
        victimInside (Nat.lt_of_lt_of_le (charged.paid.room mark fresh) few)
      exact ⟨next, assigned,
        charged.paid.add slots (stays assigned) mark fresh ⟨_, slot, placed⟩⟩

theorem Charged.initial {marked : List ValueId}
    (nodup : ∀ kind, ((platform.registers kind).map HostRegister.id).Nodup) :
    Charged block platform marked 0 (.initial block platform) where
  orderly := .initial nodup
  stocked kind := ⟨by simp, by simp [Pool.ofPlatform]⟩
  paid := ⟨[], List.nodup_nil, rfl, fun id member => absurd member List.not_mem_nil⟩

theorem Charged.skip {marked : List ValueId} (charged : scan.Charged block platform marked now)
    (orderly : next.Orderly block platform (id + 1)) (order : now ≤ id)
    (pools : ∀ kind, next.pool kind = scan.pool kind) (slots : next.spillSlots = scan.spillSlots)
    (others : ∀ other, other ≠ id → next.get other = scan.get other) :
    next.Charged block platform marked (id + 1) := by
  refine ⟨orderly, fun kind => (charged.stocked kind).of_pool (pools kind),
    charged.paid.keep slots fun other spilled => ?_⟩
  have differs : other ≠ id := by
    rintro rfl
    exact charged.unspilled order spilled
  rwa [others other differs]

theorem visit_eq (platform : Platform) (last : Array (Option ValueId)) (scan : Scan)
    (id : ValueId) (value : Value) :
    scan.visit platform last id value =
      match value.kind.resultClass? with
      | none => .ok scan
      | some kind =>
        if platform.accepts value.kind then .ok (scan.place id .immediate)
        else scan.assign kind id ((last.getD id none).getD id) := by
  rw [visit]
  cases value.kind.resultClass? with
  | none => rfl
  | some kind =>
      cases value.kind with
      | constant type constant => rfl
      | _ => rfl

theorem Charged.visit {marked : List ValueId} (charged : scan.Charged block platform marked now)
    (few : marked.length ≤ maxSpillSlots)
    (covered : ∀ kind id, CrowdedOut block platform kind id → id ∈ marked)
    (follows : Follows block now id) (inside : id < scan.placements.size) :
    ∃ next, scan.visit platform (lastUses block) id (block.value id) = .ok next ∧
      next.Charged block platform marked (id + 1) := by
  have orderly {next : Scan}
      (visited : scan.visit platform (lastUses block) id (block.value id) = .ok next) :=
    charged.orderly.visit follows.order follows.listed inside visited
  have visited := visit_eq platform (lastUses block) scan id (block.value id)
  cases result : (block.value id).kind.resultClass? with
  | none =>
      rw [result] at visited
      exact ⟨scan, visited, charged.skip (orderly visited) follows.order (fun _ => rfl) rfl
        fun _ _ => rfl⟩
  | some kind =>
      rw [result] at visited
      dsimp only at visited
      cases accepted : platform.accepts (block.value id).kind with
      | true =>
          rw [accepted, if_pos rfl] at visited
          refine ⟨_, visited, charged.skip (orderly visited) follows.order
            (fun kind => pool_place scan id _ kind) rfl fun other differs => ?_⟩
          rw [get_place scan inside, if_neg differs]
      | false =>
          rw [accepted, if_neg Bool.false_ne_true] at visited
          obtain ⟨next, assigned, paid⟩ := charged.assign few covered follows.order follows.listed
            ⟨result, accepted⟩ inside
          exact ⟨next, visited.trans assigned, orderly (visited.trans assigned),
            fun other => (charged.stocked other).assign (assign_ok assigned), paid⟩

end Scan

variable {block : Block} {platform : Platform} {marked : List ValueId}

/-- If few enough values can be crowded out, all values of a block find a place. -/
theorem ofBlock_spills (nodup : ∀ kind, ((platform.registers kind).map HostRegister.id).Nodup)
    (few : marked.length ≤ maxSpillSlots)
    (covered : ∀ kind id, CrowdedOut block platform kind id → id ∈ marked) :
    ∃ allocation, ofBlock block platform = .ok allocation ∧
      allocation.spillSlots ≤ marked.length := by
  have visits (now id : ValueId) (scan next : Scan) (follows : Follows block now id)
      (inside : id < scan.placements.size) (charged : scan.Charged block platform marked now)
      (visited : scan.visit platform (lastUses block) id (block.value id) = .ok next) :
      next.Charged block platform marked (id + 1) := by
    obtain ⟨_, again, charged⟩ := charged.visit few covered follows inside
    cases visited.symm.trans again
    exact charged
  cases allocated : ofBlock block platform with
  | error reason =>
      obtain ⟨now, id, scan, follows, inside, charged, stopped⟩ :=
        ofBlock_stops (motive := Scan.Charged block platform marked) allocated (.initial nodup)
          visits
      obtain ⟨_, visited, -⟩ := charged.visit few covered follows inside
      cases stopped.symm.trans visited
  | ok allocation =>
      obtain ⟨last, scan, charged, -, rfl⟩ :=
        ofBlock_visits (motive := Scan.Charged block platform marked) allocated (.initial nodup)
          visits
      exact ⟨_, rfl, charged.paid.spillSlots_le⟩

/-! ## Blocks whose values are used at once -/

variable {kind : RegisterClass} {id : ValueId}

/-- A value that is not kept has its last use right behind it. -/
theorem lastUseOf_near (brief : block.Brief marked) (listed : block.isListed id = true)
    (result : (block.kind id).resultClass?.isSome = true) (unmarked : id ∉ marked) :
    id ≤ lastUseOf block id ∧ lastUseOf block id ≤ id + 2 ∧
      block.Calm id (lastUseOf block id) ∧
      (lastUseOf block id = id ∨ (block.isListed (lastUseOf block id) = true ∧
        id ∈ (block.value (lastUseOf block id)).uses)) := by
  rcases lastUseOf_cases block id with unused | ⟨entry, member, is, uses⟩
  · rw [unused]
    refine ⟨Nat.le_refl id, Nat.le_add_right id 2, fun other behind within _ => ?_, .inl rfl⟩
    obtain rfl := Nat.le_antisymm behind within
    by_contra many
    exact unmarked (brief.busy id listed result many)
  · obtain ⟨there, value⟩ := Block.mem_values.mp member
    rw [value] at uses
    rw [← is]
    obtain ⟨before, close, calm⟩ := (brief.near entry.1 there id uses).resolve_left unmarked
    exact ⟨Nat.le_of_lt before, close, calm, .inr ⟨there, uses⟩⟩

/-- Who is in a crowd is defined at its point, or used there or behind. -/
theorem Crowd.user {point last : ValueId} {ids : List ValueId}
    (crowd : Crowd block platform kind point last ids) (member : id ∈ ids) :
    id = point ∨ ∃ user, point ≤ user ∧ user ≤ last ∧ block.isListed user = true ∧
      id ∈ (block.value user).uses := by
  refine (crowd.live id member).imp_right fun ⟨before, used⟩ => ?_
  rcases lastUseOf_cases block id with unused | ⟨entry, listed, is, uses⟩
  · rw [unused] at used
    exact absurd before (Nat.not_lt_of_le used)
  · obtain ⟨there, value⟩ := Block.mem_values.mp listed
    rw [value] at uses
    exact ⟨entry.1, is ▸ used, is ▸ crowd.ends id member, there, uses⟩

/-- What covers a crowd is more than the registers that there are. -/
theorem Crowd.lt_of_subset {point last : ValueId} {ids cover : List ValueId}
    (crowd : Crowd block platform kind point last ids) (covers : ids ⊆ cover) :
    (platform.registers kind).length < cover.length :=
  Nat.lt_of_lt_of_le crowd.many (List.subperm_of_subset crowd.nodup covers).length_le

section Users

variable {point last : ValueId} {ids : List ValueId}

private theorem calm_pair (calm : block.Calm id last) (user : ValueId) :
    ∃ one two, id ≤ user → user ≤ last → block.isListed user = true →
      ∀ used ∈ (block.value user).uses, used = one ∨ used = two := by
  by_cases inside : id ≤ user ∧ user ≤ last ∧ block.isListed user = true
  · obtain ⟨one, two, all⟩ := calm user inside.1 inside.2.1 inside.2.2
    exact ⟨one, two, fun _ _ _ => all⟩
  · exact ⟨0, 0, fun first ends there => absurd ⟨first, ends, there⟩ inside⟩

private theorem user_early {first user final : Nat} (behind : first ≤ user) (before : user ≤ final)
    (close : final ≤ first + 2) (other : user ≠ final) : user = first ∨ user = first + 1 := by
  omega

/-- A value without a use is crowded by what it uses itself. -/
private theorem Crowd.cover_unused (crowd : Crowd block platform kind id id ids)
    (calm : block.Calm id id) : ∃ one two, ids ⊆ [id, one, two] := by
  obtain ⟨one, two, here⟩ := calm_pair calm id
  refine ⟨one, two, fun other among => ?_⟩
  rcases crowd.user among with rfl | ⟨user, behind, before, present, used⟩
  · simp
  · obtain rfl : user = id := Nat.le_antisymm before behind
    rcases here (Nat.le_refl _) (Nat.le_refl _) present other used with rfl | rfl <;> simp

/-- Where a value is defined, it is crowded by what the next three values use. One of them uses
the value itself. -/
private theorem Crowd.cover_first (crowd : Crowd block platform kind id last ids)
    (calm : block.Calm id last) (close : last ≤ id + 2) {mate : ValueId}
    (final : ∀ used ∈ (block.value last).uses, used = id ∨ used = mate) :
    ∃ one two three four, ids ⊆ [id, mate, one, two, three, four] := by
  obtain ⟨one, two, here⟩ := calm_pair calm id
  obtain ⟨three, four, next⟩ := calm_pair calm (id + 1)
  refine ⟨one, two, three, four, fun other among => ?_⟩
  rcases crowd.user among with rfl | ⟨user, behind, before, present, used⟩
  · simp
  · by_cases is : user = last
    · rw [is] at used
      rcases final other used with rfl | rfl <;> simp
    · obtain rfl | rfl := user_early behind before close is
      · rcases here (Nat.le_refl _) before present other used with rfl | rfl <;> simp
      · rcases next (Nat.le_succ _) before present other used with rfl | rfl <;> simp

/-- Behind that, it is crowded by the value at the point and by what two values use. -/
private theorem Crowd.cover_behind (crowd : Crowd block platform kind point last ids)
    (calm : block.Calm id last) (close : last ≤ id + 2) (order : id ≤ point)
    (differs : point ≠ id) {mate : ValueId}
    (final : ∀ used ∈ (block.value last).uses, used = id ∨ used = mate) :
    ∃ three four, ids ⊆ [point, id, mate, three, four] := by
  obtain ⟨three, four, next⟩ := calm_pair calm (id + 1)
  refine ⟨three, four, fun other among => ?_⟩
  rcases crowd.user among with rfl | ⟨user, behind, before, present, used⟩
  · simp
  · by_cases is : user = last
    · rw [is] at used
      rcases final other used with rfl | rfl <;> simp
    · obtain rfl := (user_early (Nat.le_trans order behind) before close is).resolve_left
        fun same => differs (Nat.le_antisymm (same ▸ behind) order)
      rcases next (Nat.le_succ _) before present other used with rfl | rfl <;> simp

end Users

/-- Six registers are enough for values that are used at once: at most three values use them, each
of them two at most, and the last of these uses the value itself. -/
theorem marked_of_crowdedOut (brief : block.Brief marked)
    (wide : 6 ≤ (platform.registers kind).length)
    (crowded : CrowdedOut block platform kind id) : id ∈ marked := by
  by_contra unmarked
  obtain ⟨point, ids, member, crowd⟩ := crowded
  have result : (block.kind id).resultClass?.isSome = true := by
    rw [(crowd.competes id member).1]
    rfl
  obtain ⟨start, close, calm, own⟩ :=
    lastUseOf_near brief (crowd.listed id member) result unmarked
  obtain ⟨order, within⟩ : id ≤ point ∧ point ≤ lastUseOf block id := by
    rcases crowd.live id member with rfl | ⟨before, used⟩
    · exact ⟨Nat.le_refl _, start⟩
    · exact ⟨Nat.le_of_lt before, used⟩
  have enough {cover : List ValueId} (covers : ids ⊆ cover) : 6 < cover.length :=
    Nat.lt_of_le_of_lt wide (crowd.lt_of_subset covers)
  -- Without a use, the crowd is at the value itself; with one, it is there or behind.
  rcases own with unused | ⟨there, uses⟩
  · rw [unused] at crowd calm within
    obtain rfl := Nat.le_antisymm within order
    obtain ⟨one, two, covers⟩ := crowd.cover_unused calm
    exact absurd (enough covers) (by simp)
  · obtain ⟨mate, final⟩ := (calm _ start (Nat.le_refl _) there).mate uses
    by_cases first : point = id
    · subst first
      obtain ⟨one, two, three, four, covers⟩ := crowd.cover_first calm close final
      exact absurd (enough covers) (by simp)
    · obtain ⟨three, four, covers⟩ := crowd.cover_behind calm close order first final
      exact absurd (enough covers) (by simp)

/-- A block whose values are used at once, but for a few, has an allocation. -/
theorem ofBlock_brief (nodup : ∀ kind, ((platform.registers kind).map HostRegister.id).Nodup)
    (wide : ∀ kind, 6 ≤ (platform.registers kind).length) (brief : block.Brief marked)
    (few : marked.length ≤ maxSpillSlots) :
    ∃ allocation, ofBlock block platform = .ok allocation ∧
      allocation.spillSlots ≤ marked.length :=
  ofBlock_spills nodup few fun kind _ crowded => marked_of_crowdedOut brief (wide kind) crowded

theorem wide_platform (kind : PlatformKind) (registerClass : RegisterClass) :
    6 ≤ (kind.platform.registers registerClass).length := by
  cases kind <;> cases registerClass <;> decide

end MipsRecompiler.Allocation
