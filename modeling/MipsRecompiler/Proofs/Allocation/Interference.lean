import Mathlib.Data.List.TakeDrop
import Mathlib.Data.List.TakeWhile
import MipsRecompiler.Proofs.Allocation.Steps

/-!
# Values do not share places

The scan never gives a value a place that another still needs. Every register is free or belongs
to one active value, so a value that holds the register of an earlier one starts behind its last
use. Spill slots are not shared at all.
-/

set_option autoImplicit false

namespace MipsRecompiler.Allocation

open Ir (Block RegisterClass Value ValueId)

/-- The registers of a pool, free or not. -/
def Pool.registers (pool : Pool) : List UInt8 :=
  pool.free ++ pool.active.map Active.reg

theorem Pool.insert_active (pool : Pool) (entry : Active) :
    (pool.insert entry).active.Perm (entry :: pool.active) := by
  simp only [insert, List.span_eq_takeWhile_dropWhile]
  refine List.perm_middle.trans ?_
  rw [List.takeWhile_append_dropWhile]

theorem Pool.insert_registers (pool : Pool) (entry : Active) :
    (pool.insert entry).registers.Perm (entry.reg :: pool.registers) :=
  (((insert_active pool entry).map Active.reg).append_left pool.free).trans List.perm_middle

theorem Pool.expire_registers (pool : Pool) (now : ValueId) :
    (pool.expire now).registers.Perm pool.registers := by
  have given (ended : List Active) (free : List UInt8) :
      (ended.foldl (fun free entry => entry.reg :: free) free).Perm
        (free ++ ended.map Active.reg) := by
    induction ended generalizing free with
    | nil => simp
    | cons entry rest ih => exact (ih (entry.reg :: free)).trans List.perm_middle.symm
  simp only [expire, registers, List.span_eq_takeWhile_dropWhile]
  refine ((given _ _).append_right _).trans ?_
  rw [List.append_assoc, ← List.map_append, List.takeWhile_append_dropWhile]

theorem Pool.mem_expire_active (pool : Pool) (now : ValueId) {entry : Active} :
    (entry ∈ (pool.expire now).active → entry ∈ pool.active) ∧
      (entry ∈ pool.active → entry ∉ (pool.expire now).active → entry.lastUse < now) := by
  simp only [expire, List.span_eq_takeWhile_dropWhile]
  refine ⟨fun member => (List.dropWhile_sublist _).subset member, fun member gone => ?_⟩
  have split := @List.takeWhile_append_dropWhile _ (fun entry : Active => entry.lastUse < now)
    pool.active
  rw [← split, List.mem_append] at member
  simpa using List.mem_takeWhile_imp (member.resolve_right gone)

/-- What holds between the registers of one kind and the values that were given them, when the scan
has come to the value `now`. -/
structure Pool.Serves (platform : Platform) (lastUse : ValueId → ValueId) (now : ValueId)
    (kind : RegisterClass) (get : ValueId → Placement) (pool : Pool) : Prop where
  nodup : pool.registers.Nodup
  registers : ∀ reg ∈ pool.registers, reg ∈ (platform.registers kind).map HostRegister.id
  active : ∀ entry ∈ pool.active,
    get entry.value = .register kind entry.reg ∧ entry.lastUse = lastUse entry.value
  held : ∀ id reg, get id = .register kind reg →
    lastUse id < now ∨ ∃ entry ∈ pool.active, entry.value = id ∧ entry.reg = reg
  inside : ∀ id reg, get id = .register kind reg →
    reg ∈ (platform.registers kind).map HostRegister.id
  apart : ∀ first second reg, first < second → get first = .register kind reg →
    get second = .register kind reg → lastUse first < second

namespace Pool.Serves

variable {platform : Platform} {lastUse : ValueId → ValueId} {now id value : ValueId}
  {kind : RegisterClass} {get after : ValueId → Placement} {pool smaller : Pool} {reg : UInt8}

theorem later (serves : Serves platform lastUse now kind get pool) (order : now ≤ id) :
    Serves platform lastUse id kind get pool :=
  { serves with
    held := fun other reg holds =>
      (serves.held other reg holds).imp_left fun ended => Nat.lt_of_lt_of_le ended order }

theorem shrink (serves : Serves platform lastUse now kind get pool)
    (nodup : smaller.registers.Nodup) (fewer : ∀ reg ∈ smaller.registers, reg ∈ pool.registers)
    (active : ∀ entry ∈ smaller.active, entry ∈ pool.active)
    (ended : ∀ entry ∈ pool.active, entry ∉ smaller.active → entry.lastUse < now) :
    Serves platform lastUse now kind get smaller where
  nodup := nodup
  registers reg member := serves.registers reg (fewer reg member)
  active entry member := serves.active entry (active entry member)
  held id reg holds := by
    rcases serves.held id reg holds with before | ⟨entry, member, value, same⟩
    · exact .inl before
    · by_cases stays : entry ∈ smaller.active
      · exact .inr ⟨entry, stays, value, same⟩
      · left
        rw [← value, ← (serves.active entry member).2]
        exact ended entry member stays
  inside := serves.inside
  apart := serves.apart

section Move

variable (gone : ∀ reg, after value ≠ .register kind reg)
  (others : ∀ other, other ≠ value → after other = get other)

include gone others

private theorem of_move (holds : after id = .register kind reg) :
    id ≠ value ∧ get id = .register kind reg := by
  have differs : id ≠ value := by
    rintro rfl
    exact gone reg holds
  exact ⟨differs, others id differs ▸ holds⟩

theorem leave (serves : Serves platform lastUse now kind get pool)
    (nodup : smaller.registers.Nodup) (fewer : ∀ reg ∈ smaller.registers, reg ∈ pool.registers)
    (active : ∀ entry ∈ smaller.active, entry ∈ pool.active ∧ entry.value ≠ value)
    (left : ∀ entry ∈ pool.active, entry ∉ smaller.active → entry.value = value) :
    Serves platform lastUse now kind after smaller where
  nodup := nodup
  registers reg member := serves.registers reg (fewer reg member)
  active entry member := by
    obtain ⟨older, elsewhere⟩ := active entry member
    rw [others _ elsewhere]
    exact serves.active entry older
  held id reg holds := by
    obtain ⟨differs, old⟩ := of_move gone others holds
    rcases serves.held id reg old with before | ⟨entry, member, same, place⟩
    · exact .inl before
    · by_cases stays : entry ∈ smaller.active
      · exact .inr ⟨entry, stays, same, place⟩
      · exact absurd (same.symm.trans (left entry member stays)) differs
  inside id reg holds := serves.inside id reg (of_move gone others holds).2
  apart first second reg order one two :=
    serves.apart first second reg order (of_move gone others one).2 (of_move gone others two).2

/-- What becomes of a value without a register of this kind does not matter, unless it gets one. -/
theorem move (serves : Serves platform lastUse now kind get pool)
    (without : ∀ reg, get value ≠ .register kind reg) :
    Serves platform lastUse now kind after pool := by
  refine serves.leave gone others serves.nodup (fun _ member => member)
    (fun entry member => ⟨member, fun same => ?_⟩) fun entry member gone => absurd member gone
  exact without entry.reg (same ▸ (serves.active entry member).1)

end Move

theorem hold (serves : Serves platform lastUse id kind get pool)
    (ahead : ∀ other, id ≤ other → get other = .none) (unused : reg ∉ pool.registers)
    (known : reg ∈ (platform.registers kind).map HostRegister.id)
    (mine : after id = .register kind reg)
    (others : ∀ other, other ≠ id → after other = get other) :
    Serves platform lastUse (id + 1) kind after
      (pool.insert { lastUse := lastUse id, value := id, reg }) := by
  have entries {entry : Active} :
      entry ∈ (pool.insert { lastUse := lastUse id, value := id, reg }).active ↔
        entry = { lastUse := lastUse id, value := id, reg } ∨ entry ∈ pool.active := by
    rw [(pool.insert_active _).mem_iff, List.mem_cons]
  have before {value : ValueId} {place : UInt8} (holds : get value = .register kind place) :
      value < id := by
    by_contra behind
    rw [ahead value (Nat.le_of_not_lt behind)] at holds
    cases holds
  have old {value : ValueId} {place : UInt8} (holds : after value = .register kind place) :
      (value = id ∧ place = reg) ∨ get value = .register kind place := by
    by_cases same : value = id
    · subst same
      rw [mine] at holds
      injection holds with _ same
      exact .inl ⟨rfl, same.symm⟩
    · exact .inr (others value same ▸ holds)
  constructor
  case nodup =>
    exact (pool.insert_registers _).nodup_iff.mpr (List.nodup_cons.mpr ⟨unused, serves.nodup⟩)
  case registers =>
    intro place member
    rcases List.mem_cons.mp ((pool.insert_registers _).subset member) with rfl | older
    · exact known
    · exact serves.registers place older
  case active =>
    intro entry member
    rcases entries.mp member with rfl | older
    · exact ⟨mine, rfl⟩
    · have held := serves.active entry older
      rw [others _ (Nat.ne_of_lt (before held.1))]
      exact held
  case held =>
    intro value place holds
    rcases old holds with ⟨rfl, rfl⟩ | older
    · exact .inr ⟨_, entries.mpr (.inl rfl), rfl, rfl⟩
    · rcases serves.held value place older with ended | ⟨entry, member, same⟩
      · exact .inl (Nat.lt_succ_of_lt ended)
      · exact .inr ⟨entry, entries.mpr (.inr member), same⟩
  case inside =>
    intro value place holds
    rcases old holds with ⟨-, rfl⟩ | older
    · exact known
    · exact serves.inside value place older
  case apart =>
    intro first second place order one two
    rcases old one with ⟨rfl, rfl⟩ | olderFirst
    · rcases old two with ⟨rfl, -⟩ | olderSecond
      · exact absurd order (Nat.lt_irrefl _)
      · exact absurd order (Nat.lt_asymm (before olderSecond))
    · rcases old two with ⟨rfl, rfl⟩ | olderSecond
      · refine (serves.held first place olderFirst).resolve_right ?_
        rintro ⟨entry, member, -, same⟩
        exact unused (List.mem_append_right _ (List.mem_map.mpr ⟨entry, member, same⟩))
      · exact serves.apart first second place order olderFirst olderSecond

end Pool.Serves

/-- What holds between two values of the scan, when it has come to the value `now`. -/
structure Scan.Consistent (platform : Platform) (lastUse : ValueId → ValueId) (now : ValueId)
    (scan : Scan) : Prop where
  ahead : ∀ id, now ≤ id → scan.get id = .none
  nodup : ∀ kind, (scan.pool kind).registers.Nodup
  registers : ∀ kind, ∀ reg ∈ (scan.pool kind).registers,
    reg ∈ (platform.registers kind).map HostRegister.id
  active : ∀ kind, ∀ entry ∈ (scan.pool kind).active,
    scan.get entry.value = .register kind entry.reg ∧ entry.lastUse = lastUse entry.value
  /-- A value has its register to itself as long as it is used. -/
  held : ∀ kind id reg, scan.get id = .register kind reg →
    lastUse id < now ∨ ∃ entry ∈ (scan.pool kind).active, entry.value = id ∧ entry.reg = reg
  inside : ∀ kind id reg, scan.get id = .register kind reg →
    reg ∈ (platform.registers kind).map HostRegister.id
  apart : ∀ kind first second reg, first < second → scan.get first = .register kind reg →
    scan.get second = .register kind reg → lastUse first < second
  slot : ∀ kind id slot, scan.get id = .spilled kind slot → slot.toNat < scan.spillSlots
  slots : ∀ kind other first second slot, scan.get first = .spilled kind slot →
    scan.get second = .spilled other slot → first = second
  limit : scan.spillSlots ≤ maxSpillSlots

namespace Scan.Consistent

variable {platform : Platform} {lastUse : ValueId → ValueId} {now id : ValueId} {scan next : Scan}
  {kind : RegisterClass}

theorem pool_serves (consistent : Consistent platform lastUse now scan) (kind : RegisterClass) :
    (scan.pool kind).Serves platform lastUse now kind scan.get :=
  ⟨consistent.nodup kind, consistent.registers kind, consistent.active kind, consistent.held kind,
    consistent.inside kind, consistent.apart kind⟩

/-- The kinds of registers can be considered apart. -/
theorem of_pools (ahead : ∀ id, now ≤ id → scan.get id = .none)
    (pools : ∀ kind, (scan.pool kind).Serves platform lastUse now kind scan.get)
    (slot : ∀ kind id slot, scan.get id = .spilled kind slot → slot.toNat < scan.spillSlots)
    (slots : ∀ kind other first second slot, scan.get first = .spilled kind slot →
      scan.get second = .spilled other slot → first = second)
    (limit : scan.spillSlots ≤ maxSpillSlots) : Consistent platform lastUse now scan :=
  ⟨ahead, fun kind => (pools kind).nodup, fun kind => (pools kind).registers,
    fun kind => (pools kind).active, fun kind => (pools kind).held, fun kind => (pools kind).inside,
    fun kind => (pools kind).apart, slot, slots, limit⟩

theorem later (consistent : Consistent platform lastUse now scan) (order : now ≤ id) :
    Consistent platform lastUse id scan :=
  of_pools (fun other behind => consistent.ahead other (Nat.le_trans order behind))
    (fun kind => (consistent.pool_serves kind).later order) consistent.slot consistent.slots
    consistent.limit

theorem shrink (consistent : Consistent platform lastUse now scan) (pool : Pool)
    (nodup : pool.registers.Nodup)
    (fewer : ∀ reg ∈ pool.registers, reg ∈ (scan.pool kind).registers)
    (active : ∀ entry ∈ pool.active, entry ∈ (scan.pool kind).active)
    (ended : ∀ entry ∈ (scan.pool kind).active, entry ∉ pool.active → entry.lastUse < now) :
    Consistent platform lastUse now (scan.setPool kind pool) := by
  have get : (scan.setPool kind pool).get = scan.get := funext (get_setPool scan kind pool)
  have slots := spillSlots_setPool scan kind pool
  refine of_pools (by simpa only [get] using consistent.ahead) (fun other => ?_)
    (by simpa only [get, slots] using consistent.slot) (by simpa only [get] using consistent.slots)
    (by simpa only [slots] using consistent.limit)
  rw [get, pool_setPool]
  by_cases same : other = kind
  · subst same
    rw [if_pos rfl]
    exact (consistent.pool_serves other).shrink nodup fewer active ended
  · rw [if_neg same]
    exact consistent.pool_serves other

/-- A value may leave its register for the next spill slot, or be given one at once. -/
theorem spillOut (consistent : Consistent platform lastUse now scan) {value : ValueId}
    (behind : value < now) (inside : value < scan.placements.size)
    (mine : scan.get value = .none ∨ ∃ reg, scan.get value = .register kind reg) (pool : Pool)
    (nodup : pool.registers.Nodup)
    (fewer : ∀ reg ∈ pool.registers, reg ∈ (scan.pool kind).registers)
    (active : ∀ entry ∈ pool.active, entry ∈ (scan.pool kind).active ∧ entry.value ≠ value)
    (left : ∀ entry ∈ (scan.pool kind).active, entry ∉ pool.active → entry.value = value)
    (spills : scan.spill kind value = .ok next) :
    Consistent platform lastUse now (next.setPool kind pool) := by
  have here : (next.setPool kind pool).get value =
      .spilled kind (BitVec.ofNat 16 scan.spillSlots) := by
    rw [get_setPool, get_spill_self spills inside]
  have others (other : ValueId) (differs : other ≠ value) :
      (next.setPool kind pool).get other = scan.get other := by
    rw [get_setPool, (get_spill spills).1 other differs]
  have slots : (next.setPool kind pool).spillSlots = scan.spillSlots + 1 := by
    rw [spillSlots_setPool, (spill_ok spills).2]
  -- A spilled value has the new slot, or had its own before.
  have spilled {other : RegisterClass} {id : ValueId} {slot : BitVec 16}
      (holds : (next.setPool kind pool).get id = .spilled other slot) :
      (id = value ∧ slot.toNat = scan.spillSlots) ∨
        (scan.get id = .spilled other slot ∧ slot.toNat < scan.spillSlots) := by
    by_cases same : id = value
    · subst same
      injection here.symm.trans holds with _ same
      exact .inl ⟨rfl, by rw [← same, slot_toNat spills]⟩
    · rw [others id same] at holds
      exact .inr ⟨holds, consistent.slot other id slot holds⟩
  refine of_pools (fun other ahead => ?_) (fun other => ?_) (fun other id slot holds => ?_)
    (fun one other first second slot left right => ?_) (slots ▸ (spill_ok spills).1)
  · rw [others other (Nat.ne_of_gt (Nat.lt_of_lt_of_le behind ahead))]
    exact consistent.ahead other ahead
  · have gone (reg : UInt8) : (next.setPool kind pool).get value ≠ .register other reg := by
      rw [here]
      nofun
    rw [pool_setPool]
    by_cases same : other = kind
    · subst same
      rw [if_pos rfl]
      exact (consistent.pool_serves other).leave gone others nodup fewer active left
    · rw [if_neg same, pool_spill spills]
      refine (consistent.pool_serves other).move gone others fun reg holds => ?_
      rcases mine with none | ⟨_, own⟩
      · cases none.symm.trans holds
      · injection own.symm.trans holds with kinds
        exact same kinds.symm
  · rw [slots]
    rcases spilled holds with ⟨-, last⟩ | ⟨-, earlier⟩ <;> omega
  · rcases spilled left with ⟨rfl, last⟩ | ⟨old, earlier⟩
    · rcases spilled right with ⟨rfl, -⟩ | ⟨-, earlier⟩
      · rfl
      · omega
    · rcases spilled right with ⟨-, last⟩ | ⟨also, -⟩
      · omega
      · exact consistent.slots one other first second slot old also

theorem hold {pool : Pool} (consistent : Consistent platform lastUse id (scan.setPool kind pool))
    (inside : id < scan.placements.size) {reg : UInt8} (unused : reg ∉ pool.registers)
    (known : reg ∈ (platform.registers kind).map HostRegister.id) :
    Consistent platform lastUse (id + 1)
      (scan.hold kind pool { lastUse := lastUse id, value := id, reg }) := by
  generalize made : scan.hold kind pool { lastUse := lastUse id, value := id, reg } = next
  have mine : next.get id = .register kind reg := by rw [← made, get_hold inside, if_pos rfl]
  have others (other : ValueId) (differs : other ≠ id) :
      next.get other = (scan.setPool kind pool).get other := by
    rw [← made, get_hold inside, if_neg differs, get_setPool]
  have slots : next.spillSlots = (scan.setPool kind pool).spillSlots := by
    rw [← made, spillSlots_hold, spillSlots_setPool]
  have spilled {other : RegisterClass} {value : ValueId} {slot : BitVec 16}
      (holds : next.get value = .spilled other slot) :
      (scan.setPool kind pool).get value = .spilled other slot := by
    rw [← others value]
    · exact holds
    · rintro rfl
      cases mine.symm.trans holds
  refine of_pools (fun other ahead => ?_) (fun other => ?_) (fun other value slot holds => ?_)
    (fun one other first second slot left right =>
      consistent.slots one other first second slot (spilled left) (spilled right))
    (slots ▸ consistent.limit)
  · rw [others other (Nat.ne_of_gt ahead)]
    exact consistent.ahead other (Nat.le_of_lt ahead)
  · have serves := consistent.pool_serves other
    rw [← made, pool_hold, made]
    rw [pool_setPool] at serves
    by_cases same : other = kind
    · subst same
      rw [if_pos rfl] at serves ⊢
      exact serves.hold consistent.ahead unused known mine others
    · rw [if_neg same] at serves ⊢
      refine (serves.later (Nat.le_succ id)).move (fun reg holds => ?_) others fun reg holds => ?_
      · injection mine.symm.trans holds with kinds
        exact same kinds.symm
      · cases (consistent.ahead id (Nat.le_refl id)).symm.trans holds
  · rw [slots]
    exact consistent.slot other value slot (spilled holds)

/-- A value may be given the register of the last active one, if that one is spilled. -/
theorem steal {pool : Pool} (consistent : Consistent platform lastUse id (scan.setPool kind pool))
    (inside : id < scan.placements.size) (mine : (scan.setPool kind pool).pool kind = pool)
    {longest : Active} (last : pool.active.getLast? = some longest)
    (spills : scan.spill kind longest.value = .ok next) :
    Consistent platform lastUse (id + 1)
      (next.hold kind { pool with active := pool.active.dropLast }
        { lastUse := lastUse id, value := id, reg := longest.reg }) := by
  have split : pool.active = pool.active.dropLast ++ [longest] :=
    (List.dropLast_append_getLast? longest last).symm
  have member : longest ∈ ((scan.setPool kind pool).pool kind).active := by
    rw [mine, split]
    simp
  have held := (consistent.active kind longest member).1
  have before : longest.value < id := by
    by_contra behind
    rw [consistent.ahead longest.value (Nat.le_of_not_lt behind)] at held
    cases held
  have known := consistent.registers kind
  have nodup := consistent.nodup kind
  rw [mine] at known nodup
  have registers : pool.registers =
      ({ pool with active := pool.active.dropLast } : Pool).registers ++ [longest.reg] := by
    rw [Pool.registers, split, List.map_append, ← List.append_assoc]
    simp [Pool.registers]
  rw [registers, List.nodup_append] at nodup
  have unused : longest.reg ∉
      ({ pool with active := pool.active.dropLast } : Pool).registers :=
    fun again => nodup.2.2 _ again _ (List.mem_singleton_self _) rfl
  have out := consistent.spillOut before (by simpa using Nat.lt_trans before inside)
    (Or.inr ⟨longest.reg, held⟩) { pool with active := pool.active.dropLast } nodup.1
    (fun reg present => by rw [mine, registers]; exact List.mem_append_left _ present)
    (fun entry present => by
      have older : entry ∈ ((scan.setPool kind pool).pool kind).active := by
        rw [mine, split]
        exact List.mem_append_left _ present
      refine ⟨older, fun same => unused ?_⟩
      have placed := (consistent.active kind entry older).1
      rw [same, held] at placed
      injection placed with _ reg
      rw [reg]
      exact List.mem_append_right _ (List.mem_map.mpr ⟨entry, present, rfl⟩))
    (fun entry present gone => by
      rw [mine, split] at present
      rcases List.mem_append.mp present with kept | this
      · exact absurd kept gone
      · rw [List.mem_singleton.mp this])
    (by rw [spill_setPool, spills]; rfl)
  rw [setPool_setPool] at out
  exact out.hold (by rw [size_spill spills]; exact inside) unused
    (known longest.reg (by rw [registers]; simp))

theorem expire (consistent : Consistent platform lastUse now scan) (order : now ≤ id)
    (kind : RegisterClass) :
    Consistent platform lastUse id (scan.setPool kind ((scan.pool kind).expire id)) :=
  (consistent.later order).shrink _
    ((Pool.expire_registers _ _).nodup_iff.mpr (consistent.nodup kind))
    (fun _ member => (Pool.expire_registers _ _).subset member)
    (fun _ => (Pool.mem_expire_active _ _).1) (fun _ => (Pool.mem_expire_active _ _).2)

theorem assign {pool : Pool} (consistent : Consistent platform lastUse id (scan.setPool kind pool))
    (inside : id < scan.placements.size)
    (assigned : Assigned scan kind id (lastUse id) pool next) :
    Consistent platform lastUse (id + 1) next := by
  have mine : (scan.setPool kind pool).pool kind = pool := by simp [pool_setPool]
  have known := consistent.registers kind
  have nodup := consistent.nodup kind
  rw [mine] at known nodup
  cases assigned with
  | @free reg rest is =>
      have split : pool.registers = reg :: ({ pool with free := rest } : Pool).registers := by
        simp [Pool.registers, is]
      rw [split] at known nodup
      have dropped := consistent.shrink { pool with free := rest } (List.nodup_cons.mp nodup).2
        (fun other member => by rw [mine, split]; exact List.mem_cons_of_mem _ member)
        (fun entry member => by rw [mine]; exact member)
        (fun entry member gone => absurd (mine ▸ member) gone)
      rw [setPool_setPool] at dropped
      exact dropped.hold inside (List.nodup_cons.mp nodup).1 (known reg List.mem_cons_self)
  | steal _ last _ spills => exact consistent.steal inside mine last spills
  | spill _ spills =>
      have fresh : (scan.setPool kind pool).get id = .none := consistent.ahead id (Nat.le_refl id)
      have out := (consistent.later (Nat.le_succ id)).spillOut (Nat.lt_succ_self id)
        (by simpa using inside) (Or.inl fresh) pool nodup
        (fun reg member => by rwa [mine])
        (fun entry member => by
          refine ⟨by rwa [mine], fun same => ?_⟩
          have placed := (consistent.active kind entry (by rwa [mine])).1
          rw [same, fresh] at placed
          cases placed)
        (fun entry member gone => absurd (mine ▸ member) gone) spills
      rw [spill_setPool] at spills
      cases spilled : scan.spill kind id with
      | error _ => simp [spilled, Except.map] at spills
      | ok made =>
          simp only [spilled, Except.map, Except.ok.injEq] at spills
          rwa [← spills, setPool_setPool, spills] at out

/-- A constant that stands in the instructions that use it takes no place. -/
theorem immediate (consistent : Consistent platform lastUse id scan)
    (inside : id < scan.placements.size) :
    Consistent platform lastUse (id + 1) (scan.place id .immediate) := by
  have here : (scan.place id .immediate).get id = .immediate :=
    (get_place scan inside _ id).trans (if_pos rfl)
  have others (other : ValueId) (differs : other ≠ id) :
      (scan.place id .immediate).get other = scan.get other :=
    (get_place scan inside _ other).trans (if_neg differs)
  have spilled {kind : RegisterClass} {other : ValueId} {slot : BitVec 16}
      (holds : (scan.place id .immediate).get other = .spilled kind slot) :
      scan.get other = .spilled kind slot := by
    rw [← others other]
    · exact holds
    · rintro rfl
      cases here.symm.trans holds
  refine of_pools (fun other behind => ?_) (fun kind => ?_)
    (fun kind other slot holds => consistent.slot kind other slot (spilled holds))
    (fun kind other first second slot left right =>
      consistent.slots kind other first second slot (spilled left) (spilled right))
    consistent.limit
  · rw [others other (Nat.ne_of_gt behind)]
    exact consistent.ahead other (Nat.le_of_lt behind)
  · rw [pool_place]
    refine ((consistent.pool_serves kind).later (Nat.le_succ id)).move (fun reg holds => ?_) others
      fun reg holds => ?_
    · cases here.symm.trans holds
    · cases (consistent.ahead id (Nat.le_refl id)).symm.trans holds

theorem visit {block : Block} (consistent : Consistent platform (lastUseOf block) now scan)
    (order : now ≤ id) (inside : id < scan.placements.size) {value : Value}
    (visited : scan.visit platform (lastUses block) id value = .ok next) :
    Consistent platform (lastUseOf block) (id + 1) next := by
  rcases visit_ok visited with ⟨-, rfl⟩ | ⟨-, -, rfl⟩ | ⟨kind, -, -, assigned⟩
  · exact consistent.later (Nat.le_succ_of_le order)
  · exact (consistent.later order).immediate inside
  · exact (consistent.expire order kind).assign inside assigned

end Scan.Consistent

@[simp] theorem Pool.registers_ofPlatform (platform : Platform) (kind : RegisterClass) :
    (Pool.ofPlatform platform kind).registers =
      (platform.registers kind).map HostRegister.id := by
  simp [Pool.registers, Pool.ofPlatform]

variable {platform : Platform} {block : Block}

/-- The scan starts with every register in its pool. -/
theorem Scan.Consistent.initial
    (nodup : ∀ kind, ((platform.registers kind).map HostRegister.id).Nodup) :
    Scan.Consistent platform (lastUseOf block) 0 (.initial block platform) := by
  refine ⟨fun id _ => by simp, fun kind => ?_, fun kind => ?_, fun kind entry member => ?_,
    ?_, ?_, ?_, ?_, ?_, Nat.zero_le _⟩
  · simpa using nodup kind
  · simp
  · simp [Pool.ofPlatform] at member
  all_goals simp

/-- The registers of a platform are different, and the frame of a block has a place for each. -/
structure Distinct (platform : Platform) : Prop where
  nodup : ∀ kind, ((platform.registers kind).map HostRegister.id).Nodup
  bound : ∀ kind, ∀ reg ∈ (platform.registers kind).map HostRegister.id, reg.toNat < 32

/-- What a block can rely on when its values are where an allocation says. -/
structure Sound (block : Block) (allocation : Allocation) : Prop where
  register : ∀ kind id reg, allocation.get id = .register kind reg → reg.toNat < 32
  slot : ∀ kind id slot, allocation.get id = .spilled kind slot →
    slot.toNat < allocation.spillSlots
  limit : allocation.spillSlots ≤ maxSpillSlots
  /-- A value gets the register of an earlier one only behind the last use of that one. -/
  apart : ∀ kind first second reg, first < second → allocation.get first = .register kind reg →
    allocation.get second = .register kind reg → lastUseOf block first < second
  slots : ∀ kind other first second slot, allocation.get first = .spilled kind slot →
    allocation.get second = .spilled other slot → first = second

/-- Whatever the scan places can be relied on. -/
theorem ofBlock_sound (distinct : Distinct platform) {allocation : Allocation}
    (allocated : ofBlock block platform = .ok allocation) : allocation.Sound block := by
  obtain ⟨last, scan, consistent, -, rfl⟩ := ofBlock_visits
    (motive := Scan.Consistent platform (lastUseOf block)) allocated (.initial distinct.nodup)
    fun now id scan next follows inside consistent visited =>
      consistent.visit follows.order inside visited
  refine ⟨fun kind id reg holds => distinct.bound kind reg ?_, consistent.slot,
    consistent.limit, consistent.apart, consistent.slots⟩
  exact consistent.inside kind id reg holds

/-- The platforms that come with the recompiler have different registers. -/
theorem distinct_platform (kind : PlatformKind) : Distinct kind.platform := by
  constructor <;> intro registerClass <;> cases kind <;> cases registerClass <;>
    decide +kernel

/-- A platform with few registers. -/
def narrowPlatform : Platform :=
  { name := "narrow", general := [⟨3, "a", true⟩, ⟨5, "b", true⟩], float := [⟨1, "x", false⟩]
    immediates := .unsigned 12 }

theorem distinct_narrowPlatform : Distinct narrowPlatform := by
  constructor <;> intro registerClass <;> cases registerClass <;> decide +kernel

end MipsRecompiler.Allocation
