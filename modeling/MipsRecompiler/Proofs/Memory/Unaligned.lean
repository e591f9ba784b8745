import MipsRecompiler.Proofs.Memory.Lanes
import MipsRecompiler.Proofs.Memory.Routines

/-!
# Unaligned accesses

The left and the right part of an unaligned access. Each of them reaches to one end of its unit, so
that both together access all bytes of an unaligned number, and none beside it.
-/

set_option autoImplicit false

namespace MipsRecompiler

/-! ## The fixed segments -/

/-- A segment that shows the start of physical memory. -/
inductive FixedSegment where
  | cached
  | uncached

namespace FixedSegment

def base : FixedSegment → DoubleWord
  | cached => 0xffffffff80000000
  | uncached => 0xffffffffa0000000

def Holds (segment : FixedSegment) (address : DoubleWord) : Prop :=
  segment.base ≤ address ∧ address ≤ segment.base + 0x1fffffff

/-- Where an address of the segment is in physical memory. -/
def physical (segment : FixedSegment) (address : DoubleWord) : Nat :=
  address.toNat - segment.base.toNat

variable {segment : FixedSegment} {address : DoubleWord}

theorem holds_iff : segment.Holds address ↔
    segment.base.toNat ≤ address.toNat ∧ address.toNat < segment.base.toNat + 0x20000000 := by
  have last : (segment.base + 0x1fffffff).toNat = segment.base.toNat + 0x1fffffff := by
    cases segment <;> rfl
  rw [Holds, BitVec.le_def, BitVec.le_def, last]
  omega

theorem toNat_base (segment : FixedSegment) :
    segment.base.toNat = 0xffffffff80000000 ∨ segment.base.toNat = 0xffffffffa0000000 := by
  cases segment
  · exact .inl rfl
  · exact .inr rfl

/-- An address of the segment is translated without an entry. -/
theorem resolve_eq (holds : segment.Holds address) (tlb : Tlb) (control : SystemControl)
    (access : AccessKind) :
    tlb.resolve control address access = .ok (BitVec.ofNat 32 (segment.physical address)) := by
  obtain ⟨above, below⟩ := holds_iff.mp holds
  have start := segment.toNat_base
  have low : (address.setWidth 32 : Word).toNat = address.toNat - 0xffffffff00000000 := by
    rw [BitVec.toNat_setWidth]
    omega
  have sign : (address.setWidth 32 : Word).msb = true := by
    rw [BitVec.msb_eq_decide, low]
    apply decide_eq_true
    omega
  have extended : address = (address.setWidth 32).signExtend 64 := by
    apply BitVec.eq_of_toNat_eq
    rw [BitVec.toNat_signExtend, sign, BitVec.toNat_setWidth, low, if_pos rfl]
    omega
  have inside : 0x80000000 ≤ (address.setWidth 32 : Word) ∧
      (address.setWidth 32 : Word) ≤ 0xbfffffff := by
    rw [BitVec.le_def, BitVec.le_def, low]
    exact ⟨show 0x80000000 ≤ _ by omega, show _ ≤ 0xbfffffff by omega⟩
  rw [Tlb.resolve]
  refine (if_neg (not_not_intro extended)).trans ((if_pos inside).trans ?_)
  congr 1
  apply BitVec.eq_of_toNat_eq
  rw [BitVec.toNat_and, low, show (0x1fffffff : Word).toNat = 2 ^ 29 - 1 from rfl,
    Nat.and_two_pow_sub_one_eq_mod, BitVec.toNat_ofNat, physical]
  omega

end FixedSegment

/-! ## Units -/

namespace AccessSize

/-- Where the unit starts that holds a place in memory. -/
def unitStart (size : AccessSize) (place : Nat) : Nat :=
  place - place % size.bytes

theorem toNat_offsetMask (size : AccessSize) : size.offsetMask.toNat = size.bytes - 1 := by
  cases size <;> rfl

theorem toNat_and_offsetMask (size : AccessSize) (address : DoubleWord) :
    (address &&& size.offsetMask).toNat = address.toNat % size.bytes := by
  have power : ∃ width, size.bytes = 2 ^ width := by
    cases size
    · exact ⟨0, rfl⟩
    · exact ⟨1, rfl⟩
    · exact ⟨2, rfl⟩
    · exact ⟨3, rfl⟩
  obtain ⟨width, bytes⟩ := power
  rw [BitVec.toNat_and, toNat_offsetMask, bytes, Nat.and_two_pow_sub_one_eq_mod]

theorem unit_aligned (size : AccessSize) (address : DoubleWord) :
    (address &&& ~~~size.offsetMask) &&& size.offsetMask = 0#64 := by
  rw [BitVec.and_assoc, BitVec.not_and_self]
  exact BitVec.and_zero

/-- An address is the start of its unit and its place there. -/
theorem toNat_unit (size : AccessSize) (address : DoubleWord) :
    (address &&& ~~~size.offsetMask).toNat = size.unitStart address.toNat := by
  have apart : (address &&& ~~~size.offsetMask) &&& (address &&& size.offsetMask) = 0#64 := by
    rw [BitVec.and_comm address size.offsetMask, ← BitVec.and_assoc, unit_aligned,
      BitVec.zero_and]
  have whole : (address &&& ~~~size.offsetMask) + (address &&& size.offsetMask) = address := by
    rw [BitVec.add_eq_or_of_and_eq_zero _ _ apart, ← BitVec.and_or_distrib_left,
      BitVec.not_or_self, BitVec.and_allOnes]
  have sum := congrArg BitVec.toNat whole
  rw [BitVec.toNat_add_of_and_eq_zero apart, toNat_and_offsetMask] at sum
  rw [unitStart]
  omega

end AccessSize

namespace FixedSegment

variable {segment : FixedSegment} {address : DoubleWord}

theorem toNat_eq (holds : segment.Holds address) :
    address.toNat = segment.base.toNat + segment.physical address := by
  have := (holds_iff.mp holds).1
  rw [physical]
  omega

theorem physical_lt (holds : segment.Holds address) : segment.physical address < 0x20000000 := by
  have := (holds_iff.mp holds).2
  rw [physical]
  omega

/-- Segments consist of whole units. -/
theorem offsetOf_eq (holds : segment.Holds address) (size : AccessSize) :
    size.offsetOf address = segment.physical address % size.bytes := by
  rw [AccessSize.offsetOf, toNat_eq holds]
  have start := segment.toNat_base
  cases size <;> simp only [AccessSize.bytes] <;> omega

/-- The unit that holds an address of the segment. -/
theorem translate_unit (holds : segment.Holds address) (tlb : Tlb) (control : SystemControl)
    (access : AccessKind) (size : AccessSize) :
    tlb.translate control (address &&& ~~~size.offsetMask) access size =
      .ok (BitVec.ofNat 32 (size.unitStart (segment.physical address))) := by
  have offset := offsetOf_eq holds size
  have start := toNat_eq holds
  have starts : (address &&& ~~~size.offsetMask).toNat =
      segment.base.toNat + size.unitStart (segment.physical address) := by
    have := Nat.mod_le (segment.physical address) size.bytes
    rw [AccessSize.offsetOf] at offset
    rw [AccessSize.toNat_unit, AccessSize.unitStart, AccessSize.unitStart, offset]
    omega
  have unit : segment.Holds (address &&& ~~~size.offsetMask) := by
    have := physical_lt holds
    have : size.unitStart (segment.physical address) ≤ segment.physical address := Nat.sub_le _ _
    rw [holds_iff]
    omega
  rw [Tlb.translate]
  refine (if_neg (not_not_intro (size.unit_aligned address))).trans ?_
  rw [resolve_eq unit, physical, starts, Nat.add_sub_cancel_left]

end FixedSegment

namespace Machine

variable {segment : FixedSegment} {machine : Machine Ram} {size : AccessSize}
  {address register : DoubleWord}

theorem unitOf_bind {α : Type} (holds : segment.Holds address) (access : AccessKind)
    (size : AccessSize) (next : Word → Access Ram α) (machine : Machine Ram) :
    (unitOf address access size >>= next) machine =
      next (BitVec.ofNat 32 (size.unitStart (segment.physical address))) machine := by
  rw [unitOf, physicalOf_bind, Machine.translate, FixedSegment.translate_unit holds]

theorem toNat_unitStart (holds : segment.Holds address) (size : AccessSize) :
    (BitVec.ofNat 32 (size.unitStart (segment.physical address))).toNat =
      size.unitStart (segment.physical address) := by
  have := FixedSegment.physical_lt holds
  have : size.unitStart (segment.physical address) ≤ segment.physical address := Nat.sub_le _ _
  rw [BitVec.toNat_ofNat]
  omega

/-- Memory holds the whole unit of an address. -/
def Installed (ram : Ram) (segment : FixedSegment) (size : AccessSize) (address : DoubleWord) :
    Prop :=
  ram.holds (size.unitStart (segment.physical address)) size.bytes = true

theorem Installed.holds {ram : Ram} (installed : Installed ram segment size address)
    (holds : segment.Holds address) :
    ram.holds (BitVec.ofNat 32 (size.unitStart (segment.physical address))).toNat size.bytes =
      true := by
  rw [toNat_unitStart holds]
  exact installed

theorem Installed.of_size {before after : Ram} (installed : Installed before segment size address)
    (same : after.size = before.size) : Installed after segment size address := by
  rw [Installed, Ram.holds, same]
  exact installed

/-! ## Loads -/

theorem loadLeft_loads (holds : segment.Holds address)
    (installed : Installed machine.bus segment size address) (register : DoubleWord) :
    ∃ value, loadLeft size address register machine = .ok (size.widen true value) machine ∧
      ∀ place < size.bytes, byteOf value place =
        if segment.physical address % size.bytes ≤ place then
          machine.bus.bytes.get (segment.physical address + (size.bytes - 1 - place))
        else byteOf register place := by
  refine ⟨_, (unitOf_bind holds .load size _ machine).trans rfl, fun place inside => ?_⟩
  have offset := FixedSegment.offsetOf_eq holds size
  have within : segment.physical address % size.bytes < size.bytes := Nat.mod_lt _ size.bytes_pos
  have short := size.bytes_le
  rw [byteOf_lane_insert (by omega) inside, offset]
  by_cases covered : segment.physical address % size.bytes ≤ place
  · have := Nat.mod_le (segment.physical address) size.bytes
    rw [if_pos (by omega), if_pos covered, byteOf_lane_up covered inside,
      Ram.byteOf_read (installed.holds holds) (by omega), toNat_unitStart holds,
      AccessSize.unitStart]
    congr 1
    omega
  · rw [if_neg (by omega), if_neg covered]

theorem loadRight_loads (holds : segment.Holds address)
    (installed : Installed machine.bus segment size address) (register : DoubleWord) :
    ∃ value, loadRight size address register machine = .ok (size.widen true value) machine ∧
      ∀ place < size.bytes, byteOf value place =
        if place ≤ segment.physical address % size.bytes then
          machine.bus.bytes.get (segment.physical address - place)
        else byteOf register place := by
  refine ⟨_, (unitOf_bind holds .load size _ machine).trans rfl, fun place inside => ?_⟩
  have offset := FixedSegment.offsetOf_eq holds size
  have within : segment.physical address % size.bytes < size.bytes := Nat.mod_lt _ size.bytes_pos
  have short := size.bytes_le
  rw [byteOf_lane_insert (by omega) inside, offset]
  by_cases covered : place ≤ segment.physical address % size.bytes
  · have := Nat.mod_le (segment.physical address) size.bytes
    rw [if_pos (by omega), if_pos covered, byteOf_lane_down (by omega),
      Ram.byteOf_read (installed.holds holds) (by omega), toNat_unitStart holds,
      AccessSize.unitStart]
    congr 1
    omega
  · rw [if_neg (by omega), if_neg covered]

/-! ## Stores -/

/-- The bytes from `start` to `stop` have been replaced by those of a value that ends at `last`. -/
structure Patched (before : Ram) (value : DoubleWord) (last start stop : Nat) (after : Ram) :
    Prop where
  size : after.size = before.size
  get : ∀ place, after.bytes.get place =
    if start ≤ place ∧ place ≤ stop then byteOf value (last - place) else before.bytes.get place

theorem Patched.trans {before between after : Ram} {value : DoubleWord}
    {last start stop earlyStart earlyStop lateStart lateStop : Nat}
    (early : Patched before value last earlyStart earlyStop between)
    (late : Patched between value last lateStart lateStop after)
    (together : ∀ place, start ≤ place ∧ place ≤ stop ↔
      earlyStart ≤ place ∧ place ≤ earlyStop ∨ lateStart ≤ place ∧ place ≤ lateStop) :
    Patched before value last start stop after where
  size := late.size.trans early.size
  get place := by
    have both := together place
    rw [late.get, early.get]
    grind

theorem storeLeft_stores (holds : segment.Holds address)
    (installed : Installed machine.bus segment size address) (register : DoubleWord) :
    ∃ after, storeLeft size address register machine = .ok () { machine with bus := after } ∧
      Patched machine.bus register (segment.physical address + (size.bytes - 1))
        (segment.physical address)
        (size.unitStart (segment.physical address) + (size.bytes - 1)) after := by
  refine ⟨_, (unitOf_bind holds .store size _ machine).trans rfl, Ram.size_write _ _ _ _,
    fun place => ?_⟩
  have offset := FixedSegment.offsetOf_eq holds size
  have within : segment.physical address % size.bytes < size.bytes := Nat.mod_lt _ size.bytes_pos
  have := Nat.mod_le (segment.physical address) size.bytes
  refine (Ram.get_write_insert (installed.holds holds) (by omega) place).trans ?_
  rw [toNat_unitStart holds, offset, AccessSize.unitStart]
  by_cases covered : segment.physical address ≤ place ∧
      place ≤ segment.physical address - segment.physical address % size.bytes + (size.bytes - 1)
  · rw [if_pos (by omega), if_pos covered, byteOf_lane_down (by omega)]
    congr 1
    omega
  · rw [if_neg (by omega), if_neg covered]

theorem storeRight_stores (holds : segment.Holds address)
    (installed : Installed machine.bus segment size address) (register : DoubleWord) :
    ∃ after, storeRight size address register machine = .ok () { machine with bus := after } ∧
      Patched machine.bus register (segment.physical address)
        (size.unitStart (segment.physical address)) (segment.physical address) after := by
  refine ⟨_, (unitOf_bind holds .store size _ machine).trans rfl, Ram.size_write _ _ _ _,
    fun place => ?_⟩
  have offset := FixedSegment.offsetOf_eq holds size
  have within : segment.physical address % size.bytes < size.bytes := Nat.mod_lt _ size.bytes_pos
  have := Nat.mod_le (segment.physical address) size.bytes
  refine (Ram.get_write_insert (installed.holds holds) (by omega) place).trans ?_
  rw [toNat_unitStart holds, offset, AccessSize.unitStart]
  by_cases covered : segment.physical address - segment.physical address % size.bytes ≤ place ∧
      place ≤ segment.physical address
  · rw [if_pos (by omega), if_pos covered, byteOf_lane_up (by omega) (by omega)]
    congr 1
    omega
  · rw [if_neg (by omega), if_neg covered]

/-! ## Both parts -/

/-- The last byte of a number ends the unit that the first one starts, or is one place before it in
the next unit. -/
theorem unit_last (size : AccessSize) (place : Nat) :
    place % size.bytes = 0 ∧ (place + (size.bytes - 1)) % size.bytes = size.bytes - 1 ∨
      (place + (size.bytes - 1)) % size.bytes + 1 = place % size.bytes := by
  cases size <;> simp only [AccessSize.bytes] <;> omega

/-- The bytes of a number are those from its first one to the end of a unit, and those from the
start of a unit to its last one. -/
theorem parts_cover (size : AccessSize) (start place : Nat) :
    start ≤ place ∧ place ≤ start + (size.bytes - 1) ↔
      start ≤ place ∧ place ≤ size.unitStart start + (size.bytes - 1) ∨
        size.unitStart (start + (size.bytes - 1)) ≤ place ∧ place ≤ start + (size.bytes - 1) := by
  have ends := unit_last size start
  have within : start % size.bytes < size.bytes := Nat.mod_lt _ size.bytes_pos
  rw [AccessSize.unitStart, AccessSize.unitStart]
  omega

theorem physical_last (holds : segment.Holds address) (size : AccessSize) :
    segment.physical (address + size.offsetMask) =
      segment.physical address + (size.bytes - 1) := by
  have bound := (FixedSegment.holds_iff.mp holds).2
  have start := segment.toNat_base
  have short := size.bytes_le
  have sum : (address + size.offsetMask).toNat = address.toNat + (size.bytes - 1) := by
    rw [BitVec.toNat_add, AccessSize.toNat_offsetMask]
    omega
  have := FixedSegment.toNat_eq holds
  rw [FixedSegment.physical, sum]
  omega

/-- The bytes from a place on are these, and all others are as before. -/
structure Overwritten (before : Ram) (start : Nat) (bytes : List UInt8) (after : Ram) : Prop where
  size : after.size = before.size
  get : ∀ place, after.bytes.get place =
    if start ≤ place ∧ place < start + bytes.length then bytes.getD (place - start) 0
    else before.bytes.get place

theorem Patched.overwritten {before after : Ram} {value : DoubleWord} {start : Nat}
    {size : AccessSize}
    (patched : Patched before value (start + (size.bytes - 1)) start (start + (size.bytes - 1))
      after) :
    Overwritten before start (bigEndianBytes size.bytes value) after where
  size := patched.size
  get place := by
    have length : (bigEndianBytes size.bytes value).length = size.bytes := by
      simp [bigEndianBytes]
    have positive := size.bytes_pos
    rw [patched.get, length]
    by_cases inside : start ≤ place ∧ place < start + size.bytes
    · rw [if_pos (by omega), if_pos inside, getD_bigEndianBytes value (by omega)]
      congr 1
      omega
    · rw [if_neg (by omega), if_neg inside]

section

variable (first : segment.Holds address) (last : segment.Holds (address + size.offsetMask))
  (lower : Installed machine.bus segment size address)
  (upper : Installed machine.bus segment size (address + size.offsetMask))
  (register : DoubleWord)

include first last lower upper

theorem loadRight_completes :
    (do loadRight size (address + size.offsetMask) (← loadLeft size address register)) machine =
      .ok (size.widen true (bigEndian (machine.bus.bytes.getBytes (segment.physical address)
        size.bytes))) machine := by
  obtain ⟨left, loadsLeft, leftBytes⟩ := loadLeft_loads first lower register
  obtain ⟨right, loadsRight, rightBytes⟩ := loadRight_loads last upper (size.widen true left)
  have ends := unit_last size (segment.physical address)
  rw [physical_last first] at rightBytes
  refine (bindState_ok loadsLeft _).trans (loadsRight.trans ?_)
  congr 1
  apply AccessSize.widen_congr
  intro place inside
  rw [rightBytes place inside, AccessSize.byteOf_widen inside, leftBytes place inside,
    byteOf_getBytes _ _ size.bytes_le inside]
  by_cases covered : place ≤ (segment.physical address + (size.bytes - 1)) % size.bytes
  · rw [if_pos covered]
    congr 1
    omega
  · -- The byte is before the unit of the last one, and the left part has loaded it.
    rw [if_neg covered, if_pos (by omega)]

theorem loadLeft_completes :
    (do loadLeft size address (← loadRight size (address + size.offsetMask) register)) machine =
      .ok (size.widen true (bigEndian (machine.bus.bytes.getBytes (segment.physical address)
        size.bytes))) machine := by
  obtain ⟨right, loadsRight, rightBytes⟩ := loadRight_loads last upper register
  obtain ⟨left, loadsLeft, leftBytes⟩ := loadLeft_loads first lower (size.widen true right)
  have ends := unit_last size (segment.physical address)
  rw [physical_last first] at rightBytes
  refine (bindState_ok loadsRight _).trans (loadsLeft.trans ?_)
  congr 1
  apply AccessSize.widen_congr
  intro place inside
  rw [leftBytes place inside, AccessSize.byteOf_widen inside, rightBytes place inside,
    byteOf_getBytes _ _ size.bytes_le inside]
  by_cases covered : segment.physical address % size.bytes ≤ place
  · rw [if_pos covered]
  · -- The byte is behind the unit of the first one, and the right part has loaded it.
    rw [if_neg covered, if_pos (by omega)]
    congr 1
    omega

theorem storeRight_completes :
    ∃ after, (do storeLeft size address register
                 storeRight size (address + size.offsetMask) register) machine =
        .ok () { machine with bus := after } ∧
      Overwritten machine.bus (segment.physical address) (bigEndianBytes size.bytes register)
        after := by
  obtain ⟨between, storesLeft, early⟩ := storeLeft_stores first lower register
  let next : Machine Ram := { machine with bus := between }
  have still : Installed next.bus segment size (address + size.offsetMask) :=
    upper.of_size early.size
  obtain ⟨after, storesRight, late⟩ := storeRight_stores last still register
  rw [physical_last first] at late
  exact ⟨after, (bindState_ok storesLeft _).trans storesRight,
    (early.trans late (parts_cover size _)).overwritten⟩

/-- The left part stores what the right part did not. -/
theorem storeLeft_completes :
    ∃ after, (do storeRight size (address + size.offsetMask) register
                 storeLeft size address register) machine =
        .ok () { machine with bus := after } ∧
      Overwritten machine.bus (segment.physical address) (bigEndianBytes size.bytes register)
        after := by
  obtain ⟨between, storesRight, early⟩ := storeRight_stores last upper register
  let next : Machine Ram := { machine with bus := between }
  have still : Installed next.bus segment size address := lower.of_size early.size
  obtain ⟨after, storesLeft, late⟩ := storeLeft_stores first still register
  rw [physical_last first] at early
  exact ⟨after, (bindState_ok storesRight _).trans storesLeft,
    (early.trans late fun place => (parts_cover size _ place).trans Or.comm).overwritten⟩

end

/-- Both parts together load the number at an address, whatever was in the register, and store a
number there and nothing beside it, whichever part comes first. -/
theorem unaligned_complete (machine : Machine Ram) (size : AccessSize)
    (first : segment.Holds address) (last : segment.Holds (address + size.offsetMask))
    (lower : Installed machine.bus segment size address)
    (upper : Installed machine.bus segment size (address + size.offsetMask))
    (register : DoubleWord) :
    let start := segment.physical address
    let behind := address + size.offsetMask
    let number := size.widen true (bigEndian (machine.bus.bytes.getBytes start size.bytes))
    let bytes := bigEndianBytes size.bytes register
    (do loadRight size behind (← loadLeft size address register)) machine = .ok number machine ∧
    (do loadLeft size address (← loadRight size behind register)) machine = .ok number machine ∧
    (∃ after, (do storeLeft size address register; storeRight size behind register) machine =
      .ok () { machine with bus := after } ∧ Overwritten machine.bus start bytes after) ∧
    ∃ after, (do storeRight size behind register; storeLeft size address register) machine =
      .ok () { machine with bus := after } ∧ Overwritten machine.bus start bytes after :=
  ⟨loadRight_completes first last lower upper register,
    loadLeft_completes first last lower upper register,
    storeRight_completes first last lower upper register,
    storeLeft_completes first last lower upper register⟩

/-- Memory whose bytes are all different. -/
def straddlingGuest : Machine Ram :=
  { cpu := .reset
    tlb := .reset
    bus := ((Ram.ofSize 16).write 0 .double 0x8081828384858687).write 8 .double
      0x88898a8b8c8d8e8f }

/-- The number is in two units, and its sign is extended over the register. -/
theorem straddlingGuest_accessed :
    let address : DoubleWord := 0xffffffffa0000003
    let register : DoubleWord := 0x1122334455667788
    (do loadRight .word (address + 3) (← loadLeft .word address register)) straddlingGuest =
        .ok 0xffffffff83848586 straddlingGuest ∧
      ∃ after, (do storeLeft .word address register
                   storeRight .word (address + 3) register) straddlingGuest =
          .ok () { straddlingGuest with bus := after } ∧
        after.bytes.get 2 = 0x82 ∧ after.bytes.get 3 = 0x55 ∧ after.bytes.get 6 = 0x88 ∧
        after.bytes.get 7 = 0x87 := by
  intro address register
  have first : FixedSegment.uncached.Holds address := by constructor <;> decide
  have last : FixedSegment.uncached.Holds (address + 3) := by constructor <;> decide
  have lower : Installed straddlingGuest.bus .uncached .word address := by
    rw [Installed]
    decide +kernel
  have upper : Installed straddlingGuest.bus .uncached .word (address + 3) := by
    rw [Installed]
    decide +kernel
  obtain ⟨loads, -, ⟨after, stores, overwritten⟩, -⟩ :=
    unaligned_complete straddlingGuest .word first last lower upper register
  refine ⟨loads.trans (congrArg (EStateM.Result.ok · straddlingGuest) ?_), after, stores, ?_⟩
  · decide +kernel
  · rw [overwritten.get, overwritten.get, overwritten.get, overwritten.get]
    decide +kernel

end Machine

end MipsRecompiler
