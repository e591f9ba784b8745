import MipsRecompiler.Memory.Access
import MipsRecompiler.Proofs.Memory.Bytes

/-!
# Bytes of a value

What shifts, byte masks and accesses do to the single bytes of a value. A lane is a value moved up
so that its unit ends at the top, and what is inserted there comes out at the places of the unit.
-/

set_option autoImplicit false

namespace MipsRecompiler

/-- The byte at this place of a value, counted from the bottom. -/
def byteOf (value : DoubleWord) (place : Nat) : UInt8 :=
  ⟨(value >>> (8 * place)).setWidth 8⟩

section

variable {value other target : DoubleWord} {place shift : Nat}

theorem byteOf_congr {otherPlace : Nat}
    (bits : ∀ index < 8,
      value.getLsbD (8 * place + index) = other.getLsbD (8 * otherPlace + index)) :
    byteOf value place = byteOf other otherPlace := by
  apply UInt8.eq_of_toBitVec_eq
  apply BitVec.eq_of_getLsbD_eq
  intro index bound
  simp only [byteOf, BitVec.getLsbD_setWidth, BitVec.getLsbD_ushiftRight, bits index bound]

theorem getLsbD_of_byteOf (same : byteOf value place = byteOf other place) {index : Nat}
    (bound : index < 8) : value.getLsbD (8 * place + index) = other.getLsbD (8 * place + index) := by
  have bit := congrArg (·.toBitVec.getLsbD index) same
  simpa [byteOf, bound] using bit

theorem byteOf_shiftLeft (above : shift ≤ place) (bound : place < 8) :
    byteOf (value <<< (8 * shift)) place = byteOf value (place - shift) := by
  apply byteOf_congr
  intro index low
  rw [BitVec.getLsbD_shiftLeft]
  simp [show 8 * place + index < 64 by omega, show ¬ 8 * place + index < 8 * shift by omega,
    show 8 * place + index - 8 * shift = 8 * (place - shift) + index by omega]

theorem byteOf_shiftRight (value : DoubleWord) (shift place : Nat) :
    byteOf (value >>> (8 * shift)) place = byteOf value (place + shift) := by
  apply byteOf_congr
  intro index _
  rw [BitVec.getLsbD_ushiftRight]
  congr 1
  omega

theorem ByteMask.getLsbD_lanes {width alignment index : Nat} (fits : width + alignment ≤ 8) :
    (lanes width alignment).bits.getLsbD index =
      decide (64 ≤ index + 8 * (width + alignment) ∧ index + 8 * alignment < 64) := by
  rw [lanes, BitVec.getLsbD_ushiftRight, BitVec.getLsbD_shiftLeft, BitVec.getLsbD_allOnes,
    ← decide_not, ← Bool.decide_and, ← Bool.decide_and]
  apply decide_eq_decide.mpr
  omega

theorem byteOf_insert {width alignment : Nat} (fits : width + alignment ≤ 8) (bound : place < 8) :
    byteOf ((ByteMask.lanes width alignment).insert target value) place =
      if 8 ≤ place + width + alignment ∧ place + alignment < 8 then byteOf value place
      else byteOf target place := by
  have lane (index : Nat) (low : index < 8) :
      (ByteMask.lanes width alignment).bits.getLsbD (8 * place + index) =
        decide (8 ≤ place + width + alignment ∧ place + alignment < 8) := by
    rw [ByteMask.getLsbD_lanes fits]
    apply decide_eq_decide.mpr
    omega
  split
  · rename_i covered
    apply byteOf_congr
    intro index low
    rw [ByteMask.insert, BitVec.getLsbD_or, BitVec.getLsbD_and, BitVec.getLsbD_and,
      BitVec.getLsbD_not, lane index low]
    simp [covered]
  · rename_i kept
    apply byteOf_congr
    intro index low
    rw [ByteMask.insert, BitVec.getLsbD_or, BitVec.getLsbD_and, BitVec.getLsbD_and,
      BitVec.getLsbD_not, lane index low]
    simp [kept, show 8 * place + index < 64 by omega]

/-! ## Values in memory -/

theorem getD_bigEndianBytes {count : Nat} (value : DoubleWord) (inside : place < count) :
    (bigEndianBytes count value).getD place 0 = byteOf value (count - 1 - place) := by
  rw [bigEndianBytes, List.getD_eq_getElem?_getD, List.getElem?_map, List.getElem?_range inside]
  rfl

private theorem byteOf_pushed (value : DoubleWord) (byte : UInt8) (bound : place < 8) :
    byteOf ((value <<< 8) ||| byte.toBitVec.setWidth 64) place =
      if place = 0 then byte else byteOf value (place - 1) := by
  split
  · rename_i bottom
    subst bottom
    apply UInt8.eq_of_toBitVec_eq
    apply BitVec.eq_of_getLsbD_eq
    intro index low
    simp [byteOf, low]
  · apply byteOf_congr
    intro index low
    rw [BitVec.getLsbD_or, BitVec.getLsbD_shiftLeft, BitVec.getLsbD_setWidth,
      BitVec.getLsbD_of_ge byte.toBitVec _ (by omega),
      show 8 * place + index - 8 = 8 * (place - 1) + index by omega]
    simp [show 8 * place + index < 64 by omega, show ¬ 8 * place + index < 8 by omega]

private theorem byteOf_foldl (bytes : List UInt8) (value : DoubleWord) (bound : place < 8) :
    byteOf (bytes.foldl (fun (value : DoubleWord) byte =>
      (value <<< 8) ||| byte.toBitVec.setWidth 64) value) place =
        if place < bytes.length then bytes.getD (bytes.length - 1 - place) 0
        else byteOf value (place - bytes.length) := by
  induction bytes generalizing value with
  | nil => rfl
  | cons byte rest ih =>
      rw [List.foldl_cons, ih, List.length_cons]
      by_cases inside : place < rest.length
      · rw [if_pos inside, if_pos (by omega),
          show rest.length + 1 - 1 - place = rest.length - 1 - place + 1 by omega]
        rfl
      · rw [if_neg inside, byteOf_pushed _ _ (by omega)]
        by_cases first : place = rest.length
        · rw [if_pos (by omega), if_pos (by omega),
            show rest.length + 1 - 1 - place = 0 by omega]
          rfl
        · rw [if_neg (by omega), if_neg (by omega), Nat.sub_sub]

theorem byteOf_bigEndian {bytes : List UInt8} (short : bytes.length ≤ 8)
    (inside : place < bytes.length) :
    byteOf (bigEndian bytes) place = bytes.getD (bytes.length - 1 - place) 0 := by
  rw [bigEndian, byteOf_foldl _ _ (by omega), if_pos inside]

theorem byteOf_getBytes (store : ByteStore) (start : Nat) {count : Nat} (short : count ≤ 8)
    (inside : place < count) :
    byteOf (bigEndian (store.getBytes start count)) place =
      store.get (start + (count - 1 - place)) := by
  have length : (store.getBytes start count).length = count := by
    simp [ByteStore.getBytes]
  rw [byteOf_bigEndian (by omega) (by omega), length, ByteStore.getBytes,
    List.getD_eq_getElem?_getD, List.getElem?_map, List.getElem?_range (by omega)]
  rfl

end

/-! ## Units and lanes -/

namespace AccessSize

variable {size : AccessSize} {value other : DoubleWord} {place : Nat}

theorem bytes_pos (size : AccessSize) : 0 < size.bytes := by
  cases size <;> decide

theorem bytes_le (size : AccessSize) : size.bytes ≤ 8 := by
  cases size <;> decide

/-- A unit is widened by its own bytes. -/
theorem widen_congr (same : ∀ place < size.bytes, byteOf value place = byteOf other place) :
    size.widen true value = size.widen true other := by
  have cut : value.setWidth (8 * size.bytes) = other.setWidth (8 * size.bytes) := by
    apply BitVec.eq_of_getLsbD_eq
    intro index bound
    have bit := getLsbD_of_byteOf (same (index / 8) (by omega))
      (show index % 8 < 8 from Nat.mod_lt _ (by decide))
    rw [Nat.div_add_mod] at bit
    simp [bit]
  rw [widen, widen, widenBytes, widenBytes, if_pos rfl, if_pos rfl, cut]

theorem byteOf_widen (inside : place < size.bytes) :
    byteOf (size.widen true value) place = byteOf value place := by
  have short := size.bytes_le
  apply byteOf_congr
  intro index low
  rw [widen, widenBytes, if_pos rfl, BitVec.getLsbD_signExtend, BitVec.getLsbD_setWidth]
  simp [show 8 * place + index < 64 by omega, show 8 * place + index < 8 * size.bytes by omega]

end AccessSize

section

variable {size : AccessSize} {value target : DoubleWord} {place shift : Nat}

theorem laneShift_eq (size : AccessSize) : Machine.laneShift size = 8 * (8 - size.bytes) := by
  cases size <;> rfl

theorem byteOf_lane_up (above : shift ≤ place) (inside : place < size.bytes) :
    byteOf ((value <<< Machine.laneShift size) <<< (8 * shift)) (place + (8 - size.bytes)) =
      byteOf value (place - shift) := by
  have short := size.bytes_le
  rw [byteOf_shiftLeft (by omega) (by omega), laneShift_eq,
    byteOf_shiftLeft (by omega) (by omega)]
  congr 1
  omega

theorem byteOf_lane_down (inside : place + shift < size.bytes) :
    byteOf ((value <<< Machine.laneShift size) >>> (8 * shift)) (place + (8 - size.bytes)) =
      byteOf value (place + shift) := by
  have short := size.bytes_le
  rw [byteOf_shiftRight, laneShift_eq, byteOf_shiftLeft (by omega) (by omega)]
  congr 1
  omega

theorem byteOf_lane_insert {width alignment : Nat} (fits : width + alignment ≤ 8)
    (inside : place < size.bytes) :
    byteOf ((ByteMask.lanes width alignment).insert (target <<< Machine.laneShift size) value >>>
      Machine.laneShift size) place =
        if size.bytes ≤ place + width + alignment ∧ place + alignment < size.bytes then
          byteOf value (place + (8 - size.bytes))
        else byteOf target place := by
  have short := size.bytes_le
  have stays : byteOf (target <<< Machine.laneShift size) (place + (8 - size.bytes)) =
      byteOf target place := by
    rw [laneShift_eq, byteOf_shiftLeft (by omega) (by omega), Nat.add_sub_cancel]
  rw [laneShift_eq, byteOf_shiftRight, ← laneShift_eq, byteOf_insert fits (by omega), stays]
  congr 1
  apply propext
  omega

end

namespace Ram

variable {ram : Ram} {physical : Word} {size : AccessSize} {value : DoubleWord}

theorem byteOf_read (installed : ram.holds physical.toNat size.bytes = true) {place : Nat}
    (inside : place < size.bytes) :
    byteOf (ram.read physical size) place =
      ram.bytes.get (physical.toNat + (size.bytes - 1 - place)) := by
  rw [read, if_pos installed, byteOf_getBytes _ _ size.bytes_le inside]

/-- The last one of the bytes written is the bottom one of the number. -/
theorem get_write (installed : ram.holds physical.toNat size.bytes = true) (address : Nat) :
    (ram.write physical size value).bytes.get address =
      if physical.toNat ≤ address ∧ address < physical.toNat + size.bytes then
        byteOf value (size.bytes - 1 - (address - physical.toNat))
      else ram.bytes.get address := by
  have length : (bigEndianBytes size.bytes value).length = size.bytes := by
    simp [bigEndianBytes]
  rw [write, if_pos installed, ByteStore.get_setBytes, length]
  split
  · rw [getD_bigEndianBytes value (by omega)]
  · rfl

theorem size_write (ram : Ram) (physical : Word) (size : AccessSize) (value : DoubleWord) :
    (ram.write physical size value).size = ram.size := by
  unfold write
  split <;> rfl

/-- What is inserted in the lane of a unit, and written back, changes the bytes that the mask
covers, in the order of memory. -/
theorem get_write_insert (installed : ram.holds physical.toNat size.bytes = true)
    {width alignment : Nat} (fits : width + alignment ≤ size.bytes) (place : Nat) :
    (ram.write physical size
      ((ByteMask.lanes width alignment).insert (ram.read physical size <<< Machine.laneShift size)
        value >>> Machine.laneShift size)).bytes.get place =
      if physical.toNat + alignment ≤ place ∧ place < physical.toNat + alignment + width then
        byteOf value (size.bytes - 1 - (place - physical.toNat) + (8 - size.bytes))
      else ram.bytes.get place := by
  have short := size.bytes_le
  rw [get_write installed]
  by_cases member : physical.toNat ≤ place ∧ place < physical.toNat + size.bytes
  · rw [if_pos member, byteOf_lane_insert (by omega) (by omega)]
    by_cases covered : physical.toNat + alignment ≤ place ∧
        place < physical.toNat + alignment + width
    · rw [if_pos (by omega), if_pos covered]
    · -- The byte is written as it was read.
      rw [if_neg (by omega), if_neg covered, byteOf_read installed (by omega)]
      congr 1
      omega
  · rw [if_neg member, if_neg (by omega)]

end Ram

end MipsRecompiler
