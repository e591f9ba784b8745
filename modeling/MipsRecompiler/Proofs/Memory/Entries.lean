import MipsRecompiler.Memory.Tlb

/-!
# Entries of the table

Which entry is found for an address, before and after one of them is written, and what an entry for
a pair of small pages makes of the addresses on them.
-/

set_option autoImplicit false

namespace MipsRecompiler

/-- What an access comes to by this entry. -/
def TlbEntry.answer (entry : TlbEntry) (address : Word) (access : AccessKind) :
    Except Fault Word :=
  let half := entry.halfOf address
  if half.getLsbD 1 = false then .error (Tlb.miss access address false)
  else if access = .store ∧ half.getLsbD 2 = false then
    .error { Tlb.miss access address false with code := .tlbModification }
  else .ok (entry.physical half address)

namespace Tlb

variable {tlb : Tlb} {control : SystemControl} {address : Word} {space : BitVec 8}
  {slot found : Fin 32}

theorem find?_eq (tlb : Tlb) (address : Word) (space : BitVec 8) :
    tlb.find? address space =
      (List.finRange 32).find? fun slot => (tlb.entries.get slot).covers address space := rfl

theorem find?_eq_none_iff :
    tlb.find? address space = none ↔
      ∀ slot : Fin 32, (tlb.entries.get slot).covers address space = false := by
  simp [find?_eq, List.find?_eq_none]

theorem find?_eq_some_iff :
    tlb.find? address space = some found ↔
      (tlb.entries.get found).covers address space = true ∧
        ∀ earlier < found, (tlb.entries.get earlier).covers address space = false := by
  simp only [find?_eq, List.find?_eq_some_iff_getElem, List.getElem_finRange,
    List.length_finRange]
  constructor
  · rintro ⟨covers, index, bound, rfl, earlier⟩
    refine ⟨covers, fun other below => ?_⟩
    simpa using earlier other.val below
  · rintro ⟨covers, earlier⟩
    refine ⟨covers, found.val, found.isLt, rfl, fun other below => ?_⟩
    simpa using earlier ⟨other, by omega⟩ below

theorem lookup_of_find? (finds : tlb.find? address space = some found) (access : AccessKind) :
    tlb.lookup address access space = (tlb.entries.get found).answer address access := by
  simp only [lookup, finds, TlbEntry.answer, Bool.not_eq_true', Bool.and_eq_true, beq_iff_eq]
  rfl

theorem entries_writeSlot (tlb : Tlb) (slot other : Fin 32) (control : SystemControl) :
    (tlb.writeSlot slot control).entries.get other =
      if slot = other then .ofControl control else tlb.entries.get other := by
  simp only [Fin.ext_iff]
  exact Vector.getElem_set slot.isLt other.isLt

/-- The sixth bit of an index does not matter, as five bits number all entries. -/
theorem slotOf_low (value : DoubleWord) : slotOf (value &&& 0x3f) = slotOf value := by
  have low : (value &&& 0x3f).toNat = value.toNat % 64 := by
    rw [BitVec.toNat_and]
    exact Nat.and_two_pow_sub_one_eq_mod value.toNat 6
  refine Fin.ext ?_
  show (value &&& 0x3f).toNat % 32 = value.toNat % 32
  omega

theorem writeIndexed_eq (tlb : Tlb) (control : SystemControl) :
    tlb.writeIndexed control =
      tlb.writeSlot (slotOf (control.get SystemControl.index)) control := by
  rw [writeIndexed, slotOf_low]

/-- An entry for an address that was not mapped is found, wherever it is written. -/
theorem find?_writeSlot_of_covers
    (covers : (TlbEntry.ofControl control).covers address space = true)
    (missing : tlb.find? address space = none) :
    (tlb.writeSlot slot control).find? address space = some slot := by
  rw [find?_eq_none_iff] at missing
  rw [find?_eq_some_iff, entries_writeSlot, if_pos rfl]
  refine ⟨covers, fun earlier below => ?_⟩
  rw [entries_writeSlot, if_neg (Fin.ne_of_gt below)]
  exact missing earlier

theorem find?_writeSlot_of_not_covers
    (beside : (TlbEntry.ofControl control).covers address space = false)
    (finds : tlb.find? address space = some found) (differs : found ≠ slot) :
    (tlb.writeSlot slot control).find? address space = some found := by
  rw [find?_eq_some_iff] at finds ⊢
  obtain ⟨covers, earlier⟩ := finds
  rw [entries_writeSlot, if_neg differs.symm]
  refine ⟨covers, fun other below => ?_⟩
  rw [entries_writeSlot]
  split
  · exact beside
  · exact earlier other below

end Tlb

/-! ## Small pages -/

namespace TlbEntry

variable {control : SystemControl} {address : Word} {space : BitVec 8}

/-- What an access comes to on a page of 4096 bytes with this EntryLo. -/
def smallPage (half : DoubleWord) (address : DoubleWord) (access : AccessKind) :
    Except Fault Word :=
  if half.getLsbD 1 = false then
    .error { code := access.tlbMiss, badAddress := address, refill := false }
  else if access = .store ∧ half.getLsbD 2 = false then
    .error { code := .tlbModification, badAddress := address, refill := false }
  else .ok (half.extractLsb' 6 20 ++ address.extractLsb' 0 12)

theorem offsetMask_ofControl (small : control.get SystemControl.pageMask = 0) :
    (ofControl control).offsetMask = 0xfff := by
  simp [offsetMask, ofControl, small]

/-- Addresses agree on the bits that an entry for small pages looks at if they are on the same
pair of pages. -/
private theorem samePair_iff {first second : Word} :
    (first ^^^ second) &&& ~~~(((0xfff : Word) <<< 1) ||| 1) = 0 ↔
      first.extractLsb' 13 19 = second.extractLsb' 13 19 := by
  have mask : ~~~(((0xfff : Word) <<< 1) ||| 1) = BitVec.allOnes 32 <<< 13 := by decide
  have ones : (BitVec.allOnes 32 <<< 13 : Word).extractLsb' 13 19 = BitVec.allOnes 19 := by decide
  have same : first.extractLsb' 13 19 = second.extractLsb' 13 19 ↔
      (first ^^^ second).extractLsb' 13 19 = 0 := by
    rw [BitVec.extractLsb'_xor]
    exact BitVec.xor_eq_zero_iff.symm
  rw [mask, same]
  generalize first ^^^ second = bits
  constructor
  · intro none
    have high := congrArg (BitVec.extractLsb' 13 19) none
    rwa [BitVec.extractLsb'_and, ones, BitVec.and_allOnes] at high
  · intro none
    apply BitVec.eq_of_getLsbD_eq
    intro index bound
    rw [BitVec.getLsbD_and, BitVec.getLsbD_shiftLeft]
    -- The mask drops the bits below 13, and all others are among the 19 of the pair.
    by_cases low : index < 13
    · simp [low]
    · have high := congrArg (BitVec.getLsbD · (index - 13)) none
      simp only [BitVec.getLsbD_extractLsb', show 13 + (index - 13) = index by omega,
        show index - 13 < 19 by omega, decide_true, Bool.true_and] at high
      rw [high]
      simp

theorem entryHi_ofControl (small : control.get SystemControl.pageMask = 0) :
    (ofControl control).entryHi =
      control.get SystemControl.entryHi &&& SystemControl.entryHiBits := by
  have nothing : ~~~(0 &&& SystemControl.pageMaskBits) = BitVec.allOnes 64 := by decide
  rw [ofControl, small, nothing, BitVec.and_allOnes]

/-- An entry for small pages covers the addresses that have their pair in EntryHi. -/
theorem covers_ofControl (small : control.get SystemControl.pageMask = 0) :
    (ofControl control).covers address space = true ↔
      address.extractLsb' 13 19 = (control.get SystemControl.entryHi).extractLsb' 13 19 ∧
        ((ofControl control).isGlobal = true ∨ control.addressSpace = space) := by
  have pair : ((ofControl control).entryHi.setWidth 32 : Word).extractLsb' 13 19 =
      (control.get SystemControl.entryHi).extractLsb' 13 19 := by
    have whole : SystemControl.entryHiBits.extractLsb' 13 19 = BitVec.allOnes 19 := by decide
    rw [entryHi_ofControl small, BitVec.extractLsb'_setWidth_of_le (by decide),
      BitVec.extractLsb'_and, whole, BitVec.and_allOnes]
  have own : ((ofControl control).entryHi.setWidth 8 : BitVec 8) = control.addressSpace := by
    have whole : (SystemControl.entryHiBits.setWidth 8 : BitVec 8) = BitVec.allOnes 8 := by decide
    rw [entryHi_ofControl small, BitVec.setWidth_and, whole, BitVec.and_allOnes,
      SystemControl.addressSpace]
  simp only [covers, offsetMask_ofControl small, Bool.and_eq_true, beq_iff_eq,
    samePair_iff, pair, Bool.or_eq_true, own]

theorem halfOf_ofControl (small : control.get SystemControl.pageMask = 0) :
    (ofControl control).halfOf address =
      if address.getLsbD 12 then control.get SystemControl.entryLo1
      else control.get SystemControl.entryLo0 := by
  have page : (0xfff + 1 : Word) = BitVec.twoPow 32 12 := by decide
  rw [halfOf, offsetMask_ofControl small, page, BitVec.and_twoPow]
  cases address.getLsbD 12 <;> rfl

theorem getLsbD_ones {low width : Nat} (fits : low ≤ width) (index : Nat) :
    ((BitVec.allOnes low).setWidth width).getLsbD index = decide (index < low) := by
  rw [BitVec.getLsbD_setWidth, BitVec.getLsbD_allOnes, ← Bool.decide_and]
  exact decide_eq_decide.mpr ⟨fun both => both.2, fun below => ⟨by omega, below⟩⟩

/-- The frame number stands above the place of the address within its page. -/
theorem physical_ofControl (small : control.get SystemControl.pageMask = 0) (half : DoubleWord) :
    (ofControl control).physical half address =
      half.extractLsb' 6 20 ++ address.extractLsb' 0 12 := by
  have page : (0xfff : Word) = (BitVec.allOnes 12).setWidth 32 := by decide
  have frame : (0xfffff : DoubleWord) = (BitVec.allOnes 20).setWidth 64 := by decide
  simp only [physical, offsetMask_ofControl small]
  apply BitVec.eq_of_getLsbD_eq
  intro index bound
  rw [BitVec.getLsbD_append, BitVec.getLsbD_or, BitVec.getLsbD_and, BitVec.getLsbD_and,
    BitVec.getLsbD_not, page, getLsbD_ones (by decide), BitVec.getLsbD_shiftLeft,
    BitVec.getLsbD_setWidth, BitVec.getLsbD_and, frame, getLsbD_ones (by decide)]
  by_cases low : index < 12
  · simp [low]
  · simp [low, bound, show index - 12 < 32 by omega, Bool.and_comm]

end TlbEntry

end MipsRecompiler
