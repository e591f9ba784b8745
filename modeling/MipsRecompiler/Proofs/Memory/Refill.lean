import MipsRecompiler.Machine
import MipsRecompiler.Proofs.Cpu.ControlWrites
import MipsRecompiler.Proofs.Cpu.Exceptions
import MipsRecompiler.Proofs.Memory.Entries

/-!
# Refilling the table

An address that no entry covers is reported to the handler in the registers from which it writes the
missing entry. The two halves of its page pair and one table instruction suffice for the address to
be translated, and translations by other entries stay as they were.
-/

set_option autoImplicit false

namespace MipsRecompiler

namespace Tlb

variable {tlb other : Tlb} {control otherControl : SystemControl} {address : DoubleWord}
  {access : AccessKind} {fault : Fault} {space : BitVec 8} {found : Fin 32}

/-- The address is translated by the table, if at all. -/
def Mapped (address : DoubleWord) : Prop :=
  address = (address.setWidth 32).signExtend 64 ∧
    ¬(0x80000000 ≤ (address.setWidth 32 : Word) ∧ (address.setWidth 32 : Word) ≤ 0xbfffffff)

theorem resolve_of_mapped (mapped : Mapped address) (tlb : Tlb) (control : SystemControl)
    (access : AccessKind) :
    tlb.resolve control address access =
      tlb.lookup (address.setWidth 32) access control.addressSpace := by
  rw [resolve]
  exact (if_neg (not_not_intro mapped.1)).trans (if_neg mapped.2)

theorem resolve_of_not_mapped (fixed : ¬ Mapped address) (tlb other : Tlb)
    (control otherControl : SystemControl) (access : AccessKind) :
    other.resolve otherControl address access = tlb.resolve control address access := by
  simp only [resolve]
  split
  · rfl
  · rename_i extended
    split
    · rfl
    · rename_i outside
      exact absurd ⟨Classical.not_not.mp extended, outside⟩ fixed

/-- An address is reported for a refill where no entry covers it. -/
theorem resolve_refill (misses : tlb.resolve control address access = .error fault)
    (refill : fault.refill = true) :
    Mapped address ∧ tlb.find? (address.setWidth 32) control.addressSpace = none ∧
      fault = { code := access.tlbMiss, badAddress := address, refill := true } := by
  by_cases mapped : Mapped address
  · rw [resolve_of_mapped mapped, lookup] at misses
    split at misses
    · rename_i missing
      cases misses
      exact ⟨mapped, missing, by rw [miss, ← mapped.1]⟩
    · dsimp only at misses
      split at misses
      · cases misses
        cases refill
      · split at misses <;> cases misses
        cases refill
  · simp only [resolve] at misses
    split at misses
    · cases misses
      cases refill
    · rename_i extended
      split at misses
      · cases misses
      · rename_i outside
        exact absurd ⟨Classical.not_not.mp extended, outside⟩ mapped

theorem resolve_congr (spaces : otherControl.addressSpace = control.addressSpace)
    (finds : tlb.find? (address.setWidth 32) control.addressSpace = some found)
    (findsOther : other.find? (address.setWidth 32) control.addressSpace = some found)
    (same : other.entries.get found = tlb.entries.get found) (access : AccessKind) :
    other.resolve otherControl address access = tlb.resolve control address access := by
  simp only [resolve, spaces, lookup_of_find? finds, lookup_of_find? findsOther, same]

theorem resolve_small {written : SystemControl} {slot : Fin 32} (mapped : Mapped address)
    (small : written.get SystemControl.pageMask = 0)
    (finds : tlb.find? (address.setWidth 32) control.addressSpace = some slot)
    (entry : tlb.entries.get slot = .ofControl written) (access : AccessKind) :
    tlb.resolve control address access =
      TlbEntry.smallPage
        (if address.getLsbD 12 then written.get SystemControl.entryLo1
          else written.get SystemControl.entryLo0) address access := by
  have page : (address.setWidth 32 : Word).getLsbD 12 = address.getLsbD 12 := by
    rw [BitVec.getLsbD_setWidth, decide_eq_true (by decide : 12 < 32), Bool.true_and]
  have offset : (address.setWidth 32 : Word).extractLsb' 0 12 = address.extractLsb' 0 12 :=
    BitVec.extractLsb'_setWidth_of_le (by decide)
  rw [resolve_of_mapped mapped, lookup_of_find? finds, entry]
  simp only [TlbEntry.answer, TlbEntry.smallPage, TlbEntry.halfOf_ofControl small,
    TlbEntry.physical_ofControl small, miss, ← mapped.1, page, offset]

end Tlb

/-- EntryLo keeps all bits that say where a small page is. -/
theorem TlbEntry.smallPage_written (half : DoubleWord) (address : DoubleWord)
    (access : AccessKind) :
    smallPage (half &&& SystemControl.entryLoBits) address access =
      smallPage half address access := by
  have frame : SystemControl.entryLoBits.extractLsb' 6 20 = BitVec.allOnes 20 := by decide
  have valid : SystemControl.entryLoBits.getLsbD 1 = true := by decide
  have dirty : SystemControl.entryLoBits.getLsbD 2 = true := by decide
  simp only [smallPage, BitVec.extractLsb'_and, BitVec.getLsbD_and, frame, valid, dirty,
    BitVec.and_allOnes, Bool.and_true]

/-! ## Pairs of pages -/

/-- The pair of pages of a low address, above the 13 bits that count within it. -/
private theorem extract_pair (value : DoubleWord) :
    value.extractLsb' 13 19 = (value >>> 13).setWidth 19 :=
  BitVec.eq_of_toNat_eq rfl

private theorem context_pair (context address : DoubleWord) :
    ((context &&& ~~~SystemControl.contextPageBits) |||
      ((address >>> 9) &&& SystemControl.contextPageBits)).extractLsb' 4 19 =
        address.extractLsb' 13 19 := by
  have kept : (~~~SystemControl.contextPageBits).extractLsb' 4 19 = 0 := by decide
  have filled : SystemControl.contextPageBits.extractLsb' 4 19 = BitVec.allOnes 19 := by decide
  rw [BitVec.extractLsb'_or, BitVec.extractLsb'_and, BitVec.extractLsb'_and, kept, filled,
    BitVec.and_allOnes]
  apply BitVec.eq_of_getLsbD_eq
  intro index bound
  simp [show 9 + (4 + index) = 13 + index by omega]

private theorem entryHi_pair (address entryHi : DoubleWord) :
    ((address &&& ~~~0x1fff) ||| (entryHi &&& 0xff)) >>> 13 = address >>> 13 := by
  have page : (~~~0x1fff : DoubleWord) >>> 13 = BitVec.allOnes 64 >>> 13 := by decide
  have space : (0xff : DoubleWord) >>> 13 = 0 := by decide
  rw [BitVec.ushiftRight_or_distrib, BitVec.ushiftRight_and_distrib,
    BitVec.ushiftRight_and_distrib, page, space, ← BitVec.ushiftRight_and_distrib,
    BitVec.and_allOnes]
  simp

namespace Tlb.Mapped

variable {address other : DoubleWord}

/-- The bits above the low word repeat its sign. -/
theorem getLsbD_high (mapped : Mapped address) {index : Nat} (high : 32 ≤ index)
    (bound : index < 64) : address.getLsbD index = address.getLsbD 31 := by
  rw [mapped.1, BitVec.getLsbD_signExtend, BitVec.getLsbD_signExtend]
  simp [show ¬ index < 32 by omega, bound, BitVec.msb_eq_getLsbD_last]

theorem pair_eq (mapped : Mapped address) (otherMapped : Mapped other)
    (same : address.extractLsb' 13 19 = other.extractLsb' 13 19) :
    address >>> 13 = other >>> 13 := by
  have low (index : Nat) (bound : index < 19) :
      address.getLsbD (13 + index) = other.getLsbD (13 + index) := by
    have bit := congrArg (BitVec.getLsbD · index) same
    simpa [BitVec.getLsbD_extractLsb', bound] using bit
  apply BitVec.eq_of_getLsbD_eq
  intro index bound
  rw [BitVec.getLsbD_ushiftRight, BitVec.getLsbD_ushiftRight]
  -- Both repeat bit 31 from there on, which is the last one of the pair.
  by_cases inside : index < 19
  · exact low index inside
  · by_cases outside : 13 + index < 64
    · rw [mapped.getLsbD_high (by omega) outside, otherMapped.getLsbD_high (by omega) outside]
      exact low 18 (by omega)
    · rw [BitVec.getLsbD_of_ge _ _ (by omega), BitVec.getLsbD_of_ge _ _ (by omega)]

end Tlb.Mapped

/-! ## The new entry -/

/-- The registers describe a pair of small pages with these two halves, which an address is on. -/
structure Describes (control : SystemControl) (address : DoubleWord) (space : BitVec 8)
    (even odd : DoubleWord) : Prop where
  pageMask : control.get SystemControl.pageMask = 0
  pair : (control.get SystemControl.entryHi).extractLsb' 13 19 = address.extractLsb' 13 19
  space : control.addressSpace = space
  entryLo0 : control.get SystemControl.entryLo0 = even &&& SystemControl.entryLoBits
  entryLo1 : control.get SystemControl.entryLo1 = odd &&& SystemControl.entryLoBits

namespace Describes

variable {tlb : Tlb} {described control : SystemControl} {address beside even odd : DoubleWord}
  {slot found : Fin 32}

theorem resolve_writeSlot (describes : Describes described address control.addressSpace even odd)
    (mapped : Tlb.Mapped address)
    (missing : tlb.find? (address.setWidth 32) control.addressSpace = none) (slot : Fin 32)
    (access : AccessKind) :
    (tlb.writeSlot slot described).resolve control address access =
      TlbEntry.smallPage (if address.getLsbD 12 then odd else even) address access := by
  have covers : (TlbEntry.ofControl described).covers (address.setWidth 32)
      control.addressSpace = true := by
    rw [TlbEntry.covers_ofControl describes.pageMask,
      BitVec.extractLsb'_setWidth_of_le (by decide), describes.pair]
    exact ⟨rfl, .inr describes.space⟩
  have entry : (tlb.writeSlot slot described).entries.get slot = .ofControl described := by
    rw [Tlb.entries_writeSlot, if_pos rfl]
  rw [Tlb.resolve_small mapped describes.pageMask (Tlb.find?_writeSlot_of_covers covers missing)
    entry, describes.entryLo0, describes.entryLo1, ← apply_ite (· &&& SystemControl.entryLoBits),
    TlbEntry.smallPage_written]

/-- An address of another pair is translated by the entry it was translated by, unless that was
replaced. -/
theorem resolve_writeSlot_beside {space : BitVec 8}
    (describes : Describes described address space even odd)
    (mapped : Tlb.Mapped address) (differs : beside >>> 13 ≠ address >>> 13)
    (finds : tlb.find? (beside.setWidth 32) control.addressSpace = some found)
    (kept : found ≠ slot) (access : AccessKind) {later : SystemControl}
    (spaces : later.addressSpace = control.addressSpace) :
    (tlb.writeSlot slot described).resolve later beside access =
      tlb.resolve control beside access := by
  by_cases translated : Tlb.Mapped beside
  · have apart : (TlbEntry.ofControl described).covers (beside.setWidth 32)
        control.addressSpace = false := by
      rw [Bool.eq_false_iff, Ne, TlbEntry.covers_ofControl describes.pageMask,
        BitVec.extractLsb'_setWidth_of_le (by decide), describes.pair]
      exact fun covers => differs (translated.pair_eq mapped covers.1)
    refine Tlb.resolve_congr spaces finds (Tlb.find?_writeSlot_of_not_covers apart finds kept) ?_
      access
    rw [Tlb.entries_writeSlot, if_neg kept.symm]
  · exact Tlb.resolve_of_not_mapped translated _ _ _ _ _

end Describes

/-! ## The handler -/

inductive TlbWrite where
  | indexed
  | random

namespace TlbWrite

variable {β : Type}

def slot (control : SystemControl) : TlbWrite → Fin 32
  | indexed => Tlb.slotOf (control.get SystemControl.index)
  | random => Tlb.slotOf (control.get SystemControl.random)

def apply (machine : Machine β) : TlbWrite → Machine β
  | indexed => machine.tlbWriteIndexed
  | random => machine.tlbWriteRandom

theorem apply_tlb (write : TlbWrite) (machine : Machine β) :
    (write.apply machine).tlb =
      machine.tlb.writeSlot (write.slot machine.cpu.control) machine.cpu.control := by
  cases write with
  | indexed => exact machine.tlb.writeIndexed_eq machine.cpu.control
  | random => rfl

theorem apply_space (write : TlbWrite) (machine : Machine β) :
    (write.apply machine).cpu.control.addressSpace = machine.cpu.control.addressSpace := by
  cases write with
  | indexed => rfl
  | random => exact SystemControl.addressSpace_set (by decide)

end TlbWrite

/-- The writes of a refill handler: they leave EntryHi alone, and describe a pair of small pages
with these two halves. -/
structure Refills (writes : List ControlWrite) (even odd : DoubleWord) : Prop where
  entryHi : ∀ write ∈ writes, write.reg ≠ SystemControl.entryHi
  pageMask : ControlWrite.last? SystemControl.pageMask writes = some 0
  entryLo0 : ControlWrite.last? SystemControl.entryLo0 writes = some even
  entryLo1 : ControlWrite.last? SystemControl.entryLo1 writes = some odd

namespace Refills

variable {writes : List ControlWrite} {even odd : DoubleWord}

/-- Three writes are enough, of whole registers or of words. -/
theorem of_pair (even odd : DoubleWord) (wholeMask wholeEven wholeOdd : Bool) :
    Refills [⟨SystemControl.pageMask, 0, wholeMask⟩, ⟨SystemControl.entryLo0, even, wholeEven⟩,
      ⟨SystemControl.entryLo1, odd, wholeOdd⟩] even odd where
  entryHi := by
    simp only [List.forall_mem_cons]
    exact ⟨by decide, by decide, by decide, List.forall_mem_nil _⟩
  pageMask := rfl
  entryLo0 := rfl
  entryLo1 := rfl

theorem get_entryHi (refills : Refills writes even odd) (control : SystemControl) :
    (ControlWrite.run control writes).get SystemControl.entryHi =
      control.get SystemControl.entryHi :=
  ControlWrite.get_run_of_unwritten (by decide) (by decide) refills.entryHi control

/-- Whatever is in the other registers, those that describe an entry describe this pair of small
pages. -/
theorem describes (refills : Refills writes even odd) {control : SystemControl}
    {address : DoubleWord}
    (pair : (control.get SystemControl.entryHi) >>> 13 = address >>> 13) :
    Describes (ControlWrite.run control writes) address control.addressSpace even odd where
  pageMask := by
    rw [ControlWrite.get_run (by decide) (by decide) SystemControl.get_write_pageMask,
      refills.pageMask]
    exact BitVec.zero_and
  pair := by rw [refills.get_entryHi, extract_pair, pair, ← extract_pair]
  space := by rw [SystemControl.addressSpace, refills.get_entryHi, SystemControl.addressSpace]
  entryLo0 := by
    rw [ControlWrite.get_run (by decide) (by decide) SystemControl.get_write_entryLo0,
      refills.entryLo0]
    rfl
  entryLo1 := by
    rw [ControlWrite.get_run (by decide) (by decide) SystemControl.get_write_entryLo1,
      refills.entryLo1]
    rfl

end Refills

namespace Machine

variable {β : Type} {machine : Machine β} {address : DoubleWord} {access : AccessKind}
  {fault : Fault}

/-- The handler of a fault of the table finds the address and its pair of pages in the registers,
and still is in the same address space. -/
theorem raise_reports (machine : Machine β) (exception : ExceptionDescriptor)
    (isTlb : exception.cause.code.isTlb = true)
    (recorded : exception.cause.badAddress = some address) :
    let entered := machine.raise exception
    entered.cpu.control.get SystemControl.badVAddr = address ∧
      (entered.cpu.control.get SystemControl.context).extractLsb' 4 19 =
        address.extractLsb' 13 19 ∧
      (entered.cpu.control.get SystemControl.entryHi) >>> 13 = address >>> 13 ∧
      entered.cpu.control.addressSpace = machine.cpu.control.addressSpace := by
  refine ⟨CpuState.badVAddr_raise isTlb recorded, ?_, ?_, CpuState.addressSpace_raise⟩
  · rw [raise, mapCpu, CpuState.context_raise isTlb recorded, context_pair]
  · rw [raise, mapCpu, CpuState.entryHi_raise isTlb recorded, entryHi_pair]

/-- The handler of an address that no entry covers. It finds the address and its pair of pages in
the registers, and the two halves that it writes are in use from its table instruction on. Other
pairs are translated as before, unless their entry was the one replaced. -/
theorem refill_serves
    (misses : machine.tlb.resolve machine.cpu.control address access = .error fault)
    (refill : fault.refill = true) (pc : DoubleWord) (delaySlot : Bool) :
    let entered := machine.raise { cause := .ofFault fault, pc, delaySlot }
    entered.cpu.control.get SystemControl.badVAddr = address ∧
      (entered.cpu.control.get SystemControl.context).extractLsb' 4 19 =
        address.extractLsb' 13 19 ∧
      (entered.cpu.control.get SystemControl.entryHi) >>> 13 = address >>> 13 ∧
      entered.cpu.control.addressSpace = machine.cpu.control.addressSpace ∧
      ∀ (writes : List ControlWrite) (even odd : DoubleWord) (write : TlbWrite),
        Refills writes even odd →
        let ready := entered.mapControl (ControlWrite.run · writes)
        let served := write.apply ready
        (∀ other, served.tlb.resolve served.cpu.control address other =
          TlbEntry.smallPage (if address.getLsbD 12 then odd else even) address other) ∧
        ∀ (beside : DoubleWord) (found : Fin 32), beside >>> 13 ≠ address >>> 13 →
          machine.tlb.find? (beside.setWidth 32) machine.cpu.control.addressSpace = some found →
          found ≠ write.slot ready.cpu.control →
          ∀ other, served.tlb.resolve served.cpu.control beside other =
            machine.tlb.resolve machine.cpu.control beside other := by
  obtain ⟨mapped, missing, is⟩ := Tlb.resolve_refill misses refill
  have isTlb : fault.code.isTlb = true := by
    rw [is]
    cases access <;> rfl
  have bad : fault.badAddress = address := by rw [is]
  intro entered
  have table : entered.tlb = machine.tlb := rfl
  obtain ⟨badVAddr, context, entryHi, space⟩ :=
    raise_reports machine { cause := .ofFault fault, pc, delaySlot } isTlb (congrArg some bad)
  refine ⟨badVAddr, context, entryHi, space, ?_⟩
  intro writes even odd write refills ready served
  have describes := refills.describes entryHi
  have spaces : served.cpu.control.addressSpace = machine.cpu.control.addressSpace :=
    (write.apply_space ready).trans (describes.space.trans space)
  have written : served.tlb = machine.tlb.writeSlot (write.slot ready.cpu.control)
      ready.cpu.control := by
    rw [← table]
    exact write.apply_tlb ready
  rw [written]
  constructor
  · intro other
    have own : Describes ready.cpu.control address served.cpu.control.addressSpace even odd := by
      rw [spaces, ← space]
      exact describes
    rw [← spaces] at missing
    exact own.resolve_writeSlot mapped missing _ other
  · intro beside found differs finds kept other
    exact describes.resolve_writeSlot_beside mapped differs finds kept other spaces

/-- A guest with one entry, for the pair of pages at 0x2000. -/
def sparseGuest : Machine Ram :=
  { cpu := .reset
    tlb := Tlb.reset.writeSlot 3 (ControlWrite.run CpuState.reset.control
      [⟨SystemControl.entryHi, 0x2000, true⟩, ⟨SystemControl.entryLo0, 0x46, true⟩])
    bus := .ofSize 256 }

theorem sparseGuest_refilled :
    let writes : List ControlWrite :=
      [⟨SystemControl.pageMask, 0, false⟩, ⟨SystemControl.entryLo0, 0x106, false⟩,
        ⟨SystemControl.entryLo1, 0x142, false⟩]
    let miss : Fault := { code := .tlbStore, badAddress := 0x401abc, refill := true }
    let entered := sparseGuest.raise
      { cause := .ofFault miss, pc := 0xffffffff80000000, delaySlot := false }
    let served := TlbWrite.random.apply (entered.mapControl (ControlWrite.run · writes))
    sparseGuest.tlb.resolve sparseGuest.cpu.control 0x401abc .store = .error miss ∧
      Refills writes 0x106 0x142 ∧
      served.tlb.resolve served.cpu.control 0x401abc .load = .ok 0x5abc ∧
      served.tlb.resolve served.cpu.control 0x401abc .store =
        .error { code := .tlbModification, badAddress := 0x401abc, refill := false } ∧
      served.tlb.resolve served.cpu.control 0x2010 .load = .ok 0x1010 := by
  intro writes miss entered served
  have misses : sparseGuest.tlb.resolve sparseGuest.cpu.control 0x401abc .store = .error miss := by
    rfl
  have refills : Refills writes 0x106 0x142 := .of_pair 0x106 0x142 false false false
  obtain ⟨-, -, -, -, serves⟩ := refill_serves misses rfl 0xffffffff80000000 false
  obtain ⟨own, beside⟩ := serves writes 0x106 0x142 .random refills
  refine ⟨misses, refills, (own .load).trans (by rfl), (own .store).trans (by rfl), ?_⟩
  exact (beside 0x2010 3 (by decide) (by decide +kernel) (by decide +kernel) .load).trans
    (by rfl)

end Machine

end MipsRecompiler
