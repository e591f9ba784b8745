import MipsRecompiler.Proofs.Memory.Pages
import MipsRecompiler.Proofs.Memory.Refill

/-!
# What software reads of the table

An entry is found by a probe for every address that it translates, and the registers that it is read
into say what becomes of the address. Writing them back leaves all translations as they were.
-/

set_option autoImplicit false

namespace MipsRecompiler

namespace SystemControl

/-- What an access comes to by the page mask and the two halves in the registers. The bits of the
mask, moved down by one, count within a page like the 12 below them, and the sum of these with one
has the bits that select the half. -/
def shownTranslation (control : SystemControl) (address : DoubleWord) (access : AccessKind) :
    Except Fault Word :=
  let offset : DoubleWord := (control.get pageMask >>> 1) ||| 0xfff
  let half := if address &&& (offset + 1) = 0 then control.get entryLo0 else control.get entryLo1
  let frame := half.extractLsb' 6 20
  let valid := half.getLsbD 1
  let dirty := half.getLsbD 2
  if valid = false then
    .error { code := access.tlbMiss, badAddress := address, refill := false }
  else if access = .store ∧ dirty = false then
    .error { code := .tlbModification, badAddress := address, refill := false }
  else .ok (((frame ++ (0 : BitVec 12)) &&& ~~~offset.setWidth 32) |||
    (address &&& offset).setWidth 32)

end SystemControl

/-! ## Entries in the registers -/

namespace TlbEntry

variable {entry : TlbEntry} {control : SystemControl} {first second : Word}

/-- An entry covers the addresses of a pair of pages alike. -/
theorem covers_pair (entry : TlbEntry)
    (same : second.extractLsb' 13 19 = first.extractLsb' 13 19) (space : BitVec 8) :
    entry.covers second space = entry.covers first space := by
  unfold covers
  dsimp only
  congr 2
  apply BitVec.eq_of_getLsbD_eq
  intro index bound
  rw [BitVec.getLsbD_and, BitVec.getLsbD_and, BitVec.getLsbD_xor, BitVec.getLsbD_xor]
  by_cases low : index < 13
  · rw [entry.pairMask_low low, Bool.and_false, Bool.and_false]
  · have bit := congrArg (BitVec.getLsbD · (index - 13)) same
    simp only [BitVec.getLsbD_extractLsb', show 13 + (index - 13) = index by omega,
      show index - 13 < 19 by omega, decide_true, Bool.true_and] at bit
    rw [bit]

/-- A half as software reads it, with the global bit of the whole entry. -/
def shownHalf (entry : TlbEntry) (half : DoubleWord) : DoubleWord :=
  (half &&& ~~~1) ||| if entry.isGlobal then 1 else 0

def shown (entry : TlbEntry) : TlbEntry :=
  { entry with
    entryLo0 := entry.shownHalf entry.entryLo0
    entryLo1 := entry.shownHalf entry.entryLo1 }

theorem get_toControl (entry : TlbEntry) (control : SystemControl) (reg : RegisterNumber) :
    (entry.toControl control).get reg =
      if SystemControl.entryLo1 = reg then entry.shownHalf entry.entryLo1
      else if SystemControl.entryLo0 = reg then entry.shownHalf entry.entryLo0
      else if SystemControl.entryHi = reg then entry.entryHi
      else if SystemControl.pageMask = reg then entry.pageMask.setWidth 64
      else control.get reg := by
  simp only [toControl, SystemControl.get_set]
  rfl

theorem getLsbD_of_shift {half other : DoubleWord} (same : other >>> 1 = half >>> 1)
    (index : Nat) : other.getLsbD (1 + index) = half.getLsbD (1 + index) := by
  rw [← BitVec.getLsbD_ushiftRight, same, BitVec.getLsbD_ushiftRight]

/-- Only the global bit of a half depends on the other one. -/
theorem shownHalf_shift (entry : TlbEntry) (half : DoubleWord) :
    entry.shownHalf half >>> 1 = half >>> 1 := by
  have kept : (~~~1 : DoubleWord) >>> 1 = BitVec.allOnes 64 >>> 1 := by decide
  have bit : (if entry.isGlobal then 1 else 0 : DoubleWord) >>> 1 = 0#64 := by
    split <;> decide
  rw [shownHalf, BitVec.ushiftRight_or_distrib, BitVec.ushiftRight_and_distrib, kept, bit,
    ← BitVec.ushiftRight_and_distrib, BitVec.and_allOnes, BitVec.or_zero]

theorem shownHalf_global (entry : TlbEntry) (half : DoubleWord) :
    (entry.shownHalf half).getLsbD 0 = entry.isGlobal := by
  rw [shownHalf, BitVec.getLsbD_or, BitVec.getLsbD_and]
  cases entry.isGlobal <;> simp

theorem isGlobal_shown (entry : TlbEntry) : entry.shown.isGlobal = entry.isGlobal := by
  rw [isGlobal, shown, BitVec.getLsbD_and, shownHalf_global, shownHalf_global, Bool.and_self]

theorem shownHalf_shown (entry : TlbEntry) (half : DoubleWord) :
    entry.shown.shownHalf (entry.shownHalf half) = entry.shownHalf half := by
  apply BitVec.eq_of_getLsbD_eq
  intro index _
  cases index with
  | zero => rw [shownHalf_global, shownHalf_global, isGlobal_shown]
  | succ index =>
      rw [Nat.add_comm]
      exact getLsbD_of_shift (entry.shown.shownHalf_shift _) index

theorem covers_shown (entry : TlbEntry) (address : Word) (space : BitVec 8) :
    entry.shown.covers address space = entry.covers address space := by
  rw [covers, isGlobal_shown]
  rfl

/-- Translations do not depend on the global bit of the half. -/
theorem physical_of_shift {half other : DoubleWord} (same : other >>> 1 = half >>> 1)
    (address : Word) : entry.physical other address = entry.physical half address := by
  have frame : other >>> 6 = half >>> 6 := by
    rw [show 6 = 1 + 5 from rfl, BitVec.shiftRight_add, same, ← BitVec.shiftRight_add]
  rw [physical, frame]
  rfl

theorem halfOf_shown (entry : TlbEntry) (address : Word) :
    entry.shown.halfOf address = entry.shownHalf (entry.halfOf address) := by
  simp only [halfOf]
  exact (apply_ite entry.shownHalf _ _ _).symm

theorem answer_shown (entry : TlbEntry) (address : Word) (access : AccessKind) :
    entry.shown.answer address access = entry.answer address access := by
  have same := entry.shownHalf_shift (entry.halfOf address)
  have valid := getLsbD_of_shift same 0
  have dirty := getLsbD_of_shift same 1
  have physical : entry.shown.physical (entry.shownHalf (entry.halfOf address)) address =
      entry.physical (entry.halfOf address) address := physical_of_shift same address
  simp only [answer, halfOf_shown, valid, dirty, physical]

theorem get_toControl_shown (entry : TlbEntry) (control : SystemControl) (reg : RegisterNumber) :
    (entry.shown.toControl (entry.toControl control)).get reg =
      (entry.toControl control).get reg := by
  have even : entry.shown.shownHalf entry.shown.entryLo0 = entry.shownHalf entry.entryLo0 :=
    entry.shownHalf_shown _
  have odd : entry.shown.shownHalf entry.shown.entryLo1 = entry.shownHalf entry.entryLo1 :=
    entry.shownHalf_shown _
  have entryHi : entry.shown.entryHi = entry.entryHi := rfl
  have pageMask : entry.shown.pageMask = entry.pageMask := rfl
  rw [get_toControl, get_toControl, even, odd, entryHi, pageMask]
  grind

/-! ## Translations by the registers -/

theorem offsetMask_widen (entry : TlbEntry) :
    ((entry.pageMask.setWidth 64 : DoubleWord) >>> 1) ||| 0xfff =
      entry.offsetMask.setWidth 64 := by
  have bits : (0xfff : DoubleWord) = (0xfff : Word).setWidth 64 := by decide
  have moved : (entry.pageMask.setWidth 64 : DoubleWord) >>> 1 =
      (entry.pageMask >>> 1).setWidth 64 := by
    apply BitVec.eq_of_getLsbD_eq
    intro index bound
    simp [bound]
  rw [moved, bits, ← BitVec.setWidth_or, offsetMask]

/-- The sum that selects the half does not leave the low word. -/
theorem offsetMask_succ_widen (entry : TlbEntry) :
    (entry.offsetMask.setWidth 64 + 1 : DoubleWord) = (entry.offsetMask + 1).setWidth 64 := by
  have high : entry.offsetMask.msb = false := by
    have low : (0xfff : Word).msb = false := by decide
    rw [offsetMask, BitVec.msb_or, BitVec.msb_ushiftRight, low]
    rfl
  have room : entry.offsetMask.toNat < 2 ^ 31 := BitVec.toNat_lt_of_msb_false high
  have wide : (1 : DoubleWord).toNat = 1 := rfl
  have narrow : (1 : Word).toNat = 1 := rfl
  apply BitVec.eq_of_toNat_eq
  rw [BitVec.toNat_add, BitVec.toNat_setWidth, BitVec.toNat_setWidth, BitVec.toNat_add, wide,
    narrow]
  omega

theorem and_widen (address : DoubleWord) (mask : Word) :
    address &&& mask.setWidth 64 = (address.setWidth 32 &&& mask).setWidth 64 := by
  apply BitVec.eq_of_getLsbD_eq
  intro index bound
  simp only [BitVec.getLsbD_and, BitVec.getLsbD_setWidth, bound, decide_true, Bool.true_and]
  by_cases low : index < 32
  · simp [low]
  · simp [low, BitVec.getLsbD_of_ge mask index (Nat.le_of_not_lt low)]

/-- The frame of a half stands above the 12 bits of a small page. -/
theorem frame_eq (half : DoubleWord) :
    (((half >>> 6) &&& 0xfffff).setWidth 32 : Word) <<< 12 =
      half.extractLsb' 6 20 ++ (0 : BitVec 12) := by
  have ones : (0xfffff : DoubleWord) = (BitVec.allOnes 20).setWidth 64 := by decide
  apply BitVec.eq_of_getLsbD_eq
  intro index bound
  rw [BitVec.getLsbD_append, BitVec.getLsbD_shiftLeft, BitVec.getLsbD_setWidth,
    BitVec.getLsbD_and, ones, getLsbD_ones (by decide)]
  by_cases low : index < 12
  · simp [low]
  · simp [low, bound, show index - 12 < 32 by omega, Bool.and_comm]

/-- The registers of an entry that was read say what the entry does. -/
theorem shownTranslation_toControl {address : DoubleWord}
    (extended : address = (address.setWidth 32).signExtend 64) (entry : TlbEntry)
    (control : SystemControl) (access : AccessKind) :
    (entry.toControl control).shownTranslation address access =
      entry.answer (address.setWidth 32) access := by
  have half : (if address &&& (entry.offsetMask + 1).setWidth 64 = 0 then
      entry.shownHalf entry.entryLo0 else entry.shownHalf entry.entryLo1) =
        entry.shown.halfOf (address.setWidth 32) := by
    have zero : (address.setWidth 32 &&& (entry.offsetMask + 1)).setWidth 64 = (0 : DoubleWord) ↔
        address.setWidth 32 &&& (entry.offsetMask + 1) = 0 := by
      rw [← BitVec.toNat_inj, ← BitVec.toNat_inj, BitVec.toNat_setWidth_of_le (by decide)]
      rfl
    rw [and_widen]
    simp only [zero, halfOf, beq_iff_eq]
    rfl
  have pageMask : (entry.toControl control).get SystemControl.pageMask =
      entry.pageMask.setWidth 64 := get_toControl entry control _
  have entryLo0 : (entry.toControl control).get SystemControl.entryLo0 =
      entry.shownHalf entry.entryLo0 := get_toControl entry control _
  have entryLo1 : (entry.toControl control).get SystemControl.entryLo1 =
      entry.shownHalf entry.entryLo1 := get_toControl entry control _
  rw [← entry.answer_shown]
  have narrow : (entry.offsetMask.setWidth 64 : DoubleWord).setWidth 32 = entry.offsetMask :=
    BitVec.setWidth_setWidth_of_le _ (by decide)
  have offset : (address &&& entry.offsetMask.setWidth 64).setWidth 32 =
      address.setWidth 32 &&& entry.offsetMask := by
    rw [BitVec.setWidth_and, narrow]
  simp only [SystemControl.shownTranslation, pageMask, entryLo0, entryLo1, offsetMask_widen,
    offsetMask_succ_widen, half, narrow, offset, answer, Tlb.miss, ← extended, physical, frame_eq]
  rfl

/-! ## Entries written back -/

private theorem widen_and {mask : DoubleWord} (low : mask = (mask.setWidth 32).setWidth 64)
    (value : DoubleWord) : ((value &&& mask).setWidth 32).setWidth 64 = value &&& mask := by
  rw [BitVec.setWidth_and, BitVec.setWidth_and, ← low]
  apply BitVec.eq_of_getLsbD_eq
  intro index bound
  rw [BitVec.getLsbD_and, BitVec.getLsbD_and, BitVec.getLsbD_setWidth, BitVec.getLsbD_setWidth]
  by_cases inside : index < 32
  · simp [inside, bound]
  · rw [low, BitVec.getLsbD_setWidth, BitVec.getLsbD_setWidth]
    simp [inside]

theorem ofControl_toControl (described control : SystemControl) :
    ofControl ((ofControl described).toControl control) = (ofControl described).shown := by
  have pageMask : ((ofControl described).toControl control).get SystemControl.pageMask =
      described.get SystemControl.pageMask &&& SystemControl.pageMaskBits :=
    (get_toControl _ control _).trans (widen_and (by decide) _)
  have entryHi : ((ofControl described).toControl control).get SystemControl.entryHi =
      (ofControl described).entryHi := get_toControl _ control _
  have masked (value mask : DoubleWord) : value &&& mask &&& mask = value &&& mask := by
    rw [BitVec.and_assoc, BitVec.and_self]
  have kept : (ofControl described).entryHi &&&
      ~~~(described.get SystemControl.pageMask &&& SystemControl.pageMaskBits) &&&
        SystemControl.entryHiBits = (ofControl described).entryHi := by
    simp only [ofControl]
    rw [BitVec.and_assoc (described.get SystemControl.entryHi), BitVec.and_assoc (_ &&& (_ &&& _)),
      masked]
  rw [ofControl, pageMask, entryHi, masked, kept, get_toControl, get_toControl]
  rfl

end TlbEntry

namespace Tlb

variable {tlb other : Tlb} {address : DoubleWord}

/-- A table that was reset, and then written by table instructions with whatever was in the
registers. -/
inductive Built : Tlb → Prop where
  | reset : Built reset
  | indexed {tlb : Tlb} (control : SystemControl) : Built tlb → Built (tlb.writeIndexed control)
  | random {tlb : Tlb} (control : SystemControl) : Built tlb → Built (tlb.writeRandom control).1

theorem Built.described (built : Built tlb) (slot : Fin 32) :
    ∃ control, tlb.entries.get slot = .ofControl control := by
  induction built with
  | reset => exact ⟨⟨.clear⟩, by revert slot; decide⟩
  | indexed control _ ih =>
      rw [writeIndexed, entries_writeSlot]
      split
      · exact ⟨control, rfl⟩
      · exact ih
  | random control _ ih =>
      simp only [writeRandom]
      rw [entries_writeSlot]
      split
      · exact ⟨control, rfl⟩
      · exact ih

/-- Entries that cover the same addresses and do the same with them translate alike. -/
theorem resolve_of_entries
    (covers : ∀ slot address space, (other.entries.get slot).covers address space =
      (tlb.entries.get slot).covers address space)
    (answers : ∀ slot address access, (other.entries.get slot).answer address access =
      (tlb.entries.get slot).answer address access)
    (control : SystemControl) (address : DoubleWord) (access : AccessKind) :
    other.resolve control address access = tlb.resolve control address access := by
  by_cases mapped : Mapped address
  · have finds : other.find? (address.setWidth 32) control.addressSpace =
        tlb.find? (address.setWidth 32) control.addressSpace := by
      simp only [find?_eq, covers]
    rw [resolve_of_mapped mapped, resolve_of_mapped mapped]
    cases found : tlb.find? (address.setWidth 32) control.addressSpace with
    | none => simp only [lookup, finds, found]
    | some slot =>
        rw [lookup_of_find? found, lookup_of_find? (finds.trans found), answers]
  · exact resolve_of_not_mapped mapped _ _ _ _ _

/-- A probe looks for the pair of pages of an address. Bits 8 to 12 of EntryHi do not matter for
this, and neither do those above the low word. -/
structure Asks (control : SystemControl) (address : DoubleWord) (space : BitVec 8) : Prop where
  pair : (control.get SystemControl.entryHi).extractLsb' 13 19 = address.extractLsb' 13 19
  space : control.addressSpace = space

/-- The index of an entry selects it, and is not the failure mark. -/
theorem index_selects (slot : Fin 32) :
    BitVec.ofNat 64 slot.val ≠ 0x80000000 ∧ (BitVec.ofNat 64 slot.val).toNat < 32 ∧
      slotOf (BitVec.ofNat 64 slot.val) = slot := by
  revert slot
  decide

theorem index_probe {control : SystemControl} {space : BitVec 8}
    (asks : Asks control address space) (tlb : Tlb) :
    (tlb.probe control).get SystemControl.index =
      (tlb.find? (address.setWidth 32) space).elim 0x80000000 fun slot =>
        BitVec.ofNat 64 slot.val := by
  have finds : tlb.find? ((control.get SystemControl.entryHi).setWidth 32)
      ((control.get SystemControl.entryHi).setWidth 8) =
        tlb.find? (address.setWidth 32) space := by
    have same : ((control.get SystemControl.entryHi).setWidth 32 : Word).extractLsb' 13 19 =
        (address.setWidth 32 : Word).extractLsb' 13 19 := by
      rw [BitVec.extractLsb'_setWidth_of_le (by decide), asks.pair,
        BitVec.extractLsb'_setWidth_of_le (by decide)]
    have own : (control.get SystemControl.entryHi).setWidth 8 = space := asks.space
    simp only [find?_eq, own, TlbEntry.covers_pair _ same]
  simp only [probe, finds, SystemControl.get_set_self]
  cases tlb.find? (address.setWidth 32) space <;> rfl

end Tlb

/-- No fault of an entry is one for the refill handler. -/
theorem TlbEntry.refill_answer {entry : TlbEntry} {address : Word} {access : AccessKind}
    {fault : Fault} (faults : entry.answer address access = .error fault) :
    fault.refill = false := by
  simp only [answer] at faults
  split at faults
  · cases faults
    rfl
  · split at faults
    · cases faults
      rfl
    · cases faults

namespace Machine

variable {β : Type} {machine : Machine β} {address : DoubleWord}

/-- A probe for the pair of an address fails if and only if accesses to the address miss, and what
is then read of the entry that it finds says what every access comes to. -/
theorem probe_explains (machine : Machine β) {control : SystemControl}
    (mapped : Tlb.Mapped address)
    (asks : Tlb.Asks machine.cpu.control address control.addressSpace) :
    let probed := machine.tlbProbe
    let index := probed.cpu.control.get SystemControl.index
    let shown := probed.tlbRead.cpu.control
    (∀ access, index = 0x80000000 ↔
      ∃ fault, machine.tlb.resolve control address access = .error fault ∧ fault.refill = true) ∧
    (index ≠ 0x80000000 → index.toNat < 32 ∧
      ∀ access, machine.tlb.resolve control address access =
        shown.shownTranslation address access) := by
  intro probed index shown
  have probes : index = _ := Tlb.index_probe asks machine.tlb
  have resolves := Tlb.resolve_of_mapped mapped machine.tlb control
  cases found : machine.tlb.find? (address.setWidth 32) control.addressSpace with
  | none =>
      rw [found, Option.elim_none] at probes
      refine ⟨fun access => ⟨fun _ => ?_, fun _ => probes⟩, fun finds => absurd probes finds⟩
      exact ⟨Tlb.miss access (address.setWidth 32) true,
        by rw [resolves, Tlb.lookup, found], rfl⟩
  | some slot =>
      rw [found, Option.elim_some] at probes
      obtain ⟨finds, bound, selects⟩ := Tlb.index_selects slot
      have answers (access : AccessKind) : machine.tlb.resolve control address access =
          (machine.tlb.entries.get slot).answer (address.setWidth 32) access := by
        rw [resolves, Tlb.lookup_of_find? found]
      constructor
      · intro access
        constructor
        · intro fails
          exact absurd (probes.symm.trans fails) finds
        · rintro ⟨fault, faults, refill⟩
          rw [answers] at faults
          rw [TlbEntry.refill_answer faults] at refill
          cases refill
      · intro _
        have reads : shown = (machine.tlb.entries.get slot).toControl probed.cpu.control := by
          rw [← selects, ← probes]
          rfl
        refine ⟨by rw [probes]; exact bound, fun access => ?_⟩
        rw [answers, reads, TlbEntry.shownTranslation_toControl mapped.1]

/-- A guest with two entries for the pair of pages at 0x402000. The first one has a gap in its page
mask, and only one of its halves is global. No probe has succeeded yet. -/
def overlappingGuest : Machine Ram :=
  let reset := CpuState.reset.control
  let small := ControlWrite.run reset [⟨SystemControl.index, 9, true⟩,
    ⟨SystemControl.entryHi, 0x402007, true⟩, ⟨SystemControl.entryLo0, 0x46, true⟩]
  let wide := ControlWrite.run reset [⟨SystemControl.pageMask, 0xa000, true⟩,
    ⟨SystemControl.entryHi, 0x400007, true⟩, ⟨SystemControl.entryLo0, 0x107, true⟩,
    ⟨SystemControl.entryLo1, 0x48c2, true⟩]
  { cpu :=
      { CpuState.reset with
        control := (reset.set SystemControl.entryHi 0x402007).set SystemControl.index 0x80000000 }
    tlb := (Tlb.reset.writeIndexed small).writeIndexed wide
    bus := .ofSize 256 }

theorem overlappingGuest_explained :
    let control := overlappingGuest.cpu.control
    let shown := overlappingGuest.tlbProbe.tlbRead.cpu.control
    Tlb.Mapped 0x402abc ∧ Tlb.Asks control 0x402abc control.addressSpace ∧
      overlappingGuest.tlbProbe.cpu.control.get SystemControl.index = 0 ∧
      (∀ access, overlappingGuest.tlb.resolve control 0x402abc access =
        shown.shownTranslation 0x402abc access) ∧
      shown.shownTranslation 0x402abc .load = .ok 0x122abc ∧
      shown.shownTranslation 0x402abc .store =
        .error { code := .tlbModification, badAddress := 0x402abc, refill := false } := by
  intro control shown
  have mapped : Tlb.Mapped 0x402abc := by
    constructor <;> decide
  have asks : Tlb.Asks control 0x402abc control.addressSpace := ⟨by decide +kernel, rfl⟩
  have finds : overlappingGuest.tlbProbe.cpu.control.get SystemControl.index = 0 := by
    decide +kernel
  obtain ⟨-, explains⟩ := probe_explains overlappingGuest mapped asks
  have translates := (explains (by rw [finds]; decide)).2
  have first : overlappingGuest.tlb.find? 0x402abc control.addressSpace = some 0 := by
    decide +kernel
  have answers (access : AccessKind) := (Tlb.resolve_of_mapped mapped overlappingGuest.tlb control
    access).trans (Tlb.lookup_of_find? first access)
  exact ⟨mapped, asks, finds, translates,
    (translates .load).symm.trans ((answers .load).trans (by rfl)),
    (translates .store).symm.trans ((answers .store).trans (by rfl))⟩

/-- An entry that is read and written back translates every address as before, and reads as
before. -/
theorem writeBack_preserves (built : machine.tlb.Built) :
    let read := machine.tlbRead
    let written := read.tlbWriteIndexed
    (∀ control address access, written.tlb.resolve control address access =
      machine.tlb.resolve control address access) ∧
    ∀ reg, written.tlbRead.cpu.control.get reg = read.cpu.control.get reg := by
  intro read written
  let slot := Tlb.slotOf (machine.cpu.control.get SystemControl.index)
  let entry := machine.tlb.entries.get slot
  have reads : read.cpu.control = entry.toControl machine.cpu.control := rfl
  have selects : Tlb.slotOf (read.cpu.control.get SystemControl.index) = slot := by
    rw [reads, TlbEntry.get_toControl]
    rfl
  have writes : written.tlb = machine.tlb.writeSlot slot read.cpu.control := by
    rw [← selects]
    exact read.tlb.writeIndexed_eq read.cpu.control
  have stored : TlbEntry.ofControl read.cpu.control = entry.shown := by
    obtain ⟨described, is⟩ := built.described slot
    rw [reads, show entry = _ from is]
    exact TlbEntry.ofControl_toControl _ _
  have entries (other : Fin 32) : written.tlb.entries.get other =
      if slot = other then (machine.tlb.entries.get other).shown
      else machine.tlb.entries.get other := by
    rw [writes, Tlb.entries_writeSlot, stored]
    split
    · rename_i same
      rw [← same]
    · rfl
  constructor
  · apply Tlb.resolve_of_entries
    · intro other address space
      rw [entries]
      split
      · exact TlbEntry.covers_shown _ address space
      · rfl
    · intro other address access
      rw [entries]
      split
      · exact TlbEntry.answer_shown _ address access
      · rfl
  · intro reg
    have again : written.tlbRead.cpu.control = entry.shown.toControl read.cpu.control := by
      have same : written.tlb.entries.get slot = entry.shown := by rw [entries, if_pos rfl]
      rw [← same, ← selects]
      rfl
    rw [again, reads, TlbEntry.get_toControl_shown]

/-- The entry changes, since both of its halves then have the same global bit. -/
theorem overlappingGuest_writtenBack :
    let written := overlappingGuest.tlbRead.tlbWriteIndexed
    overlappingGuest.tlb.Built ∧ written.tlb ≠ overlappingGuest.tlb ∧
      (∀ control address access, written.tlb.resolve control address access =
        overlappingGuest.tlb.resolve control address access) ∧
      written.tlbRead.cpu.control.get SystemControl.entryLo0 = 0x106 := by
  intro written
  have built : overlappingGuest.tlb.Built := .indexed _ (.indexed _ .reset)
  obtain ⟨translates, reads⟩ := writeBack_preserves built
  refine ⟨built, by decide +kernel, translates, (reads _).trans ?_⟩
  decide +kernel

end Machine

end MipsRecompiler
