import MipsRecompiler.Memory.Tlb

/-!
# Pages

Whatever maps an address, it maps the whole page of 4096 bytes that the address is on, and in
order. So instructions that follow each other on a page are fetched from words that do.
-/

set_option autoImplicit false

namespace MipsRecompiler

/-- Two addresses differ only in the 12 bits that count within a page. -/
def SamePage {width : Nat} (first second : BitVec width) : Prop :=
  ∀ index, 12 ≤ index → second.getLsbD index = first.getLsbD index

/-- Two addresses have the same place within their pages. -/
def SameOffset {width other : Nat} (first : BitVec width) (second : BitVec other) : Prop :=
  ∀ index, index < 12 → second.getLsbD index = first.getLsbD index

theorem SameOffset.toNat_eq {width other : Nat} {first : BitVec width} {second : BitVec other}
    (same : SameOffset first second) : second.toNat % 4096 = first.toNat % 4096 := by
  apply Nat.eq_of_testBit_eq
  intro index
  have bit := same index
  simp only [show 4096 = 2 ^ 12 from rfl, Nat.testBit_mod_two_pow, BitVec.testBit_toNat]
  by_cases low : index < 12
  · simp [bit low]
  · simp [low]

namespace SamePage

section

variable {width : Nat} {first second : BitVec width}

theorem toNat_eq (same : SamePage first second) : second.toNat / 4096 = first.toNat / 4096 := by
  apply Nat.eq_of_testBit_eq
  intro index
  have bit := same (index + 12) (by omega)
  simp only [show 4096 = 2 ^ 12 from rfl, Nat.testBit_div_two_pow, BitVec.testBit_toNat]
  exact bit

theorem of_toNat (same : second.toNat / 4096 = first.toNat / 4096) : SamePage first second := by
  intro index above
  obtain ⟨rest, rfl⟩ := Nat.exists_eq_add_of_le' above
  have bit := congrArg (Nat.testBit · rest) same
  simp only [show 4096 = 2 ^ 12 from rfl, Nat.testBit_div_two_pow, BitVec.testBit_toNat] at bit
  exact bit

theorem xor (same : SamePage first second) (mask : BitVec width) :
    SamePage (first ^^^ mask) (second ^^^ mask) := by
  intro index above
  rw [BitVec.getLsbD_xor, BitVec.getLsbD_xor, same index above]

theorem and (same : SamePage first second) (mask : BitVec width) :
    SamePage (first &&& mask) (second &&& mask) := by
  intro index above
  rw [BitVec.getLsbD_and, BitVec.getLsbD_and, same index above]

theorem and_eq (same : SamePage first second) {mask : BitVec width}
    (high : ∀ index < 12, mask.getLsbD index = false) : second &&& mask = first &&& mask := by
  apply BitVec.eq_of_getLsbD_eq
  intro index bound
  rw [BitVec.getLsbD_and, BitVec.getLsbD_and]
  by_cases low : index < 12
  · simp [high index low]
  · rw [same index (Nat.le_of_not_lt low)]

end

theorem low {first second : DoubleWord} (same : SamePage first second) :
    SamePage (first.setWidth 32 : Word) (second.setWidth 32) := by
  intro index above
  simp only [BitVec.getLsbD_setWidth, same index above]

/-- The following word is on the same page unless it starts one. -/
theorem add_four {address : DoubleWord} (inside : address.toNat % 4096 + 4 < 4096) :
    (address + 4).toNat = address.toNat + 4 ∧ SamePage address (address + 4) := by
  have sum : (address + 4).toNat = address.toNat + 4 := by
    have bound := address.isLt
    have four : (4 : DoubleWord).toNat = 4 := rfl
    rw [BitVec.toNat_add, four]
    omega
  refine ⟨sum, of_toNat ?_⟩
  rw [sum]
  omega

/-- Whether an address is a sign extended one depends on its page. -/
theorem signExtended {first second : DoubleWord} (same : SamePage first second)
    (extended : first = (first.setWidth 32).signExtend 64) :
    second = (second.setWidth 32).signExtend 64 := by
  apply BitVec.eq_of_getLsbD_eq
  intro index bound
  rw [BitVec.getLsbD_signExtend]
  by_cases low : index < 32
  · simp [low, bound]
  · have sign : first.getLsbD index = first.getLsbD 31 := by
      rw [extended, BitVec.getLsbD_signExtend, BitVec.getLsbD_signExtend]
      simp [low, bound, BitVec.msb_eq_getLsbD_last]
    rw [same index (by omega), sign, ← same 31 (by omega)]
    simp [low, bound, BitVec.msb_eq_getLsbD_last]

end SamePage

namespace TlbEntry

variable {first second : Word}

private theorem offsetMask_low (entry : TlbEntry) {index : Nat} (low : index < 12) :
    entry.offsetMask.getLsbD index = true := by
  have ones : (0xfff : Word) = (BitVec.allOnes 12).setWidth 32 := by decide
  have bit : (0xfff : Word).getLsbD index = true := by
    rw [ones, BitVec.getLsbD_setWidth, BitVec.getLsbD_allOnes]
    simp [low]
    omega
  rw [offsetMask, BitVec.getLsbD_or, bit, Bool.or_true]

/-- The bits that count within a pair of pages are not compared. -/
theorem pairMask_low (entry : TlbEntry) {index : Nat} (low : index < 13) :
    (~~~((entry.offsetMask <<< 1) ||| 1)).getLsbD index = false := by
  rw [BitVec.getLsbD_not, BitVec.getLsbD_or, BitVec.getLsbD_shiftLeft]
  cases index with
  | zero => simp
  | succ index =>
      have bit := entry.offsetMask_low (Nat.lt_of_succ_lt_succ low)
      simp [bit]

private theorem halfMask_low (entry : TlbEntry) (index : Nat) (low : index < 12) :
    (entry.offsetMask + 1).getLsbD index = false := by
  have ones : SameOffset (BitVec.allOnes 12) entry.offsetMask := by
    intro bit below
    rw [entry.offsetMask_low below, BitVec.getLsbD_allOnes]
    simp [below]
  have offset : entry.offsetMask.toNat % 4096 = 4095 := by
    rw [ones.toNat_eq]
    decide
  have nothing : (entry.offsetMask + 1).toNat % 2 ^ 12 = 0 := by
    have one : (1 : Word).toNat = 1 := rfl
    rw [BitVec.toNat_add, one]
    omega
  have bit := congrArg (Nat.testBit · index) nothing
  simp only [Nat.testBit_mod_two_pow, low, decide_true, Bool.true_and, Nat.zero_testBit] at bit
  exact bit

theorem covers_page (entry : TlbEntry) (same : SamePage first second) (space : BitVec 8) :
    entry.covers second space = entry.covers first space := by
  unfold covers
  dsimp only
  rw [(same.xor _).and_eq fun _ low => entry.pairMask_low (Nat.lt_succ_of_lt low)]

theorem halfOf_page (entry : TlbEntry) (same : SamePage first second) :
    entry.halfOf second = entry.halfOf first := by
  unfold halfOf
  rw [same.and_eq entry.halfMask_low]

theorem physical_page (entry : TlbEntry) (half : DoubleWord) (same : SamePage first second) :
    SamePage (entry.physical half first) (entry.physical half second) := by
  intro index above
  unfold physical
  rw [BitVec.getLsbD_or, BitVec.getLsbD_or, same.and _ index above]

theorem physical_offset (entry : TlbEntry) (half : DoubleWord) (address : Word) :
    SameOffset address (entry.physical half address) := by
  intro index low
  unfold physical
  dsimp only
  rw [BitVec.getLsbD_or, BitVec.getLsbD_and, BitVec.getLsbD_and, BitVec.getLsbD_not,
    entry.offsetMask_low low]
  simp

end TlbEntry

namespace Tlb

variable {tlb : Tlb} {control : SystemControl} {access : AccessKind} {physical : Word}

theorem find?_page {first second : Word} (same : SamePage first second) (tlb : Tlb)
    (space : BitVec 8) : tlb.find? second space = tlb.find? first space := by
  simp only [find?, TlbEntry.covers_page _ same]

private theorem lookup_page {first second : Word} {space : BitVec 8}
    (same : SamePage first second) (resolves : tlb.lookup first access space = .ok physical) :
    SameOffset first physical ∧ ∃ other, tlb.lookup second access space = .ok other ∧
      SamePage physical other ∧ SameOffset second other := by
  unfold lookup at resolves ⊢
  rw [find?_page same]
  cases found : tlb.find? first space with
  | none => simp [found] at resolves
  | some index =>
      simp only [found, TlbEntry.halfOf_page _ same] at resolves ⊢
      split at resolves
      · cases resolves
      · split at resolves
        · cases resolves
        · rename_i valid writable
          cases resolves
          rw [if_neg valid, if_neg writable]
          exact ⟨TlbEntry.physical_offset _ _ _, _, rfl, TlbEntry.physical_page _ _ same,
            TlbEntry.physical_offset _ _ _⟩

private theorem fixed_offset (address : Word) : SameOffset address (address &&& 0x1fffffff) := by
  have ones : (0x1fffffff : Word) = (BitVec.allOnes 29).setWidth 32 := by decide
  intro index low
  rw [ones, BitVec.getLsbD_and, BitVec.getLsbD_setWidth, BitVec.getLsbD_allOnes]
  simp [show index < 29 by omega, show index < 32 by omega]

theorem resolve_page {first second : DoubleWord} (same : SamePage first second)
    (resolves : tlb.resolve control first access = .ok physical) :
    SameOffset first physical ∧ ∃ other, tlb.resolve control second access = .ok other ∧
      SamePage physical other ∧ SameOffset second other := by
  have widen {address : DoubleWord} {target : Word}
      (offset : SameOffset (address.setWidth 32 : Word) target) : SameOffset address target := by
    intro index low
    rw [offset index low, BitVec.getLsbD_setWidth]
    simp [show index < 32 by omega]
  unfold resolve at resolves ⊢
  dsimp only at resolves ⊢
  split at resolves
  · cases resolves
  · rename_i extended
    rw [if_neg (not_not_intro (same.signExtended (Classical.not_not.mp extended)))]
    have pages := same.low.toNat_eq
    have bottom : (0x80000000 : Word).toNat = 0x80000000 := rfl
    have top : (0xbfffffff : Word).toNat = 0xbfffffff := rfl
    split at resolves
    · rename_i segment
      cases resolves
      have inside : 0x80000000 ≤ (second.setWidth 32 : Word) ∧
          (second.setWidth 32 : Word) ≤ 0xbfffffff := by
        simp only [BitVec.le_def, bottom, top] at segment ⊢
        omega
      rw [if_pos inside]
      exact ⟨widen (fixed_offset _), _, rfl, same.low.and _, widen (fixed_offset _)⟩
    · rename_i mapped
      have outside : ¬(0x80000000 ≤ (second.setWidth 32 : Word) ∧
          (second.setWidth 32 : Word) ≤ 0xbfffffff) := by
        simp only [BitVec.le_def, bottom, top] at mapped ⊢
        omega
      rw [if_neg outside]
      obtain ⟨offset, other, found, page, rest⟩ := lookup_page same.low resolves
      exact ⟨widen offset, other, found, page, widen rest⟩

/-- The word behind a mapped one is mapped behind it, unless it starts another page. -/
theorem resolve_next {pc : DoubleWord} (aligned : pc.toNat % 4 = 0)
    (resolves : tlb.resolve control pc access = .ok physical)
    (inside : (physical + 4).toNat % 4096 ≠ 0) :
    tlb.resolve control (pc + 4) access = .ok (physical + 4) := by
  have offset := (resolve_page (fun _ _ => rfl : SamePage pc pc) resolves).1.toNat_eq
  have four : (4 : Word).toNat = 4 := rfl
  have wraps : (physical + 4).toNat % 4096 = (physical.toNat + 4) % 4096 := by
    rw [BitVec.toNat_add, four]
    omega
  have room : pc.toNat % 4096 + 4 < 4096 := by omega
  obtain ⟨sum, same⟩ := SamePage.add_four room
  obtain ⟨-, other, found, page, rest⟩ := resolve_page same resolves
  have pages := page.toNat_eq
  have offsets := rest.toNat_eq
  have is : other = physical + 4 := by
    apply BitVec.eq_of_toNat_eq
    have bound := physical.isLt
    rw [BitVec.toNat_add, four]
    omega
  rw [found, is]

end Tlb

end MipsRecompiler
