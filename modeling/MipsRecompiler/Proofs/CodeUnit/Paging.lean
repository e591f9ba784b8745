import MipsRecompiler.Proofs.CodeUnit.Fetching
import MipsRecompiler.Proofs.CodeUnit.Shape

/-!
# Pages as a whole

A translation does not depend on where an address is on its page, whatever the table holds. So a
unit is where it was as soon as its first word is, but for a delay slot from another page, and a
page of virtual addresses ends where one of physical addresses does.
-/

set_option autoImplicit false

namespace MipsRecompiler

theorem SamePage.symm {width : Nat} {first second : BitVec width} (same : SamePage first second) :
    SamePage second first :=
  fun index above => (same index above).symm

theorem SamePage.eq {width : Nat} {first second : BitVec width} (same : SamePage first second)
    (offset : SameOffset first second) : second = first := by
  apply BitVec.eq_of_getLsbD_eq
  intro index _
  by_cases low : index < 12
  · exact offset index low
  · exact same index (Nat.le_of_not_lt low)

namespace Tlb

variable {tlb : Tlb} {control : SystemControl} {access : AccessKind}

/-- What two addresses of one page are translated to: two addresses of one page, at the same
places, or faults of the same kind. -/
inductive Uniform (first second : DoubleWord) : Except Fault Word → Except Fault Word → Prop where
  | mapped {one other : Word} : SamePage one other → SameOffset first one →
      SameOffset second other → Uniform first second (.ok one) (.ok other)
  | faults {fault other : Fault} : other.code = fault.code → other.refill = fault.refill →
      Uniform first second (.error fault) (.error other)

/-- How an address faults that the table does not map depends on its page. -/
theorem lookup_error_page {first second : Word} {space : BitVec 8} {fault other : Fault}
    (same : SamePage first second) (fails : tlb.lookup first access space = .error fault)
    (failsToo : tlb.lookup second access space = .error other) :
    other.code = fault.code ∧ other.refill = fault.refill := by
  unfold lookup at fails failsToo
  rw [find?_page same] at failsToo
  cases found : tlb.find? first space with
  | none =>
      rw [found] at fails failsToo
      cases fails
      cases failsToo
      exact ⟨rfl, rfl⟩
  | some index =>
      simp only [found, TlbEntry.halfOf_page _ same] at fails failsToo
      generalize tlb.entries[index].halfOf first = half at fails failsToo
      cases valid : half.getLsbD 1 with
      | false =>
          simp only [valid, Bool.not_false, if_true] at fails failsToo
          cases fails
          cases failsToo
          exact ⟨rfl, rfl⟩
      | true =>
          cases refused : access == .store && !half.getLsbD 2 with
          | true =>
              simp only [valid, refused, Bool.not_true, Bool.false_eq_true, if_false,
                if_true] at fails failsToo
              cases fails
              cases failsToo
              exact ⟨rfl, rfl⟩
          | false =>
              simp only [valid, refused, Bool.not_true, Bool.false_eq_true, if_false] at fails
              cases fails

theorem resolve_error_page {first second : DoubleWord} {fault other : Fault}
    (same : SamePage first second) (fails : tlb.resolve control first access = .error fault)
    (failsToo : tlb.resolve control second access = .error other) :
    other.code = fault.code ∧ other.refill = fault.refill := by
  have extended : first ≠ (first.setWidth 32 : Word).signExtend 64 ↔
      second ≠ (second.setWidth 32 : Word).signExtend 64 :=
    not_congr ⟨same.signExtended, same.symm.signExtended⟩
  unfold resolve at fails failsToo
  dsimp only at fails failsToo
  split at fails
  · rename_i outside
    rw [if_pos (extended.mp outside)] at failsToo
    cases fails
    cases failsToo
    exact ⟨rfl, rfl⟩
  · rename_i inside
    rw [if_neg fun outside => inside (extended.mpr outside)] at failsToo
    split at fails
    · cases fails
    · split at failsToo
      · cases failsToo
      · exact lookup_error_page same.low fails failsToo

theorem resolve_uniform (tlb : Tlb) (control : SystemControl) (access : AccessKind)
    {first second : DoubleWord} (same : SamePage first second) :
    Uniform first second (tlb.resolve control first access)
      (tlb.resolve control second access) := by
  cases one : tlb.resolve control first access with
  | ok physical =>
      obtain ⟨offset, other, found, page, rest⟩ := resolve_page same one
      rw [found]
      exact .mapped page offset rest
  | error fault =>
      cases two : tlb.resolve control second access with
      | ok physical =>
          obtain ⟨-, other, found, -⟩ := resolve_page same.symm two
          cases one.symm.trans found
      | error other =>
          obtain ⟨code, refill⟩ := resolve_error_page same one two
          exact .faults code refill

end Tlb

namespace CodeUnit

variable {β : Type} [Bus β] {formed : Tlb} {control : SystemControl} {startPc : DoubleWord}
  {startPhysical : Word} {bus after : β} {codeUnit : CodeUnit} {entry : UnitInstruction}

/-- An address that is mapped ends its page where the physical address does. -/
theorem page_end_iff {address : DoubleWord} {physical : Word}
    (offset : SameOffset address physical) :
    (physical + 4).toNat % pageSize = 0 ↔ (address + 4).toNat % pageSize = 0 := by
  have places := offset.toNat_eq
  have word : (4 : Word).toNat = 4 := rfl
  have double : (4 : DoubleWord).toNat = 4 := rfl
  rw [BitVec.toNat_add, BitVec.toNat_add, word, double]
  simp only [pageSize]
  omega

theorem Mapped.follows {tlb : Tlb} {current : SystemControl}
    (mapped : codeUnit.Mapped formed control)
    (started : formed.resolve control startPc .fetch = .ok startPhysical)
    (starts : tlb.resolve current startPc .fetch = .ok startPhysical)
    (member : entry ∈ codeUnit.instructions) (same : SamePage startPc entry.pc) :
    tlb.translate current entry.pc .fetch .word = .ok entry.physical := by
  have place := mapped.places entry member
  have entryAligned := Tlb.aligned_of_translate place
  rw [Tlb.translate_word _ _ entryAligned] at place ⊢
  obtain ⟨-, old, wasFound, oldPage, oldOffset⟩ := Tlb.resolve_page same started
  obtain ⟨-, new, isFound, newPage, newOffset⟩ := Tlb.resolve_page same starts
  cases place.symm.trans wasFound
  have unmoved : new = entry.physical := by
    apply SamePage.eq
    · exact fun index above => (newPage index above).trans (oldPage index above).symm
    · exact fun index low => (newOffset index low).trans (oldOffset index low).symm
  rw [isFound, unmoved]

/-- Only a delay slot that was pulled in is on another page than the first word. -/
theorem Shape.pages (shape : codeUnit.Shape formed control bus startPc startPhysical)
    (offset : SameOffset startPc startPhysical) (member : entry ∈ codeUnit.instructions) :
    SamePage startPc entry.pc ∨
      entry.delaySlot = true ∧ codeUnit.pulledPage = some (pageOf entry.physical) := by
  obtain ⟨index, found⟩ := List.mem_iff_getElem?.mp member
  rcases shape.physical found with ⟨physical, page⟩ | ⟨-, slot, pulled⟩
  · have places := offset.toNat_eq
    have few : index < codeUnit.length := (List.getElem?_eq_some_iff.mp found).1
    have limit := shape.length.2
    have bound := startPhysical.isLt
    have sum : entry.physical.toNat = (startPhysical.toNat + 4 * index) % 2 ^ 32 := by
      rw [physical, BitVec.toNat_add, BitVec.toNat_ofNat, Nat.add_mod_mod]
    have pcSum : entry.pc.toNat = (startPc.toNat + 4 * index) % 2 ^ 64 := by
      rw [shape.pc found, BitVec.toNat_add, BitVec.toNat_ofNat, Nat.add_mod_mod]
    simp only [pageOf, pageSize] at page
    have room : startPhysical.toNat % 4096 + 4 * index < 4096 := by omega
    refine .inl (SamePage.of_toNat ?_)
    have pcBound := startPc.isLt
    omega
  · exact .inr ⟨slot, pulled⟩

/-- A unit that can be looked up by its first word alone. -/
structure Pagewise (codeUnit : CodeUnit) (tlb : Tlb) (control : SystemControl) : Prop where
  /-- What is on the page of the first word is where it was when the unit was formed. -/
  vouched : ∀ entry ∈ codeUnit.instructions, SamePage codeUnit.startPc entry.pc →
    tlb.translate control entry.pc .fetch .word = .ok entry.physical
  /-- Nothing else is on another page. -/
  together : ∀ entry ∈ codeUnit.instructions, SamePage codeUnit.startPc entry.pc ∨
    entry.delaySlot = true ∧ codeUnit.pulledPage = some (pageOf entry.physical)
  pageEnds : ∀ entry ∈ codeUnit.instructions,
    ((entry.physical + 4).toNat % pageSize = 0 ↔ (entry.pc + 4).toNat % pageSize = 0)

/-- A unit may be looked up by its first word, whatever else became of the table since it was
formed. -/
theorem form_pagewise [QuietBus β] {tlb : Tlb} {current : SystemControl}
    (forms : form formed control startPc startPhysical bus = .ok codeUnit after)
    (started : formed.translate control startPc .fetch .word = .ok startPhysical)
    (starts : tlb.translate current startPc .fetch .word = .ok startPhysical) :
    codeUnit.Pagewise tlb current := by
  obtain ⟨-, -, -, mapped, -⟩ := form_formed started forms
  have words := form_sourceWords forms
  obtain ⟨-, rfl, rfl⟩ := form_ok forms
  have aligned := Tlb.aligned_of_translate started
  rw [Tlb.translate_word _ _ aligned] at started starts
  have offset : SameOffset codeUnit.startPc codeUnit.startPhysical :=
    (Tlb.resolve_page (fun _ _ => rfl : SamePage codeUnit.startPc _) started).1
  have places := offset.toNat_eq
  obtain ⟨front, rest, instructions, outline⟩ := form_outline (by omega) forms
  have shape := outline.shape (by omega) instructions words
  constructor
  case vouched => exact fun entry member => mapped.follows started starts member
  case together => exact fun entry member => shape.pages offset member
  case pageEnds =>
    intro entry member
    have place := mapped.places entry member
    rw [Tlb.translate_word _ _ (Tlb.aligned_of_translate place)] at place
    exact page_end_iff (Tlb.resolve_page (fun _ _ => rfl : SamePage entry.pc _) place).1

end CodeUnit

/-- Translation is uniform within every page of 4096 bytes: addresses of one page are mapped to
addresses of one page or fault alike. So the translation of a unit's first word tells where all of
its words on that page are, and its page ends in both kinds of address at once. -/
theorem Tlb.resolve_pagewise {β : Type} [Bus β] [QuietBus β] (tlb : Tlb)
    (control : SystemControl) :
    (∀ (access : AccessKind) (first second : DoubleWord), SamePage first second →
      Uniform first second (tlb.resolve control first access)
        (tlb.resolve control second access)) ∧
    ∀ (formed : Tlb) (earlier : SystemControl) (startPc : DoubleWord) (startPhysical : Word)
      (bus after : β) (codeUnit : CodeUnit),
      CodeUnit.form formed earlier startPc startPhysical bus = .ok codeUnit after →
      formed.translate earlier startPc .fetch .word = .ok startPhysical →
      tlb.translate control startPc .fetch .word = .ok startPhysical →
      codeUnit.Pagewise tlb control := by
  constructor
  · intro access first second same
    exact resolve_uniform tlb control access same
  · intro formed earlier startPc startPhysical bus after codeUnit forms started starts
    exact CodeUnit.form_pagewise forms started starts

/-- System control registers that describe an entry for the first page of a guest. -/
def describing (mask half : DoubleWord) : SystemControl :=
  ((SystemControl.reset.set SystemControl.pageMask mask).set SystemControl.entryHi 0x400000).set
    SystemControl.entryLo0 half

/-- A table whose entry has a mask with a gap in it. -/
def gappedTable : Tlb :=
  Tlb.reset.writeIndexed (describing 0xa000 0x47)

def plainTable : Tlb :=
  Tlb.reset.writeIndexed (describing 0 7)

def addingMemory : Ram :=
  ((Ram.ofSize 64).write 0 .word 0x24080001).write 4 .word 0x0000000c

theorem gappedTable_pagewise :
    QuietBus Ram ∧ SamePage (0x400004 : DoubleWord) 0x400ffc ∧
    Tlb.Uniform 0x400004 0x400ffc (gappedTable.resolve .reset 0x400004 .load)
      (gappedTable.resolve .reset 0x400ffc .load) ∧
    gappedTable.translate .reset 0x400000 .fetch .word = .ok 0 ∧
    plainTable.translate .reset 0x400000 .fetch .word = .ok 0 ∧
    ∃ codeUnit after,
      CodeUnit.form gappedTable .reset 0x400000 0 addingMemory = .ok codeUnit after ∧
      codeUnit.length = 2 ∧ codeUnit.Pagewise plainTable .reset := by
  have same : SamePage (0x400004 : DoubleWord) 0x400ffc := SamePage.of_toNat (by decide)
  have started : gappedTable.translate .reset 0x400000 .fetch .word = .ok 0 := by rfl
  have starts : plainTable.translate .reset 0x400000 .fetch .word = .ok 0 := by rfl
  have computes : (match CodeUnit.form gappedTable .reset 0x400000 0 addingMemory with
      | .ok codeUnit _ => decide (codeUnit.length = 2)
      | .error _ _ => false) = true := by
    decide +kernel
  refine ⟨inferInstance, same,
    (Tlb.resolve_pagewise (β := Ram) gappedTable .reset).1 .load _ _ same, started, starts, ?_⟩
  cases forms : CodeUnit.form gappedTable .reset 0x400000 0 addingMemory with
  | error reason after =>
      rw [forms] at computes
      cases computes
  | ok codeUnit after =>
      rw [forms] at computes
      exact ⟨codeUnit, after, rfl, of_decide_eq_true computes,
        (Tlb.resolve_pagewise plainTable .reset).2 _ _ _ _ _ _ _ forms started starts⟩

end MipsRecompiler
