import MipsRecompiler.Proofs.CodeUnit.Formation

/-!
# Where the parts of a unit are

Branches, delay slots and block enders only stand at the end of a unit, and everything but a delay
slot that was pulled in is on the page that the unit starts on. A unit fits below the limit of the
loop that collects it, so the code behind the loop is never reached.
-/

set_option autoImplicit false

namespace MipsRecompiler

namespace CodeUnit

variable {β : Type} [Bus β] {tlb : Tlb} {control : SystemControl} {bus : β} {pc : DoubleWord}
  {physical : Word} {front rest : List UnitInstruction} {fault : Option Fault}
  {pulled : Option Nat} {index : Nat} {entry : UnitInstruction}

/-! ## The instructions of an outline -/

theorem StraightLine.at (line : StraightLine bus pc physical front)
    (found : front[index]? = some entry) :
    entry.Fetched bus (pc + BitVec.ofNat 64 (4 * index)) (physical + BitVec.ofNat 32 (4 * index))
        false ∧
      entry.category.isBranch = false ∧ entry.category ≠ .blockEnder := by
  induction line generalizing index with
  | nil => cases found
  | cons fetched plain inside _ _ ih =>
      cases index with
      | zero =>
          cases found
          simpa using ⟨fetched, plain, inside⟩
      | succ index =>
          rw [endPc_succ, endPc_succ]
          exact ih found

/-- Where an instruction stands in a unit: on the straight line, right behind it, or in the delay
slot of the instruction there. -/
inductive Located (bus : β) (pc : DoubleWord) (physical : Word)
    (front rest : List UnitInstruction) : Nat → UnitInstruction → Prop where
  | line {index : Nat} {entry : UnitInstruction} :
      index < front.length →
      entry.Fetched bus (pc + BitVec.ofNat 64 (4 * index))
        (physical + BitVec.ofNat 32 (4 * index)) false →
      entry.category.isBranch = false → entry.category ≠ .blockEnder →
      Located bus pc physical front rest index entry
  | turn {entry : UnitInstruction} :
      rest.head? = some entry →
      entry.Fetched bus (pc + BitVec.ofNat 64 (4 * front.length))
        (physical + BitVec.ofNat 32 (4 * front.length)) false →
      Located bus pc physical front rest front.length entry
  | slot {branch entry : UnitInstruction} :
      rest = [branch, entry] → branch.category.isBranch = true →
      entry.Fetched bus (pc + BitVec.ofNat 64 (4 * (front.length + 1))) entry.physical true →
      entry.category.isBranch = false →
      Located bus pc physical front rest (front.length + 1) entry

theorem Outline.located (outline : Outline tlb control bus pc physical front rest fault pulled)
    (found : (front ++ rest)[index]? = some entry) :
    Located bus pc physical front rest index entry := by
  rw [List.getElem?_append] at found
  split at found
  · rename_i before
    obtain ⟨fetched, plain, inside⟩ := outline.line.at found
    exact .line before fetched plain inside
  · rename_i beyond
    obtain ⟨offset, rfl⟩ := Nat.exists_eq_add_of_le (Nat.le_of_not_lt beyond)
    rw [Nat.add_sub_cancel_left] at found
    cases outline.ending with
    | plain fetched | missing fetched =>
        match offset with
        | 0 =>
            cases found
            exact .turn rfl fetched
        | offset + 1 => simp at found
    | slot fetched branch _ slotFetched plain =>
        match offset with
        | 0 =>
            cases found
            exact .turn rfl fetched
        | 1 =>
            cases found
            refine .slot rfl branch ?_ plain
            rw [endPc_add_four, slotFetched.physical]
            exact slotFetched
        | offset + 2 => simp at found

/-- A word that is on the page of another one does not wrap around. -/
theorem toNat_add_words (room : physical.toNat % pageSize + 4 * index < pageSize) :
    (physical + BitVec.ofNat 32 (4 * index)).toNat = physical.toNat + 4 * index := by
  have bound := physical.isLt
  rw [BitVec.toNat_add, BitVec.toNat_ofNat]
  simp only [pageSize] at room
  omega

theorem pageOf_add_words (room : physical.toNat % pageSize + 4 * index < pageSize) :
    pageOf (physical + BitVec.ofNat 32 (4 * index)) = pageOf physical := by
  rw [pageOf, pageOf, toNat_add_words room]
  simp only [pageSize] at *
  omega

section Outline

variable (outline : Outline tlb control bus pc physical front rest fault pulled)

include outline

theorem Outline.pc_eq (found : (front ++ rest)[index]? = some entry) :
    entry.pc = pc + BitVec.ofNat 64 (4 * index) := by
  cases outline.located found with
  | line _ fetched | turn _ fetched | slot _ _ fetched => exact fetched.pc

theorem Outline.word_eq (member : entry ∈ front ++ rest) :
    (Bus.fetch bus entry.physical).1 = entry.inst.word ∧
      entry.inst.classify entry.pc = .ok (entry.form, entry.operation, entry.category) := by
  obtain ⟨index, found⟩ := List.mem_iff_getElem?.mp member
  cases outline.located found with
  | line _ fetched | turn _ fetched | slot _ _ fetched => exact ⟨fetched.word, fetched.classify⟩

theorem Outline.physical_eq (aligned : physical.toNat % 4 = 0)
    (found : (front ++ rest)[index]? = some entry) :
    (entry.physical = physical + BitVec.ofNat 32 (4 * index) ∧
      pageOf entry.physical = pageOf physical) ∨
    (index + 1 = (front ++ rest).length ∧ entry.delaySlot = true ∧
      pulled = some (pageOf entry.physical)) := by
  have room := outline.line.room aligned
  cases outline.located found with
  | line before fetched =>
      left
      rw [fetched.physical]
      exact ⟨rfl, pageOf_add_words (by omega)⟩
  | turn _ fetched =>
      left
      rw [fetched.physical]
      exact ⟨rfl, pageOf_add_words room⟩
  | slot is _ slotFetched =>
      subst is
      cases outline.ending with
      | @slot target _ _ _ _ found fetched _ =>
          rw [fetched.physical]
          by_cases pageEnd :
              (physical + BitVec.ofNat 32 (4 * front.length) + 4).toNat % pageSize = 0
          · right
            rw [if_pos pageEnd]
            simp [slotFetched.delaySlot]
          · left
            rw [behind, if_pos pageEnd, Except.ok.injEq] at found
            rw [← found, ← endPc_add_four]
            refine ⟨rfl, pageOf_add_words ?_⟩
            rw [← endPc_add_four, BitVec.toNat_add, BitVec.toNat_ofNat] at pageEnd
            simp only [pageSize] at *
            omega

theorem Outline.slot_last (found : (front ++ rest)[index]? = some entry)
    (slot : entry.delaySlot = true) : index + 1 = (front ++ rest).length ∧ 0 < index := by
  cases outline.located found with
  | line _ fetched | turn _ fetched =>
      rw [fetched.delaySlot] at slot
      cases slot
  | slot is => simp [is]

theorem Outline.slot_iff {before : UnitInstruction}
    (foundBefore : (front ++ rest)[index]? = some before)
    (found : (front ++ rest)[index + 1]? = some entry) :
    entry.delaySlot = true ↔ before.category.isBranch = true := by
  have place := outline.located found
  generalize next : index + 1 = following at place
  cases outline.located foundBefore with
  | line inLine _ plain =>
      rw [plain]
      cases place with
      | line _ fetched | turn _ fetched => simp [fetched.delaySlot]
      | slot => omega
  | turn is =>
      cases place with
      | line => omega
      | turn => omega
      | slot both branch fetched =>
          subst both
          cases is
          simp [fetched.delaySlot, branch]
  | slot =>
      cases place <;> omega

theorem Outline.branch_last (found : (front ++ rest)[index]? = some entry)
    (branch : entry.category.isBranch = true) :
    (index + 2 = (front ++ rest).length ∧ fault = none) ∨
    (index + 1 = (front ++ rest).length ∧ ∃ reason, fault = some reason) := by
  cases outline.located found with
  | line _ _ plain => simp [plain] at branch
  | slot _ _ _ plain => simp [plain] at branch
  | turn is =>
      cases outline.ending with
      | plain _ plain =>
          cases is
          simp [plain] at branch
      | slot => simp
      | missing => simp

theorem Outline.blockEnder_last (found : (front ++ rest)[index]? = some entry)
    (ender : entry.category = .blockEnder) : index + 1 = (front ++ rest).length := by
  cases outline.located found with
  | line _ _ _ inside => exact absurd ender inside
  | slot is => simp [is]
  | turn is =>
      cases outline.ending with
      | plain | missing => simp
      | slot _ branch =>
          cases is
          rw [ender] at branch
          cases branch

theorem Outline.last_at_page_end (found : (front ++ rest)[index]? = some entry)
    (last : index + 1 = (front ++ rest).length) (plain : entry.category.isBranch = false)
    (outside : entry.delaySlot = false) (inside : entry.category ≠ .blockEnder) :
    (entry.physical + 4).toNat % pageSize = 0 := by
  cases outline.located found with
  | line before =>
      have nonempty := outline.ending.length_le
      rw [List.length_append] at last
      omega
  | slot _ _ fetched =>
      rw [fetched.delaySlot] at outside
      cases outside
  | turn is fetched =>
      cases outline.ending with
      | plain _ _ ends =>
          cases is
          rw [fetched.physical]
          exact ends.resolve_left inside
      | slot => simp at last
      | missing _ branch =>
          cases is
          simp [branch] at plain

theorem Outline.pulled_iff (page : Nat) : pulled = some page ↔
    ∃ index branch slot, (front ++ rest)[index]? = some branch ∧
      (front ++ rest)[index + 1]? = some slot ∧ slot.delaySlot = true ∧
      (branch.physical + 4).toNat % pageSize = 0 ∧
      tlb.resolve control slot.pc .fetch = .ok slot.physical ∧ page = pageOf slot.physical := by
  constructor
  · rintro rfl
    generalize is : some page = pulled at outline
    cases outline.ending with
    | plain | missing => cases is
    | @slot target branch slot fetched _ found slotFetched =>
        split at is
        · rename_i pageEnd
          cases is
          rw [behind, if_neg (fun inside => inside pageEnd)] at found
          refine ⟨front.length, branch, slot, by simp, by simp, slotFetched.delaySlot, ?_, ?_, ?_⟩
          · rw [fetched.physical]
            exact pageEnd
          · rw [slotFetched.pc, slotFetched.physical]
            exact found
          · rw [slotFetched.physical]
        · cases is
  · rintro ⟨index, branch, slot, foundBranch, foundSlot, inSlot, pageEnd, resolves, rfl⟩
    have place := outline.located foundSlot
    generalize next : index + 1 = following at place
    cases place with
    | line _ fetched | turn _ fetched =>
        rw [fetched.delaySlot] at inSlot
        cases inSlot
    | slot both =>
        subst both
        cases Nat.succ.inj next
        obtain rfl : _ = branch := by simpa using foundBranch
        cases outline.ending with
        | slot fetched _ found slotFetched =>
            rw [fetched.physical] at pageEnd
            rw [if_pos pageEnd, slotFetched.physical]

theorem Outline.fault_iff (reason : Fault) : fault = some reason ↔
    ∃ index branch, (front ++ rest)[index]? = some branch ∧
      index + 1 = (front ++ rest).length ∧ branch.category.isBranch = true ∧
      (branch.physical + 4).toNat % pageSize = 0 ∧
      tlb.resolve control (branch.pc + 4) .fetch = .error reason := by
  constructor
  · rintro rfl
    generalize is : some reason = fault at outline
    cases outline.ending with
    | plain | slot => cases is
    | @missing branch _ fetched isBranch found =>
        cases is
        refine ⟨front.length, branch, by simp, by simp, isBranch, ?_⟩
        rw [fetched.physical, fetched.pc]
        unfold behind at found
        split at found
        · cases found
        · rename_i pageEnd
          exact ⟨Decidable.not_not.mp pageEnd, found⟩
  · rintro ⟨index, branch, found, last, isBranch, pageEnd, missing⟩
    cases outline.located found with
    | line _ _ plain => simp [plain] at isBranch
    | slot _ _ _ plain => simp [plain] at isBranch
    | turn is =>
        cases outline.ending with
        | plain _ plain =>
            cases is
            simp [plain] at isBranch
        | slot => simp at last
        | missing fetched _ behindBranch =>
            cases is
            rw [fetched.physical] at pageEnd
            rw [fetched.pc] at missing
            rw [behind, if_neg (fun inside => inside pageEnd), missing] at behindBranch
            cases behindBranch
            rfl

end Outline

structure Shape (tlb : Tlb) (control : SystemControl) (bus : β) (startPc : DoubleWord)
    (startPhysical : Word) (codeUnit : CodeUnit) : Prop where
  length : 1 ≤ codeUnit.length ∧ codeUnit.length ≤ 1025
  pc : ∀ {index entry}, codeUnit.instructions[index]? = some entry →
    entry.pc = startPc + BitVec.ofNat 64 (4 * index)
  /-- Only a delay slot that was pulled in is somewhere else. -/
  physical : ∀ {index entry}, codeUnit.instructions[index]? = some entry →
    (entry.physical = startPhysical + BitVec.ofNat 32 (4 * index) ∧
      pageOf entry.physical = pageOf startPhysical) ∨
    (index + 1 = codeUnit.length ∧ entry.delaySlot = true ∧
      codeUnit.pulledPage = some (pageOf entry.physical))
  /-- What an instruction says is what the word in memory means. -/
  word : ∀ entry ∈ codeUnit.instructions, (Bus.fetch bus entry.physical).1 = entry.inst.word ∧
    entry.inst.classify entry.pc = .ok (entry.form, entry.operation, entry.category)
  slotLast : ∀ {index entry}, codeUnit.instructions[index]? = some entry →
    entry.delaySlot = true → index + 1 = codeUnit.length ∧ 0 < index
  slotBehindBranch : ∀ {index before entry}, codeUnit.instructions[index]? = some before →
    codeUnit.instructions[index + 1]? = some entry →
    (entry.delaySlot = true ↔ before.category.isBranch = true)
  branch : ∀ {index entry}, codeUnit.instructions[index]? = some entry →
    entry.category.isBranch = true →
    (index + 2 = codeUnit.length ∧ codeUnit.delaySlotFault = none) ∨
    (index + 1 = codeUnit.length ∧ ∃ fault, codeUnit.delaySlotFault = some fault)
  blockEnder : ∀ {index entry}, codeUnit.instructions[index]? = some entry →
    entry.category = .blockEnder → index + 1 = codeUnit.length
  pageEnd : ∀ {index entry}, codeUnit.instructions[index]? = some entry →
    index + 1 = codeUnit.length → entry.category.isBranch = false → entry.delaySlot = false →
    entry.category ≠ .blockEnder → (entry.physical + 4).toNat % pageSize = 0
  sourceWords : codeUnit.sourceWords = codeUnit.instructions.map UnitInstruction.physical
  /-- The delay slot is pulled in exactly when its branch is the last word of the page. -/
  pulledPage : ∀ page, codeUnit.pulledPage = some page ↔
    ∃ index branch slot, codeUnit.instructions[index]? = some branch ∧
      codeUnit.instructions[index + 1]? = some slot ∧ slot.delaySlot = true ∧
      (branch.physical + 4).toNat % pageSize = 0 ∧
      tlb.resolve control slot.pc .fetch = .ok slot.physical ∧ page = pageOf slot.physical
  delaySlotFault : ∀ fault, codeUnit.delaySlotFault = some fault ↔
    ∃ index branch, codeUnit.instructions[index]? = some branch ∧
      index + 1 = codeUnit.length ∧ branch.category.isBranch = true ∧
      (branch.physical + 4).toNat % pageSize = 0 ∧
      tlb.resolve control (branch.pc + 4) .fetch = .error fault

theorem Outline.shape {codeUnit : CodeUnit} (aligned : physical.toNat % 4 = 0)
    (instructions : codeUnit.instructions = front ++ rest)
    (words : codeUnit.sourceWords = codeUnit.instructions.map UnitInstruction.physical)
    (outline : Outline tlb control bus pc physical front rest codeUnit.delaySlotFault
      codeUnit.pulledPage) : codeUnit.Shape tlb control bus pc physical := by
  have nonempty := outline.ending.length_le
  have fits := outline.length_le aligned
  obtain ⟨startPc, startPhysical, _, fault, _, pulled⟩ := codeUnit
  cases instructions
  constructor
  case length =>
    refine ⟨?_, fits⟩
    show 1 ≤ (front ++ rest).length
    rw [List.length_append]
    omega
  case pc => exact outline.pc_eq
  case physical => exact outline.physical_eq aligned
  case word => exact fun entry => outline.word_eq
  case slotLast => exact outline.slot_last
  case slotBehindBranch => exact outline.slot_iff
  case branch => exact outline.branch_last
  case blockEnder => exact outline.blockEnder_last
  case pageEnd => exact outline.last_at_page_end
  case sourceWords => exact words
  case pulledPage => exact outline.pulled_iff
  case delaySlotFault => exact outline.fault_iff

/-! ## A branch in the delay slot of another one -/

theorem StraightLine.collects [QuietBus β] (tlb : Tlb) (control : SystemControl)
    (collected : Collected) (line : StraightLine bus pc physical front)
    (atPc : collected.pc = pc) (atPhysical : collected.physical = physical)
    (outside : collected.inDelaySlot = false) :
    ∃ next : Collected, next.pc = pc + BitVec.ofNat 64 (4 * front.length) ∧
      next.physical = physical + BitVec.ofNat 32 (4 * front.length) ∧
      next.inDelaySlot = false ∧
      ∀ atLimit done remaining,
        collectOr atLimit tlb control done (remaining + front.length) collected bus =
          collectOr atLimit tlb control done remaining next bus := by
  induction line generalizing collected with
  | nil =>
      exact ⟨collected, by simpa using atPc, by simpa using atPhysical, outside, fun _ _ _ => rfl⟩
  | cons fetched plain inside samePage _ ih =>
      subst atPc atPhysical
      rw [← outside] at fetched
      obtain ⟨next, nextPc, nextPhysical, nextOutside, goesOn⟩ :=
        ih (collected.push _) rfl rfl plain
      refine ⟨next, ?_, ?_, nextOutside, fun atLimit done remaining => ?_⟩
      · rw [nextPc, List.length_cons, endPc_succ]
      · rw [nextPhysical, List.length_cons, endPc_succ]
      · rw [List.length_cons, ← Nat.add_assoc,
          collectOr_continues fetched (Collected.turn_samePage outside inside samePage), goesOn]

/-- Forming fails at a branch in the delay slot of the branch behind a straight line. -/
theorem form_branch_branch [QuietBus β] {branch slot : UnitInstruction} {target : Word}
    (aligned : physical.toNat % 4 = 0) (line : StraightLine bus pc physical front)
    (fetched : branch.Fetched bus (pc + BitVec.ofNat 64 (4 * front.length))
      (physical + BitVec.ofNat 32 (4 * front.length)) false)
    (isBranch : branch.category.isBranch = true)
    (found : behind tlb control branch.pc branch.physical = .ok target)
    (slotFetched : slot.Fetched bus (branch.pc + 4) target true)
    (slotBranch : slot.category.isBranch = true) :
    form tlb control pc physical bus = .error (.branchInDelaySlot slot.pc) bus := by
  have room := line.room aligned
  obtain ⟨remaining, enough⟩ : ∃ remaining, maxLength = remaining + 2 + front.length := by
    refine ⟨maxLength - 2 - front.length, ?_⟩
    simp only [pageSize, maxLength] at *
    omega
  obtain ⟨next, nextPc, nextPhysical, outside, goesOn⟩ :=
    line.collects tlb control (.start pc physical) rfl rfl rfl
  rw [← nextPc, ← nextPhysical, ← outside] at fetched
  rw [fetched.pc, fetched.physical] at found
  rw [fetched.pc] at slotFetched
  have continues : next.turn tlb control branch =
      .ok (.continues (next.pushBranch branch target)) := by
    rw [Collected.turn_branch outside isBranch, found]
  have fails : (next.pushBranch branch target).turn tlb control slot =
      .error (.branchInDelaySlot slot.pc) := by
    rw [Collected.turn_slot isBranch, if_pos slotBranch, slotFetched.pc]
    rfl
  rw [form_eq, enough, goesOn, collectOr_continues fetched continues]
  refine collectOr_fails ?_ fails
  show slot.Fetched bus (next.pc + 4) target branch.category.isBranch
  rw [isBranch]
  exact slotFetched

/-! ## Every unit -/

/-- Every unit has the right shape, the code behind the loop that collects it is never reached, and
a branch in the delay slot of another one is an error that names it. -/
theorem form_shape [QuietBus β] (tlb : Tlb) (control : SystemControl) (bus : β)
    (startPc : DoubleWord) (startPhysical : Word) (aligned : startPhysical.toNat % 4 = 0) :
    (∀ codeUnit after, form tlb control startPc startPhysical bus = .ok codeUnit after →
      codeUnit.Shape tlb control bus startPc startPhysical) ∧
    (∀ atLimit : Collected → EStateM CompileError β CodeUnit,
      form tlb control startPc startPhysical bus =
        collectOr atLimit tlb control (finish startPc startPhysical) maxLength
          (.start startPc startPhysical) bus) ∧
    ∀ (front : List UnitInstruction) (branch slot : UnitInstruction) (target : Word),
      StraightLine bus startPc startPhysical front →
      branch.Fetched bus (startPc + BitVec.ofNat 64 (4 * front.length))
        (startPhysical + BitVec.ofNat 32 (4 * front.length)) false →
      branch.category.isBranch = true →
      behind tlb control branch.pc branch.physical = .ok target →
      slot.Fetched bus (branch.pc + 4) target true →
      slot.category.isBranch = true →
      form tlb control startPc startPhysical bus = .error (.branchInDelaySlot slot.pc) bus := by
  refine ⟨?shape, ?limit, ?double⟩
  case shape =>
    intro codeUnit after forms
    obtain ⟨front, rest, instructions, outline⟩ := form_outline aligned forms
    exact outline.shape aligned instructions (form_sourceWords forms)
  case limit =>
    intro atLimit
    obtain ⟨result, settles, -⟩ := form_settles tlb control bus startPc startPhysical aligned
    rw [form_eq, settles, settles]
  case double =>
    intro front branch slot target line fetched isBranch found slotFetched slotBranch
    exact form_branch_branch aligned line fetched isBranch found slotFetched slotBranch

def branchingMemory : Ram :=
  ((Ram.ofSize 64).write 0 .word 0x10000001).write 4 .word 0x10000001

theorem branchingMemory_shape :
    QuietBus Ram ∧ (4 : Word).toNat % 4 = 0 ∧
    (∃ codeUnit after,
      form .reset .reset 0xffffffff80000004 4 branchingMemory = .ok codeUnit after ∧
      codeUnit.length = 2 ∧ codeUnit.Shape .reset .reset branchingMemory 0xffffffff80000004 4) ∧
    form .reset .reset 0xffffffff80000000 0 branchingMemory =
      .error (.branchInDelaySlot 0xffffffff80000004) branchingMemory := by
  refine ⟨inferInstance, by decide, ?_, ?_⟩
  · have computes : (match form .reset .reset 0xffffffff80000004 4 branchingMemory with
        | .ok codeUnit _ => decide (codeUnit.length = 2)
        | .error _ _ => false) = true := by
      decide +kernel
    cases forms : form .reset .reset 0xffffffff80000004 4 branchingMemory with
    | error reason after =>
        rw [forms] at computes
        cases computes
    | ok codeUnit after =>
        rw [forms] at computes
        have shape := (form_shape .reset .reset branchingMemory 0xffffffff80000004 4
          (by decide)).1 codeUnit after forms
        exact ⟨codeUnit, after, rfl, of_decide_eq_true computes, shape⟩
  · refine (form_shape .reset .reset branchingMemory 0xffffffff80000000 0 (by decide)).2.2 []
      ⟨0xffffffff80000000, 0, ⟨0x10000001⟩, .branchTwo, .branch .eq, .branch, false⟩
      ⟨0xffffffff80000004, 4, ⟨0x10000001⟩, .branchTwo, .branch .eq, .branch, true⟩
      4 .nil ?_ rfl rfl ?_ rfl
    · exact ⟨by decide +kernel, rfl, rfl, rfl, rfl, rfl⟩
    · exact ⟨by decide +kernel, rfl, rfl, rfl, rfl, rfl⟩

end CodeUnit

end MipsRecompiler
