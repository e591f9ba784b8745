import MipsRecompiler.Proofs.Allocation.Spilling
import MipsRecompiler.Proofs.Compilation
import MipsRecompiler.Proofs.Emission.Keeping

/-!
# Room for every unit

The values of a unit always find a place. Seven slots for each instruction are more than its values
can need, and a unit with as many instructions as fit still leaves slots over.
-/

set_option autoImplicit false

namespace MipsRecompiler.CodeUnit

variable {β : Type} [Bus β] {tlb : Tlb} {control : SystemControl} {startPc : DoubleWord}
  {startPhysical : Word} {bus after : β} {codeUnit : CodeUnit} {configuration : Configuration}
  {block : Ir.Block}

private theorem allocates {kept : List Ir.ValueId} (brief : block.Brief kept)
    (few : kept.length ≤ 65 + 7 * codeUnit.length) (limit : codeUnit.length ≤ maxLength)
    (kind : PlatformKind) :
    ∃ allocation, Allocation.ofBlock block kind.platform = .ok allocation ∧
      allocation.spillSlots ≤ 65 + 7 * codeUnit.length := by
  have room : kept.length ≤ Allocation.maxSpillSlots := by
    simp only [maxLength, Allocation.maxSpillSlots] at *
    omega
  obtain ⟨allocation, allocated, slots⟩ := Allocation.ofBlock_brief
    (Allocation.distinct_platform kind).nodup (Allocation.wide_platform kind) brief room
  exact ⟨allocation, allocated, Nat.le_trans slots few⟩

/-- Whatever unit is formed, its block can be allocated on every platform, before it is optimized
and behind that. It needs seven spill slots for each instruction at most, and one for each guest
register and a delay slot fault, which is less than there are. -/
theorem form_allocates (forms : form tlb control startPc startPhysical bus = .ok codeUnit after)
    (emits : codeUnit.emit configuration = .ok block) (kind : PlatformKind) :
    (∀ built ∈ [block, block.optimize.2],
      (∀ slots, Allocation.ofBlock built kind.platform ≠ .error (.spillExhausted slots)) ∧
      ∃ allocation, Allocation.ofBlock built kind.platform = .ok allocation ∧
        allocation.spillSlots ≤ 65 + 7 * codeUnit.length) ∧
      65 + 7 * codeUnit.length < Allocation.maxSpillSlots := by
  have limit := form_length_le forms
  obtain ⟨kept, brief, few⟩ := emit_brief emits
  obtain ⟨-, reduces⟩ := Ir.Block.optimize_improves
    (form_wellFormed forms emits).lowerable.ordered
  have never {built : Ir.Block} (brief : built.Brief kept) :
      (∀ slots, Allocation.ofBlock built kind.platform ≠ .error (.spillExhausted slots)) ∧
      ∃ allocation, Allocation.ofBlock built kind.platform = .ok allocation ∧
        allocation.spillSlots ≤ 65 + 7 * codeUnit.length := by
    obtain ⟨allocation, allocated, slots⟩ := allocates brief few limit kind
    refine ⟨fun count fails => ?_, allocation, allocated, slots⟩
    cases allocated.symm.trans fails
  refine ⟨List.forall_mem_cons.mpr ⟨never brief, List.forall_mem_singleton.mpr
    (never (reduces.brief brief))⟩, ?_⟩
  simp only [maxLength, Allocation.maxSpillSlots] at *
  omega

/-- A sum of odd single registers, which takes many values where registers are paired, and a system
call. -/
def pairedMemory : Ram :=
  ((Ram.ofSize 256).write 0 .word 0x46051840).write 4 .word 0x0000000c

/-- Whether a unit is formed from the memory, and its block with paired registers is emitted. -/
private def pairedEmits : Bool :=
  match form .reset .reset 0xffffffff80000000 0 pairedMemory with
  | .error _ _ => false
  | .ok codeUnit _ => (codeUnit.emit ⟨false⟩).toBool

theorem pairedMemory_allocates :
    ∃ codeUnit block,
      form .reset .reset 0xffffffff80000000 0 pairedMemory = .ok codeUnit pairedMemory ∧
      codeUnit.emit ⟨false⟩ = .ok block ∧
      ∃ allocation, Allocation.ofBlock block.optimize.2 PlatformKind.x86_64.platform =
          .ok allocation ∧ allocation.spillSlots ≤ 65 + 7 * codeUnit.length := by
  have computes : pairedEmits = true := by decide +kernel
  unfold pairedEmits at computes
  cases forms : form .reset .reset 0xffffffff80000000 0 pairedMemory with
  | error reason bus =>
      rw [forms] at computes
      cases computes
  | ok codeUnit bus =>
      obtain ⟨rfl, -⟩ := form_ok forms
      rw [forms] at computes
      dsimp only at computes
      cases emits : codeUnit.emit ⟨false⟩ with
      | error reason =>
          rw [emits] at computes
          cases computes
      | ok block =>
          have allocates := (form_allocates forms emits .x86_64).1 block.optimize.2 (by simp)
          exact ⟨codeUnit, block, rfl, emits, allocates.2⟩

end MipsRecompiler.CodeUnit
