import MipsRecompiler.Proofs.Compilation
import MipsRecompiler.Proofs.Emission.Sites
import MipsRecompiler.Proofs.Emission.Typing
import MipsRecompiler.Proofs.Ir.Editing

/-!
# Blocks as they are built

What the later stages rely on in every block, before it is optimized and behind that: values use
only what was computed before them, every exit writes back the right registers and counts the right
number of instructions, and the block ends by writing registers back and saying where the guest
continues.
-/

set_option autoImplicit false

namespace MipsRecompiler.CodeUnit

open Ir (Kind)

/-- How many instructions may count as executed where a block of a unit is left: all up to the one
that leaves it, and for a delay slot fault the slot that could not be fetched as well. -/
inductive Counts (codeUnit : CodeUnit) : Kind → BitVec 32 → Prop where
  | inside {kind : Kind} {retired : BitVec 32} (some : 1 ≤ retired.toNat)
      (within : retired.toNat ≤ codeUnit.length) : Counts codeUnit kind retired
  | slot {missing : Fault} {condition : Ir.ValueId} {pc : DoubleWord} {retired : BitVec 32}
      (fault : codeUnit.delaySlotFault = some missing)
      (all : retired.toNat = codeUnit.length + 1) :
      Counts codeUnit (Emission.slotExit missing condition pc) retired

structure Builds (codeUnit : CodeUnit) (block : Ir.Block) : Prop where
  /-- The links of the arena lead through the values in the order of their numbers. -/
  ascending : block.arena.ids.Pairwise (· < ·)
  /-- The values that the links lead through, from either end, are those of the block. -/
  listed : block.arena.Lists (block.entries.toList.map Ir.Entry.value) block.ids
  /-- Operands and what is written back are listed before, and have a result. -/
  ordered : block.Ordered
  /-- What can leave the block has a site that counts right and writes registers back. -/
  exits : block.Exits codeUnit.Counts
  flushes : block.WritesBack block.flushes
  writesLast : block.WritesLast
  readsFirst : block.ReadsFirst
  continues : ∃ entry ∈ block.values, entry.2.kind.continues = true

variable {β : Type} [Bus β] {tlb : Tlb} {control : SystemControl} {startPc : DoubleWord}
  {startPhysical : Word} {bus after : β} {codeUnit : CodeUnit} {configuration : Configuration}
  {block : Ir.Block}

theorem countsAll (codeUnit : CodeUnit) (limit : codeUnit.length ≤ maxLength) :
    Emission.CountsAll codeUnit.Counts codeUnit.delaySlotFault codeUnit.length := by
  have counted (count : Nat) (few : count ≤ codeUnit.length + 1) :
      (BitVec.ofNat 32 count).toNat = count := by
    rw [BitVec.toNat_ofNat]
    refine Nat.mod_eq_of_lt ?_
    simp only [maxLength] at limit
    omega
  constructor
  · intro index inside kind
    have count := counted (index + 1) (by omega)
    exact .inside (by omega) (by omega)
  · intro missing fault condition pc
    exact .slot fault (counted _ (Nat.le_refl _))

theorem Builds.reduce {changed : Ir.Block} (builds : codeUnit.Builds block)
    (reduces : block.Reduces changed) : codeUnit.Builds changed where
  ascending := Ir.Arena.ofBlock_ascending changed
  listed := Ir.Arena.ofBlock_lists changed
  ordered := reduces.ordered builds.ordered
  exits := reduces.exits builds.ordered builds.exits
  flushes := reduces.flushes_writesBack builds.ordered builds.flushes
  writesLast := reduces.writesLast builds.writesLast
  readsFirst := (reduces.writesLast builds.writesLast).readsFirst
  continues := reduces.continues builds.continues

/-- Whatever unit is formed, its block is built as the later stages need it, before it is
optimized and behind that. -/
theorem form_builds (forms : form tlb control startPc startPhysical bus = .ok codeUnit after)
    (emits : codeUnit.emit configuration = .ok block) :
    codeUnit.Builds block ∧ codeUnit.Builds block.optimize.2 := by
  have ordered := (form_wellFormed forms emits).lowerable.ordered
  have nonempty := form_nonempty forms
  have total := emit_total nonempty emits
  obtain ⟨final, emitted, rfl⟩ := emit_ok nonempty emits
  have all := codeUnit.countsAll (form_length_le forms)
  rw [length, ← Nat.zero_add codeUnit.instructions.length] at all
  -- Until the end of the block nothing is written back, so the end alone has to do it.
  have typed := Emission.emitAll_typed all emitted (.empty _)
  obtain ⟨closes, flushes⟩ := Emission.finish_closes typed codeUnit.endPc
  have writesLast := closes.writesLast (.of_unflushed typed.unflushed)
  have builds : codeUnit.Builds (Emission.finish codeUnit.endPc final).block := by
    constructor
    · exact Ir.Arena.ofBlock_ascending _
    · exact Ir.Arena.ofBlock_lists _
    · exact ordered
    · exact closes.exits _ typed.exits
    · rw [flushes]
      exact closes.writesBack typed.writesBack
    · exact writesLast
    · exact writesLast.readsFirst
    · exact total.2
  obtain ⟨-, reduces⟩ := Ir.Block.optimize_improves ordered
  exact ⟨builds, builds.reduce reduces⟩

structure Rom where
  words : List (Word × Word)

instance : Bus Rom where
  read rom address _ := (((rom.words.lookup address).getD 0).setWidth 64, rom)
  write rom _ _ _ := rom

/-- The end of a page: a register is given a number, and a branch has its delay slot on the next
page. -/
def cutRom : Rom :=
  ⟨[(0xff8, 0x24010005), (0xffc, 0x10000001)]⟩

/-- Whether a unit with a delay slot that cannot be fetched is formed there, and emitted. -/
private def cutEmits : Bool :=
  match form .reset .reset 0xff8 0xff8 cutRom with
  | .error _ _ => false
  | .ok codeUnit _ => codeUnit.delaySlotFault.isSome && (codeUnit.emit ⟨true⟩).toBool

theorem cutRom_builds :
    ∃ codeUnit after block, form .reset .reset 0xff8 0xff8 cutRom = .ok codeUnit after ∧
      codeUnit.emit ⟨true⟩ = .ok block ∧ codeUnit.delaySlotFault.isSome = true ∧
      codeUnit.Builds block ∧ codeUnit.Builds block.optimize.2 := by
  have computes : cutEmits = true := by decide +kernel
  unfold cutEmits at computes
  cases forms : form .reset .reset 0xff8 0xff8 cutRom with
  | error reason bus =>
      rw [forms] at computes
      cases computes
  | ok codeUnit after =>
      rw [forms] at computes
      dsimp only at computes
      obtain ⟨faults, succeeds⟩ := Bool.and_eq_true_iff.mp computes
      cases emits : codeUnit.emit ⟨true⟩ with
      | error reason =>
          rw [emits] at succeeds
          cases succeeds
      | ok block =>
          exact ⟨codeUnit, after, block, rfl, emits, faults, form_builds forms emits⟩

end MipsRecompiler.CodeUnit
