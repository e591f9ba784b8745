import MipsRecompiler.Proofs.Compilation
import MipsRecompiler.Proofs.Emission.Sites
import MipsRecompiler.Proofs.HostCode.Completeness
import MipsRecompiler.Proofs.Ir.Viewing

/-!
# What compiling a unit comes to

A formed unit is compiled unless an instruction turns out to be reserved or its values need too
much room. Its code then runs to an end on every machine.
-/

set_option autoImplicit false

namespace MipsRecompiler

namespace CodeUnit

variable {β γ : Type} [Bus β] [Bus γ] {codeUnit : CodeUnit} {tlb : Tlb}
  {control : SystemControl} {bus : β} {configuration : Configuration} {kind : PlatformKind}

/-! ## Only the words of a bus matter -/

structure Words where
  word : Word → Word

instance : Bus Words where
  read words physical size :=
    ((((words.word physical).setWidth 64).setWidth size.bits).setWidth 64, words)
  write words _ _ _ := words

instance : LawfulBus Words where
  read_fits words physical size := by
    have limit : size.bits ≤ 64 := by cases size <;> decide
    simp only [Bus.read]
    rw [BitVec.setWidth_setWidth_of_le _ limit, BitVec.setWidth_eq]
  read_bus _ _ _ := rfl
  write_cut _ _ _ _ := rfl

theorem Chain.congr {other : γ} {pc : DoubleWord} {physical : Word}
    {entries : List UnitInstruction} {fault : Option Fault}
    (same : ∀ physical, (Bus.fetch other physical).1 = (Bus.fetch bus physical).1)
    (chain : Chain tlb control bus pc physical entries fault) :
    Chain tlb control other pc physical entries fault := by
  have fetch {entry : UnitInstruction} {pc : DoubleWord} {physical : Word} {delaySlot : Bool}
      (fetched : entry.Fetched bus pc physical delaySlot) :
      entry.Fetched other pc physical delaySlot :=
    { fetched with word := (same entry.physical).trans fetched.word }
  induction chain with
  | last fetched plain => exact .last (fetch fetched) plain
  | next fetched plain inside samePage _ ih => exact .next (fetch fetched) plain inside samePage ih
  | slot fetched branch found slotFetched plain =>
      exact .slot (fetch fetched) branch found (fetch slotFetched) plain
  | fault fetched branch missing => exact .fault (fetch fetched) branch missing

theorem Formed.congr {other : γ}
    (same : ∀ physical, (Bus.fetch other physical).1 = (Bus.fetch bus physical).1)
    (formed : codeUnit.Formed tlb control bus) : codeUnit.Formed tlb control other where
  chain := formed.chain.congr same
  length := formed.length
  unwritten entry member := (same entry.physical).trans (formed.unwritten entry member)
  mapped := formed.mapped
  watched := formed.watched

/-- A unit could have been formed from memory that cannot be written. -/
theorem Formed.words (formed : codeUnit.Formed tlb control bus) :
    codeUnit.Formed tlb control (Words.mk fun physical => (Bus.fetch bus physical).1) := by
  refine formed.congr fun physical => ?_
  simp [Bus.fetch, Bus.read, AccessSize.bits, AccessSize.bytes]

/-! ## Code that runs to its end -/

private theorem Formed.optimized (formed : codeUnit.Formed tlb control bus)
    (full : control.fullFloatRegisters = configuration.fullFloatRegisters) {block : Ir.Block}
    (emits : codeUnit.emit configuration = .ok block) :
    block.optimize.2.Lowerable ∧ block.optimize.2.Total := by
  let words : Words := ⟨fun physical => (Bus.fetch bus physical).1⟩
  let machine : Machine Words := { cpu := { CpuState.reset with control }, tlb, bus := words }
  have same : machine.cpu.control.fullFloatRegisters = configuration.fullFloatRegisters := full
  have wellFormed := formed.words.emit_formed emits same
  have total := emit_total formed.chain.nonempty emits
  obtain ⟨-, reduces⟩ := Ir.Block.optimize_improves wellFormed.lowerable.ordered
  exact ⟨reduces.lowerable wellFormed.lowerable, reduces.sited total.sites,
    reduces.continues total.continues⟩

theorem Formed.implements (formed : codeUnit.Formed tlb control bus)
    (full : control.fullFloatRegisters = configuration.fullFloatRegisters)
    {compilation : Compilation}
    (compiles : codeUnit.compile configuration kind.platform = .ok compilation) :
    HostCode.Implements compilation.code compilation.block (BitVec.ofNat 32 codeUnit.length) := by
  obtain ⟨-, emitted, emits, optimized, allocated, encoded⟩ := compile_ok compiles
  obtain ⟨lowerable, total⟩ := formed.optimized full emits
  rw [← optimized] at lowerable total
  obtain ⟨code, written, implements⟩ := HostCode.encode_implements lowerable total.sites
    (Ir.Block.Continues.of_mem total.continues) (Allocation.distinct_platform kind) allocated
    (BitVec.ofNat 32 codeUnit.length)
  cases encoded.symm.trans written
  exact implements

/-- Why a formed unit is not compiled. -/
theorem Formed.compile_error (formed : codeUnit.Formed tlb control bus)
    (full : control.fullFloatRegisters = configuration.fullFloatRegisters) {reason : CompileError}
    (fails : codeUnit.compile configuration kind.platform = .error reason) :
    (∃ illegal, reason = .illegal illegal) ∨ ∃ slots, reason = .spillExhausted slots := by
  rw [compile] at fails
  cases emits : codeUnit.emit configuration with
  | error cause =>
      rw [emits] at fails
      cases fails
      exact .inl (emit_reserved emits)
  | ok emitted =>
      obtain ⟨lowerable, total⟩ := formed.optimized full emits
      rw [emits] at fails
      dsimp only [bind, Except.bind] at fails
      generalize emitted.optimize.2 = block at fails lowerable total
      cases allocated : Allocation.ofBlock block kind.platform with
      | error cause =>
          rw [allocated] at fails
          cases fails
          exact .inr (Allocation.ofBlock_error allocated)
      | ok allocation =>
          obtain ⟨code, encoded, -⟩ := HostCode.encode_implements lowerable total.sites
            (Ir.Block.Continues.of_mem total.continues) (Allocation.distinct_platform kind) allocated
            (BitVec.ofNat 32 codeUnit.length)
          rw [allocated] at fails
          simp only [encoded] at fails
          cases fails

end CodeUnit

end MipsRecompiler
