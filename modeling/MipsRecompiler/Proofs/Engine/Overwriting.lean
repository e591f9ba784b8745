import MipsRecompiler.Proofs.CodeUnit.Fetching
import MipsRecompiler.Proofs.Engine.Persistence

/-!
# Writing over code

A write drops what was compiled from the word that it starts in, and nothing for another word that
it reaches. So as long as no write reaches a second word, every block that is found was compiled from
what is in memory. A memory that keeps a journal of where it was written tells which writes did.
-/

set_option autoImplicit false

namespace MipsRecompiler

open BlockDirectory (pageOf wordOf)

/-- Where a write starts, and how much it writes. -/
structure WrittenPlace where
  physical : Word
  size : AccessSize
  deriving DecidableEq, Repr

namespace WrittenPlace

variable {place : WrittenPlace} {word : Word}

/-- The write reaches a word that it does not start in. -/
def Overruns (place : WrittenPlace) (word : Word) : Prop :=
  place.physical.toNat / 4 < word.toNat / 4 ∧ word.toNat < place.physical.toNat + place.size.bytes

/-- An aligned write only reaches a second word if it writes a doubleword. -/
theorem Overruns.double (overruns : place.Overruns word)
    (aligned : place.physical.toNat % place.size.bytes = 0) : place.size = .double := by
  obtain ⟨behind, reached⟩ := overruns
  cases size : place.size with
  | double => rfl
  | byte | half | word =>
      rw [size] at aligned reached
      simp only [AccessSize.bytes] at aligned reached
      omega

/-- A write that reaches an aligned word starts in it or overruns it, or it leaves the word. -/
theorem cases_of_aligned (place : WrittenPlace) (aligned : word.toNat % 4 = 0) :
    (pageOf place.physical = pageOf word ∧ wordOf place.physical = wordOf word) ∨
      place.Overruns word ∨ word.toNat + 4 ≤ place.physical.toNat ∨
      place.physical.toNat + place.size.bytes ≤ word.toNat := by
  by_cases same : place.physical.toNat / 4 = word.toNat / 4
  · refine .inl ⟨?_, Fin.ext (congrArg (· % 1024) same)⟩
    simp only [pageOf, CodeUnit.pageOf, CodeUnit.pageSize]
    omega
  · simp only [Overruns]
    omega

end WrittenPlace

structure Journal (β : Type) where
  memory : β
  writes : List WrittenPlace

namespace Journal

variable {β : Type} [Bus β]

instance : Bus (Journal β) where
  read journal physical size :=
    let (value, memory) := Bus.read journal.memory physical size
    (value, { journal with memory })
  write journal physical size value :=
    { memory := Bus.write journal.memory physical size value
      writes := journal.writes ++ [⟨physical, size⟩] }

instance [QuietBus β] : QuietBus (Journal β) where
  read_bus journal physical size := by
    have quiet := QuietBus.read_bus journal.memory physical size
    simp only [Bus.read, quiet]

end Journal

theorem Ram.fetch_write_of_apart (ram : Ram) {place word : Word} {size : AccessSize}
    (value : DoubleWord)
    (apart : word.toNat + 4 ≤ place.toNat ∨ place.toNat + size.bytes ≤ word.toNat) :
    (Bus.fetch (Bus.write ram place size value) word).1 = (Bus.fetch ram word).1 := by
  have length : (bigEndianBytes size.bytes value).length = size.bytes := by simp [bigEndianBytes]
  have kept : (ram.bytes.setBytes place.toNat (bigEndianBytes size.bytes value)).getBytes
      word.toNat AccessSize.word.bytes = ram.bytes.getBytes word.toNat AccessSize.word.bytes := by
    apply ByteStore.getBytes_setBytes_of_apart
    rw [length]
    exact apart
  simp only [Bus.fetch, Bus.write, Bus.read, Ram.write]
  split
  · simp only [Ram.read, Ram.holds, kept]
    rfl
  · rfl

theorem BlockDirectory.isCode_congr (directory : BlockDirectory) {first second : Word}
    (page : pageOf first = pageOf second) (place : wordOf first = wordOf second) :
    directory.isCode first = directory.isCode second := by
  simp only [isCode, page?, page, place]

/-! ## What a unit was made from -/

/-- The words of a unit are marked for a block, and each of them is in memory, or a write has reached
it that started in another word. -/
structure CodeUnit.Kept (directory : BlockDirectory) (journal : Journal Ram) (physical : Word)
    (codeUnit : CodeUnit) : Prop where
  aligned : ∀ entry ∈ codeUnit.instructions, entry.physical.toNat % 4 = 0
  covered : ∀ entry ∈ codeUnit.instructions, directory.Covers physical entry.physical
  words : ∀ entry ∈ codeUnit.instructions,
    (Bus.fetch journal entry.physical).1 = entry.inst.word ∨
      ∃ place ∈ journal.writes, place.Overruns entry.physical

namespace CodeUnit.Kept

variable {directory : BlockDirectory} {journal : Journal Ram} {physical : Word}
  {codeUnit : CodeUnit} {block : CompiledBlock}

/-- A write that starts in a word of the unit drops the block, and another one leaves the word or
overruns it. -/
theorem write (kept : codeUnit.Kept directory journal physical) (start : Word) (size : AccessSize)
    (value : DoubleWord) (found : (directory.invalidate start).2.get? physical = some block) :
    codeUnit.Kept (directory.invalidate start).2 (Bus.write journal start size value)
      physical where
  aligned := kept.aligned
  covered entry member := (kept.covered entry member).invalidate found
  words := by
    intro entry member
    let place : WrittenPlace := ⟨start, size⟩
    rcases place.cases_of_aligned (kept.aligned entry member) with ⟨page, word⟩ | overruns | apart
    · have covers := kept.covered entry member
      have code : directory.isCode start = true :=
        (directory.isCode_congr page word).trans covers.code
      rw [covers.dropped code page.symm] at found
      cases found
    · exact .inr ⟨place, List.mem_append_right _ (List.mem_singleton_self _), overruns⟩
    · rcases kept.words entry member with same | ⟨earlier, before, overran⟩
      · refine .inl (Eq.trans ?_ same)
        exact journal.memory.fetch_write_of_apart value apart
      · exact .inr ⟨earlier, List.mem_append_left _ before, overran⟩

end CodeUnit.Kept

namespace Engine

/-- What is known of blocks over memory with a journal: the unit that each came from, and that its
words are kept. -/
def Kept (directory : BlockDirectory) (journal : Journal Ram) (physical : Word)
    (block : CompiledBlock) (code : List UInt8) : Prop :=
  ∃ compilation : Compilation, compilation.code = code ∧
    compilation.Yields (Journal Ram) physical block ∧
    compilation.codeUnit.Kept directory journal physical

theorem kept_persistent : Persistent Kept where
  insert := by
    rintro directory journal physical block _ start entered words ⟨compilation, rfl, yields, kept⟩
    refine ⟨compilation, rfl, yields, kept.aligned, fun entry member => ?_, kept.words⟩
    exact (kept.covered entry member).insert start entered words
  read place size kept := kept
  write := by
    rintro directory journal physical block _ start size value ⟨compilation, rfl, yields, kept⟩ found
    exact ⟨compilation, rfl, yields, kept.write start size value found⟩
  invalidate := by
    rintro directory journal physical block _ start ⟨compilation, rfl, yields, kept⟩ found
    refine ⟨compilation, rfl, yields, kept.aligned, fun entry member => ?_, kept.words⟩
    exact (kept.covered entry member).invalidate found

theorem learns_kept {machine : Machine (Journal Ram)} {physical : Word}
    (translates : machine.translate machine.cpu.pc .fetch .word = .ok physical) :
    Learns Kept machine physical := by
  intro codeUnit after kind compilation recompiler range place forms compiles lies
  have yields := yields_enter recompiler range translates forms compiles lies
  obtain ⟨rfl, -⟩ := CodeUnit.compile_ok compiles
  obtain ⟨rfl, -⟩ := CodeUnit.form_ok forms
  have formed := CodeUnit.form_formed translates forms
  refine ⟨compilation, rfl, yields, ?_, ?_, ?_⟩
  · intro entry member
    exact Tlb.physical_aligned (formed.mapped.places entry member)
  · intro entry member
    have covers : (recompiler.enter compilation range
        (.current machine.cpu.control)).2.directory.Covers compilation.codeUnit.startPhysical
          entry.physical :=
      BlockDirectory.insert_covers (formed.watched entry member)
    exact ⟨covers.code, lies.1 ▸ covers.linked⟩
  · intro entry member
    exact .inl (formed.unwritten entry member)

/-- An edit from outside leaves memory alone. -/
def Action.LeavesMemory {β : Type} : Action β → Prop
  | .edit change => ∀ machine, (change machine).bus = machine.bus
  | _ => True

/-- Code only goes stale by writes that reach two words. After any actions that leave memory to the
guest, the code of each block that is found came from a unit whose words are still in memory, each
but for those that a write has reached which started in another word. If all writes were aligned and
none of them wrote a doubleword, no block is stale. -/
theorem found_unwritten (ram : Ram) (settings : Settings) (actions : List (Action (Journal Ram)))
    (inside : ∀ action ∈ actions, action.LeavesMemory) :
    let engine := actions.foldl perform (ofMemory ⟨ram, []⟩ settings)
    let journal := engine.machine.bus
    ∀ physical block, engine.recompiler.directory.get? physical = some block →
      ∃ compilation : Compilation, compilation.Yields (Journal Ram) physical block ∧
        engine.recompiler.cache.get? block.code = some compilation.code ∧
        (∀ entry ∈ compilation.codeUnit.instructions,
          (Bus.fetch journal entry.physical).1 = entry.inst.word ∨
            ∃ place ∈ journal.writes, place.Overruns entry.physical) ∧
        ((∀ place ∈ journal.writes, place.physical.toNat % place.size.bytes = 0 ∧
          place.size ≠ .double) → compilation.codeUnit.Unwritten journal) := by
  intro engine journal physical block found
  have knows : engine.Knows Kept := by
    refine foldl_perform_knows kept_persistent (fun _ _ => learns_kept) actions
      (fun action member => ?_) (Recompiler.ofSettings_intact settings)
    have leaves := inside action member
    cases action with
    | edit change =>
        intro machine directory physical block code kept
        rw [leaves machine]
        exact kept
    | _ => trivial
  obtain ⟨code, holds, compilation, rfl, yields, kept⟩ := knows.backed physical block found
  refine ⟨compilation, yields, holds.get? knows.bounded, kept.words, fun narrow => ?_⟩
  intro entry member
  rcases kept.words entry member with same | ⟨place, written, overruns⟩
  · exact same
  · obtain ⟨aligned, short⟩ := narrow place written
    exact absurd (overruns.double aligned) short

/-- A guest that stores a doubleword whose second word is the store itself. -/
def patchedMemory : Ram :=
  ((Ram.ofSize 64).write 4 .word 0xfd2a0000).write 8 .word 0xc

/-- It is started and makes a step. The second word of what it stores is an addition. -/
def patchedRun : List (Action (Journal Ram)) :=
  let cpu := { CpuState.reset with pc := 0xffffffff80000004 }.writeGpr 9 0xffffffff80000000
  [.loadState (cpu.writeGpr 10 0x24080064), .step]

def patchedEngine : Engine (Journal Ram) :=
  patchedRun.foldl perform (ofMemory ⟨patchedMemory, []⟩ {})

/-- The block of the store is still found, though its first word is an addition now. -/
theorem patchedEngine_stale :
    patchedEngine.machine.bus.writes = [⟨0, .double⟩] ∧
    (Bus.fetch patchedEngine.machine.bus 4).1 = 0x24080064 ∧
    ∃ (block : CompiledBlock) (compilation : Compilation),
      patchedEngine.recompiler.directory.get? 4 = some block ∧
      compilation.Yields (Journal Ram) 4 block ∧
      patchedEngine.recompiler.cache.get? block.code = some compilation.code := by
  have computes : patchedEngine.machine.bus.writes = [⟨0, .double⟩] ∧
      (Bus.fetch patchedEngine.machine.bus 4).1 = 0x24080064 ∧
      (patchedEngine.recompiler.directory.get? 4).isSome = true := by
    decide +kernel
  obtain ⟨written, patched, listed⟩ := computes
  refine ⟨written, patched, ?_⟩
  have inside : ∀ action ∈ patchedRun, action.LeavesMemory := by
    simp [patchedRun, Action.LeavesMemory]
  have unwritten := found_unwritten patchedMemory {} patchedRun inside
  rw [← patchedEngine] at unwritten
  obtain ⟨block, found⟩ := Option.isSome_iff_exists.mp listed
  obtain ⟨compilation, yields, held, -⟩ := unwritten 4 block found
  exact ⟨block, compilation, found, yields, held⟩

end Engine

end MipsRecompiler
