import MipsRecompiler.Proofs.CodeUnit.Paging
import MipsRecompiler.Proofs.Engine.Persistence

/-!
# Running a block again

A block is looked up by its first word. That vouches for whatever is on the page of that word, as
the table is now, and for nothing else: a delay slot on the next page is the one that was there when
the block was compiled, and one that could not be fetched then is not looked for again.
-/

set_option autoImplicit false

namespace MipsRecompiler

open BlockDirectory (pageOf wordOf)

theorem BlockDirectory.eq_of_place {first second : Word} (page : pageOf first = pageOf second)
    (place : wordOf first = wordOf second) (aligned : first.toNat % 4 = 0)
    (alignedToo : second.toNat % 4 = 0) : first = second := by
  have words : first.toNat / 4 % 1024 = second.toNat / 4 % 1024 := congrArg Fin.val place
  simp only [pageOf, CodeUnit.pageOf, CodeUnit.pageSize] at page
  apply BitVec.eq_of_toNat_eq
  omega

namespace Engine

variable {β : Type} [Bus β] {engine next : Engine β} {physical : Word} {block : CompiledBlock}

/-- The code of a block came from a unit that was formed. -/
def Compiled (β : Type) [Bus β] (physical : Word) (block : CompiledBlock) (code : List UInt8) :
    Prop :=
  ∃ compilation : Compilation, compilation.code = code ∧ compilation.Yields β physical block

theorem learns_compiled {machine : Machine β}
    (translates : machine.translate machine.cpu.pc .fetch .word = .ok physical) :
    Learns (fun _ _ => Compiled β) machine physical := by
  intro codeUnit after kind compilation recompiler range place forms compiles lies
  exact ⟨compilation, rfl, yields_enter recompiler range translates forms compiles lies⟩

theorem Compiles.counts {configuration : Configuration}
    (compiles : Compiles engine physical configuration (.ok block next)) :
    next.recompiler.statistics.blocksCompiled =
      engine.recompiler.statistics.blocksCompiled + 1 := by
  cases compiles with
  | entered _ _ stores =>
      obtain ⟨base, cache, origin, -, rfl⟩ := Recompiler.store_ok stores
      rcases origin with rfl | rfl
      · rfl
      · rfl

/-- If no block is compiled to find one, it was there for the place where the guest stands. -/
theorem listed_of_findBlock (found : findBlock physical engine = .ok block next)
    (idle : next.recompiler.statistics.blocksCompiled =
      engine.recompiler.statistics.blocksCompiled) :
    next = engine ∧ engine.recompiler.directory.get? physical = some block ∧
      block.startPc = engine.machine.cpu.pc := by
  have finds := findBlock_finds engine physical
  rw [found] at finds
  cases finds with
  | there listed _ placed => exact ⟨rfl, listed, placed⟩
  | compiled compiles counts =>
      obtain ⟨misses, rfl⟩ := counts
      exact absurd (idle.symm.trans compiles.counts) (Nat.ne_of_lt (Nat.lt_succ_self _))

/-- What a step runs again fits the table as it is now, as far as the page of its first word goes.
After any actions, the code of a block that is found without compiling came from a unit that starts
at the program counter, and whose instructions on that page are where their addresses translate to.
Another page can only hold a delay slot. Without one the unit is mapped as a whole. -/
theorem reused_pagewise [QuietBus β] (memory : β) (settings : Settings)
    (actions : List (Action β)) :
    let engine := actions.foldl perform (ofMemory memory settings)
    let machine := engine.machine
    ∀ physical block next, machine.translate machine.cpu.pc .fetch .word = .ok physical →
      findBlock physical engine = .ok block next →
      next.recompiler.statistics.blocksCompiled = engine.recompiler.statistics.blocksCompiled →
      ∃ compilation : Compilation, compilation.Yields β physical block ∧
        engine.recompiler.cache.get? block.code = some compilation.code ∧
        compilation.codeUnit.startPc = machine.cpu.pc ∧
        compilation.codeUnit.Pagewise machine.tlb machine.cpu.control ∧
        (compilation.codeUnit.pulledPage = none → compilation.codeUnit.delaySlotFault = none →
          compilation.codeUnit.Mapped machine.tlb machine.cpu.control) := by
  intro engine machine physical block next translates found idle
  obtain ⟨-, listed, placed⟩ := listed_of_findBlock found idle
  have intact : engine.recompiler.Intact (Compiled β) :=
    foldl_perform_keeps (fun _ _ => learns_compiled) actions
      (Recompiler.ofSettings_intact settings)
  obtain ⟨code, holds, compilation, rfl, yields⟩ := intact.backed physical block listed
  obtain ⟨tlb, control, bus, after, started, forms⟩ := yields.forms
  have startPc : compilation.codeUnit.startPc = machine.cpu.pc :=
    yields.startPc.symm.trans placed
  have startPhysical : compilation.codeUnit.startPhysical = physical :=
    BlockDirectory.eq_of_place yields.lies.1 yields.lies.2 (Tlb.physical_aligned started)
      (Tlb.physical_aligned translates)
  have starts : machine.translate compilation.codeUnit.startPc .fetch .word =
      .ok compilation.codeUnit.startPhysical := by
    rw [startPc, startPhysical]
    exact translates
  have pagewise : compilation.codeUnit.Pagewise machine.tlb machine.cpu.control :=
    CodeUnit.form_pagewise forms started starts
  refine ⟨compilation, yields, holds.get? intact.bounded, startPc, pagewise,
    fun unpulled present => ⟨fun entry member => ?_, ?_⟩⟩
  · refine pagewise.vouched entry member ((pagewise.together entry member).resolve_right ?_)
    rintro ⟨-, pulled⟩
    cases unpulled.symm.trans pulled
  · rw [present]
    rintro fault ⟨⟩

/-- A guest that jumps to itself for ever. -/
def spinningMemory : Ram :=
  (Ram.ofSize 64).write 8 .word 0x08000002

def spinningRun : List (Action Ram) :=
  [.loadState { CpuState.reset with pc := 0xffffffff80000008 }, .step]

def spinningEngine : Engine Ram :=
  spinningRun.foldl perform (ofMemory spinningMemory {})

/-- Whether finding its block compiles nothing. -/
private def spinningFinds : Bool :=
  match findBlock 8 spinningEngine with
  | .error _ _ => false
  | .ok _ next =>
    next.recompiler.statistics.blocksCompiled =
      spinningEngine.recompiler.statistics.blocksCompiled

theorem spinningEngine_reuses :
    ∃ (block : CompiledBlock) (compilation : Compilation),
      findBlock 8 spinningEngine = .ok block spinningEngine ∧
      compilation.codeUnit.startPc = 0xffffffff80000008 ∧
      compilation.codeUnit.Pagewise spinningEngine.machine.tlb
        spinningEngine.machine.cpu.control := by
  have computes : spinningFinds = true ∧
      spinningEngine.machine.cpu.pc = 0xffffffff80000008 ∧
      spinningEngine.machine.translate spinningEngine.machine.cpu.pc .fetch .word = .ok 8 := by
    decide +kernel
  obtain ⟨finds, stands, translates⟩ := computes
  unfold spinningFinds at finds
  cases found : findBlock 8 spinningEngine with
  | error reason next =>
      rw [found] at finds
      cases finds
  | ok block next =>
      rw [found] at finds
      have idle := of_decide_eq_true finds
      obtain ⟨same, -⟩ := listed_of_findBlock found idle
      have reused := reused_pagewise spinningMemory {} spinningRun
      rw [← spinningEngine] at reused
      obtain ⟨compilation, -, -, starts, pagewise, -⟩ := reused 8 block next translates found idle
      exact ⟨block, compilation, congrArg _ same, starts.trans stands, pagewise⟩

end Engine

end MipsRecompiler
