import Mathlib.Algebra.Group.Nat.Defs
import MipsRecompiler.Proofs.Engine.Persistence

/-!
# What is counted

A step looks for one block and runs or skips it. Looking flushes at most once and compiles at most
one block, which makes no more pages resident than it has words and one. A write that drops
something drops a resident page. So no counter comes near the end of its 64 bits, and the cycles of
a step fit into as many.
-/

set_option autoImplicit false

namespace MipsRecompiler

/-! ## Resident pages -/

namespace BlockDirectory

theorem size_updatePage (directory : BlockDirectory) (physical : Word)
    (change : DirectoryPage → DirectoryPage) :
    (directory.updatePage physical change).pages.size ≤ directory.pages.size + 1 := by
  simp only [updatePage, Std.TreeMap.size_alter, Option.isNone_some, Bool.false_eq_true, and_false,
    if_false]
  split
  · exact Nat.le_refl _
  · exact Nat.le_succ _

theorem size_markWord (home : Nat) (directory : BlockDirectory) (word : Word) :
    (directory.markWord home word).pages.size ≤ directory.pages.size + 1 := by
  have marked := directory.size_updatePage word fun page => page.mark (wordOf word)
  unfold markWord
  dsimp only
  split
  · exact marked
  · exact marked

theorem size_foldl_markWord (home : Nat) (directory : BlockDirectory) (words : List Word) :
    (words.foldl (markWord home) directory).pages.size ≤
      directory.pages.size + words.length := by
  induction words generalizing directory with
  | nil => exact Nat.le_refl _
  | cons word rest ih =>
      have first := size_markWord home directory word
      have later := ih (markWord home directory word)
      rw [List.foldl_cons, List.length_cons]
      omega

theorem size_insert (directory : BlockDirectory) (physical : Word) (block : CompiledBlock)
    (words : List Word) :
    (directory.insert physical block words).pages.size ≤
      directory.pages.size + 1 + words.length :=
  Nat.le_trans (size_foldl_markWord _ _ words)
    (Nat.add_le_add_right (directory.size_updatePage _ _) _)

theorem size_dropPages (directory : BlockDirectory) (pending : List Nat) :
    (directory.dropPages pending).pages.size ≤ directory.pages.size := by
  induction directory, pending using dropPages.induct with
  | case1 directory => rw [dropPages]
  | case2 directory number pending rest =>
      rw [dropPages]
      exact Nat.le_trans rest Std.TreeMap.size_erase_le

theorem size_invalidate (directory : BlockDirectory) (physical : Word) :
    (directory.invalidate physical).2.pages.size +
        (if (directory.invalidate physical).1 then 1 else 0) ≤ directory.pages.size := by
  cases code : directory.isCode physical with
  | false =>
      rw [invalidate_of_not_code code]
      exact Nat.le_refl _
  | true =>
      have resident : directory.pages.contains (pageOf physical) = true := by
        rw [Std.TreeMap.contains_eq_isSome_getElem?]
        exact resident_of_isCode code
      have some : directory.pages.size ≠ 0 := by
        have filled := Std.TreeMap.isEmpty_eq_false_of_contains resident
        rw [Std.TreeMap.isEmpty_eq_size_eq_zero] at filled
        simpa using filled
      have dropped : (directory.dropPage (pageOf physical)).2.pages.size =
          directory.pages.size - 1 := Std.TreeMap.size_erase.trans (if_pos resident)
      have later := size_dropPages (directory.dropPage (pageOf physical)).2
        ((directory.dropPage (pageOf physical)).1.reverse ++ [])
      rw [invalidate_of_code code, dropPages, if_pos rfl]
      dsimp only
      omega

end BlockDirectory

/-! ## Counters -/

namespace Recompiler

/-- How far the counters have come behind a number of lookups and runs of blocks. -/
structure Counted (lookups runs : Nat) (recompiler : Recompiler) : Prop where
  compiled : recompiler.statistics.blocksCompiled ≤ lookups
  flushes : recompiler.statistics.cacheFlushes ≤ lookups
  misses : recompiler.statistics.configurationMisses ≤ lookups
  skips : recompiler.statistics.idleLoopSkips ≤ runs
  executed : recompiler.statistics.blocksExecuted ≤ runs
  /-- Each block pays for the pages that it made resident. -/
  dropped : recompiler.statistics.invalidations + recompiler.directory.pages.size ≤
    (CodeUnit.maxLength + 1) * recompiler.statistics.blocksCompiled

variable {lookups runs : Nat} {recompiler : Recompiler}

theorem Counted.start (settings : Settings) : (ofSettings settings).Counted 0 0 := by
  constructor <;> simp [ofSettings, BlockDirectory.empty]

theorem Counted.mono (counted : recompiler.Counted lookups runs) {more others : Nat}
    (later : lookups ≤ more) (also : runs ≤ others) : recompiler.Counted more others where
  compiled := Nat.le_trans counted.compiled later
  flushes := Nat.le_trans counted.flushes later
  misses := Nat.le_trans counted.misses later
  skips := Nat.le_trans counted.skips also
  executed := Nat.le_trans counted.executed also
  dropped := counted.dropped

theorem Counted.flush (counted : recompiler.Counted lookups runs) :
    recompiler.flush.Counted (lookups + 1) runs where
  compiled := Nat.le_succ_of_le counted.compiled
  flushes := Nat.succ_le_succ counted.flushes
  misses := Nat.le_succ_of_le counted.misses
  skips := counted.skips
  executed := counted.executed
  dropped := Nat.le_trans (Nat.add_le_add_left (Nat.zero_le _) _) counted.dropped

theorem Counted.invalidate (counted : recompiler.Counted lookups runs) (physical : Word) :
    (recompiler.invalidate physical).Counted lookups runs := by
  have fewer := recompiler.directory.size_invalidate physical
  have dropped := counted.dropped
  rw [Recompiler.invalidate]
  dsimp only
  split
  · rename_i drops
    rw [drops, if_pos rfl] at fewer
    exact { counted with dropped := by dsimp only; omega }
  · exact counted

/-- A block that is entered makes at most its page and those of its words resident. -/
theorem Counted.enter (counted : recompiler.Counted (lookups + 1) runs)
    (compiled : recompiler.statistics.blocksCompiled ≤ lookups) (compilation : Compilation)
    (words : compilation.codeUnit.sourceWords.length ≤ CodeUnit.maxLength) (range : CodeRange)
    (configuration : Configuration) :
    (recompiler.enter compilation range configuration).2.Counted (lookups + 1) runs := by
  refine { counted with compiled := Nat.succ_le_succ compiled, dropped := ?_ }
  have size := recompiler.directory.size_insert compilation.codeUnit.startPhysical
    (recompiler.enter compilation range configuration).1 compilation.codeUnit.sourceWords
  have dropped := counted.dropped
  have more := Nat.mul_add_one (CodeUnit.maxLength + 1) recompiler.statistics.blocksCompiled
  dsimp only [Recompiler.enter] at size ⊢
  omega

end Recompiler

theorem WatchedMemory.fewer_resident {β : Type} [Bus β] (limit : Nat) :
    BusInvariant fun watched : WatchedMemory β =>
      watched.invalidations + watched.directory.pages.size ≤ limit where
  read _ _ _ few := few
  write := by
    intro watched address size value few
    have fewer := watched.directory.size_invalidate address
    simp only [Bus.write]
    split
    · rename_i drops
      rw [drops, if_pos rfl] at fewer
      omega
    · omega

namespace Engine

variable {β : Type} [Bus β] {engine next : Engine β} {lookups runs : Nat}

theorem Finds.counted {physical : Word}
    {result : EStateM.Result RecompilerError (Engine β) CompiledBlock}
    (finds : Finds engine physical result) (counted : engine.recompiler.Counted lookups runs) :
    (left result).recompiler.Counted (lookups + 1) runs := by
  have later := counted.mono (Nat.le_succ lookups) (Nat.le_refl runs)
  cases finds with
  | there => exact later
  | compiled compiles counts few =>
      obtain ⟨misses, rfl⟩ := counts
      have misses := Nat.le_trans few (Nat.succ_le_succ counted.misses)
      cases compiles with
      | unformed => exact { later with misses }
      | uncompiled => exact { later with misses }
      | unstored => exact { later with misses }
      | @entered codeUnit bus compilation range stored forms compiles stores =>
          obtain ⟨same, -⟩ := CodeUnit.compile_ok compiles
          have words : compilation.codeUnit.sourceWords.length ≤ CodeUnit.maxLength := by
            rw [same, CodeUnit.form_sourceWords forms, List.length_map]
            exact CodeUnit.form_length_le forms
          obtain ⟨base, cache, origin, -, rfl⟩ := Recompiler.store_ok stores
          rcases origin with rfl | rfl
          · apply Recompiler.Counted.enter
            · exact { later with misses }
            · exact counted.compiled
            · exact words
          · apply Recompiler.Counted.enter
            · exact { counted.flush with misses }
            · exact counted.compiled
            · exact words

theorem executeBlock_counted (block : CompiledBlock)
    (counted : engine.recompiler.Counted lookups runs) :
    (left (executeBlock block engine)).recompiler.Counted lookups (runs + 1) := by
  have later := counted.mono (Nat.le_refl lookups) (Nat.le_succ runs)
  unfold executeBlock
  cases engine.recompiler.cache.get? block.code with
  | none => exact later
  | some code =>
      have fewer := HostCode.execute_keeps
        (WatchedMemory.fewer_resident engine.recompiler.directory.pages.size) code engine.watched
        (Nat.le_of_eq (Nat.zero_add _))
      have executed := counted.executed
      dsimp only
      generalize HostCode.execute code engine.watched = result at fewer
      obtain ⟨outcome, after⟩ := result
      have dropped : engine.recompiler.statistics.invalidations + after.bus.invalidations +
          after.bus.directory.pages.size ≤ (CodeUnit.maxLength + 1) *
            engine.recompiler.statistics.blocksCompiled := by
        rw [Nat.add_assoc]
        exact Nat.le_trans (Nat.add_le_add_left fewer _) counted.dropped
      cases outcome with
      | ok retired => exact { later with executed := Nat.succ_le_succ executed, dropped }
      | error corrupt => exact { later with dropped }

/-- A step looks for one block, and runs or skips it. -/
theorem step_counted (counted : engine.recompiler.Counted lookups runs) :
    (left (step engine)).recompiler.Counted (lookups + 1) (runs + 1) := by
  have finds (physical : Word) := (findBlock_finds engine physical).counted counted
  have stepped := step_stepped engine
  generalize step engine = result at stepped
  cases stepped with
  | fault => exact counted.mono (Nat.le_succ _) (Nat.le_succ _)
  | @unfound physical reason next translates fails =>
      have found := finds physical
      rw [fails] at found
      exact found.mono (Nat.le_refl _) (Nat.le_succ _)
  | @waited physical block between cycles statistics translates finding scheduled counts more =>
      have found := finds physical
      rw [finding] at found
      obtain ⟨skips, rfl⟩ := counts
      have later := found.mono (Nat.le_refl _) (Nat.le_succ runs)
      exact { later with skips := more ▸ Nat.succ_le_succ found.skips }
  | @executed physical block between translates finding =>
      have found := finds physical
      rw [finding] at found
      exact executeBlock_counted block found

theorem perform_counted (counted : engine.recompiler.Counted lookups runs) (action : Action β) :
    (engine.perform action).recompiler.Counted (lookups + 1) (runs + 1) := by
  have idle := counted.mono (Nat.le_succ lookups) (Nat.le_succ runs)
  have flushed := counted.flush.mono (Nat.le_refl _) (Nat.le_succ runs)
  cases action with
  | step =>
      have stepped := step_counted counted
      rw [perform]
      cases steps : step engine with
      | ok cycles next =>
          rw [steps] at stepped
          exact stepped
      | error reason next =>
          rw [steps] at stepped
          exact stepped
  | edit change => exact idle
  | schedule nextEvent => exact idle
  | loadState cpu => exact flushed
  | invalidate physical => exact idle.invalidate physical
  | flush => exact flushed

theorem foldl_perform_counted (actions : List (Action β))
    (counted : engine.recompiler.Counted lookups runs) :
    (actions.foldl perform engine).recompiler.Counted (lookups + actions.length)
      (runs + actions.length) := by
  induction actions generalizing engine lookups runs with
  | nil => exact counted
  | cons action rest ih =>
      rw [List.foldl_cons, List.length_cons, ← Nat.add_assoc, Nat.add_right_comm,
        ← Nat.add_assoc, Nat.add_right_comm runs]
      exact ih (perform_counted counted action)

/-- No counter comes to the end of its 64 bits in fewer than 2 ^ 53 actions. -/
theorem counters_lt (memory : β) (settings : Settings) (actions : List (Action β))
    (few : actions.length < 2 ^ 53) :
    ∀ counter ∈
      (actions.foldl perform (ofMemory memory settings)).recompiler.statistics.counters,
      counter.2 < 2 ^ 64 := by
  have start : (ofMemory memory settings).recompiler.Counted 0 0 := .start settings
  have counted := foldl_perform_counted actions start
  rw [Nat.zero_add] at counted
  obtain ⟨compiled, flushes, misses, skips, executed, dropped⟩ := counted
  simp only [CodeUnit.maxLength] at dropped
  simp only [Statistics.counters, List.forall_mem_cons]
  refine ⟨?_, ?_, ?_, ?_, ?_, ?_, List.forall_mem_nil _⟩ <;> omega

/-! ## Cycles -/

/-- A block counts the instructions that it executes in 32 bits. -/
theorem executeBlock_cycles {block : CompiledBlock} {cycles : Nat}
    (executes : executeBlock block engine = .ok cycles next) : cycles < 2 ^ 32 := by
  unfold executeBlock at executes
  cases held : engine.recompiler.cache.get? block.code with
  | none =>
      rw [held] at executes
      cases executes
  | some code =>
      rw [held] at executes
      dsimp only at executes
      cases outcome : (HostCode.execute code engine.watched).1 with
      | ok retired =>
          rw [outcome] at executes
          cases executes
          exact retired.isLt
      | error corrupt =>
          rw [outcome] at executes
          cases executes

/-- A step takes the cycles to the next event and one, or as many as a block can count. -/
theorem step_cycles {cycles : Nat} (steps : step engine = .ok cycles next) :
    cycles < 2 ^ 32 ∨ ∃ scheduled, engine.nextEvent = some scheduled ∧ cycles = scheduled + 1 := by
  have stepped := step_stepped engine
  generalize result : step engine = outcome at stepped
  cases stepped with
  | fault =>
      cases result.symm.trans steps
      exact .inl (by decide)
  | unfound => cases result.symm.trans steps
  | waited translates found scheduled =>
      cases result.symm.trans steps
      obtain ⟨-, -, same, -⟩ := findBlock_ok found
      exact .inr ⟨_, same.symm.trans scheduled, rfl⟩
  | executed translates found => exact .inl (executeBlock_cycles (result.symm.trans steps))

/-- The cycles of a step fit into 64 bits, unless the next event is as far away as these can say. -/
theorem step_cycles_lt {cycles : Nat} (steps : step engine = .ok cycles next)
    (near : ∀ scheduled ∈ engine.nextEvent, scheduled + 1 < 2 ^ 64) : cycles < 2 ^ 64 := by
  rcases step_cycles steps with few | ⟨scheduled, waits, rfl⟩
  · omega
  · exact near scheduled waits

end Engine

end MipsRecompiler
