import MipsRecompiler.Engine.Recompiler
import MipsRecompiler.Proofs.Engine.CodeCache
import MipsRecompiler.Proofs.Engine.Directory

/-!
# Blocks and their code

The cache holds the code of every block in the directory, and what is known of a block and its
code stays known: a block is dropped before its code is overwritten.
-/

set_option autoImplicit false

namespace MipsRecompiler.Recompiler

open BlockDirectory (pageOf wordOf)

variable {known weaker : Word → CompiledBlock → List UInt8 → Prop} {recompiler stored : Recompiler}
  {range : CodeRange} {code : List UInt8} {compilation : Compilation} {reason : CompileError}
  {block : CompiledBlock} {physical : Word}

/-- The cache holds the code of a block, and something is known of the block at its address. -/
def Backs (known : Word → CompiledBlock → List UInt8 → Prop) (recompiler : Recompiler)
    (physical : Word) (block : CompiledBlock) : Prop :=
  ∃ code, recompiler.cache.Holds block.code code ∧ known physical block code

/-- The cache keeps to its size and backs every block in the directory. -/
structure Intact (known : Word → CompiledBlock → List UInt8 → Prop) (recompiler : Recompiler) :
    Prop where
  bounded : recompiler.cache.used ≤ recompiler.cache.capacity
  backed : ∀ physical block, recompiler.directory.get? physical = some block →
    recompiler.Backs known physical block

theorem Intact.mono (intact : recompiler.Intact known)
    (implies : ∀ physical block code, recompiler.directory.get? physical = some block →
      known physical block code → weaker physical block code) :
    recompiler.Intact weaker where
  bounded := intact.bounded
  backed := by
    intro physical block found
    obtain ⟨code, holds, knows⟩ := intact.backed physical block found
    exact ⟨code, holds, implies physical block code found knows⟩

private theorem intact_of_empty (bounded : recompiler.cache.used ≤ recompiler.cache.capacity)
    (empty : recompiler.directory = .empty) : recompiler.Intact known where
  bounded := bounded
  backed := by
    intro physical block found
    rw [empty] at found
    simp [BlockDirectory.get?, BlockDirectory.page?, BlockDirectory.empty] at found

theorem flush_intact (recompiler : Recompiler) : recompiler.flush.Intact known :=
  intact_of_empty (Nat.zero_le _) rfl

theorem ofSettings_intact (settings : Settings) : (ofSettings settings).Intact known :=
  intact_of_empty (Nat.zero_le _) rfl

theorem Intact.drop (intact : recompiler.Intact known) {directory : BlockDirectory}
    (fewer : ∀ physical block, directory.get? physical = some block →
      recompiler.directory.get? physical = some block) (statistics : Statistics)
    (last : Option (Compilation × CodeRange)) :
    { recompiler with directory, statistics, last }.Intact known where
  bounded := intact.bounded
  backed physical block found := intact.backed physical block (fewer physical block found)

theorem Intact.forget (intact : recompiler.Intact known) : recompiler.forget.Intact known :=
  intact.drop (fun _ _ found => found) _ _

theorem Intact.insert? (intact : recompiler.Intact known) {cache : CodeCache}
    (inserts : recompiler.cache.insert? code = some (range, cache)) :
    { recompiler with cache }.Intact known where
  bounded := CodeCache.insert?_bounded inserts
  backed := by
    intro physical block found
    obtain ⟨code, holds, knows⟩ := intact.backed physical block found
    exact ⟨code, holds.insert? inserts, knows⟩

/-- Code is put behind what is in the cache, or into the cache after a flush. -/
theorem store_ok (stores : recompiler.store code = .ok (range, stored)) :
    ∃ base cache, (base = recompiler ∨ base = recompiler.flush) ∧
      base.cache.insert? code = some (range, cache) ∧ stored = { base with cache } := by
  unfold store at stores
  dsimp only at stores
  split at stores
  · cases stores
  · split at stores
    next inserts =>
      cases stores
      exact ⟨recompiler, _, .inl rfl, inserts, rfl⟩
    next =>
      split at stores
      next inserts =>
        cases stores
        exact ⟨recompiler.flush, _, .inr rfl, inserts, rfl⟩
      next => cases stores

/-- Code that fits is stored, after a flush if there is no other way. -/
theorem Intact.store (intact : recompiler.Intact known)
    (stores : recompiler.store code = .ok (range, stored)) :
    stored.Intact known ∧ stored.cache.Holds range code := by
  obtain ⟨base, cache, origin, inserts, rfl⟩ := store_ok stores
  refine ⟨?_, CodeCache.insert?_holds inserts⟩
  rcases origin with rfl | rfl
  · exact intact.insert? inserts
  · exact recompiler.flush_intact.insert? inserts

theorem store_error (fails : recompiler.store code = .error reason) :
    ∃ size capacity, reason = .blockTooLarge size capacity := by
  unfold store at fails
  dsimp only at fails
  split at fails
  · cases fails
    exact ⟨_, _, rfl⟩
  · split at fails
    · cases fails
    · split at fails
      · cases fails
      · cases fails
        exact ⟨_, _, rfl⟩

theorem get?_enter (recompiler : Recompiler) (compilation : Compilation) (range : CodeRange)
    (configuration : Configuration) :
    (recompiler.enter compilation range configuration).2.directory.get?
        compilation.codeUnit.startPhysical =
      some (recompiler.enter compilation range configuration).1 := by
  refine (BlockDirectory.get?_insert _ _ _ _ _).trans ?_
  rw [if_pos ⟨rfl, rfl⟩]
  rfl

theorem Intact.enter (intact : recompiler.Intact known) (configuration : Configuration)
    (holds : recompiler.cache.Holds range compilation.code)
    (knows : ∀ physical, pageOf compilation.codeUnit.startPhysical = pageOf physical ∧
        wordOf compilation.codeUnit.startPhysical = wordOf physical →
      known physical (recompiler.enter compilation range configuration).1 compilation.code) :
    (recompiler.enter compilation range configuration).2.Intact known where
  bounded := intact.bounded
  backed := by
    intro physical block found
    have entered := BlockDirectory.get?_insert recompiler.directory
      compilation.codeUnit.startPhysical (recompiler.enter compilation range configuration).1
      compilation.codeUnit.sourceWords physical
    rw [show (recompiler.enter compilation range configuration).2.directory.get? physical = _
      from entered] at found
    split at found
    · rename_i same
      cases found
      exact ⟨compilation.code, holds, knows physical same⟩
    · exact intact.backed physical block found

end MipsRecompiler.Recompiler
