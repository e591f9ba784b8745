import MipsRecompiler.Engine.CodeCache
import MipsRecompiler.Proofs.Memory.Bytes

/-!
# Code in the cache

Code that was put into the cache stays where it is until the cache is flushed.
-/

set_option autoImplicit false

namespace MipsRecompiler.CodeCache

variable {cache next : CodeCache} {range : CodeRange} {code : List UInt8}

/-- The code is in a range that was handed out since the last flush. -/
structure Holds (cache : CodeCache) (range : CodeRange) (code : List UInt8) : Prop where
  generation : range.generation = cache.generation
  inside : range.offset + range.length ≤ cache.used
  bytes : cache.bytes.getBytes range.offset range.length = code

theorem Holds.get? (holds : cache.Holds range code) (bounded : cache.used ≤ cache.capacity) :
    cache.get? range = some code := by
  rw [CodeCache.get?, if_pos ⟨holds.generation, Nat.le_trans holds.inside bounded⟩, holds.bytes]

theorem insert?_some (inserts : cache.insert? code = some (range, next)) :
    cache.used + code.length ≤ cache.capacity ∧
      range = ⟨cache.used, code.length, cache.generation⟩ ∧
      next = { cache with
        used := cache.used + code.length
        bytes := cache.bytes.setBytes cache.used code } := by
  simp only [insert?] at inserts
  split at inserts
  · rename_i fits
    cases inserts
    exact ⟨of_decide_eq_true fits, rfl, rfl⟩
  · cases inserts

theorem insert?_bounded (inserts : cache.insert? code = some (range, next)) :
    next.used ≤ next.capacity := by
  obtain ⟨fits, -, rfl⟩ := insert?_some inserts
  exact fits

theorem insert?_holds (inserts : cache.insert? code = some (range, next)) :
    next.Holds range code := by
  obtain ⟨-, rfl, rfl⟩ := insert?_some inserts
  exact ⟨rfl, Nat.le_refl _, cache.bytes.getBytes_setBytes_self cache.used code⟩

/-- Putting code behind what is there overwrites nothing. -/
theorem Holds.insert? {other : List UInt8} {place : CodeRange} (holds : cache.Holds range code)
    (inserts : cache.insert? other = some (place, next)) : next.Holds range code := by
  obtain ⟨-, -, rfl⟩ := insert?_some inserts
  refine ⟨holds.generation, Nat.le_trans holds.inside (Nat.le_add_right _ _), ?_⟩
  rw [← holds.bytes]
  exact ByteStore.getBytes_setBytes_of_apart (.inl holds.inside)

end MipsRecompiler.CodeCache
