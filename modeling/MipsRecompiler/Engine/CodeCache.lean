import MipsRecompiler.Memory.ByteStore

/-!
# The code cache

The host code of all compiled blocks, one behind the other. Nothing is freed on its own: when a
block does not fit, everything is flushed, and ranges that were handed out before become stale.
-/

set_option autoImplicit false

namespace MipsRecompiler

/-- Where a block's code is, and the generation of the cache in which it was put there. -/
structure CodeRange where
  offset : Nat
  length : Nat
  generation : BitVec 32
  deriving DecidableEq, Repr, Inhabited

structure CodeCache where
  capacity : Nat
  /-- The number of bytes handed out since the last flush. -/
  used : Nat
  /-- How often the cache was flushed. -/
  generation : BitVec 32
  bytes : ByteStore
  deriving Repr, Inhabited

namespace CodeCache

def ofCapacity (capacity : Nat) : CodeCache :=
  { capacity, used := 0, generation := 0, bytes := .empty }

def fits (cache : CodeCache) (length : Nat) : Bool :=
  cache.used + length ≤ cache.capacity

/-- Puts code behind what is there, if it fits. -/
def insert? (cache : CodeCache) (code : List UInt8) : Option (CodeRange × CodeCache) :=
  let length := code.length
  if cache.fits length then
    some ({ offset := cache.used, length, generation := cache.generation },
      { cache with
        used := cache.used + length
        bytes := cache.bytes.setBytes cache.used code })
  else none

/-- The code in a range, unless the range is stale or lies outside the cache. -/
def get? (cache : CodeCache) (range : CodeRange) : Option (List UInt8) :=
  if range.generation = cache.generation ∧ range.offset + range.length ≤ cache.capacity then
    some (cache.bytes.getBytes range.offset range.length)
  else none

/-- Makes every range stale. The bytes stay until they are overwritten. -/
def flush (cache : CodeCache) : CodeCache :=
  { cache with used := 0, generation := cache.generation + 1 }

end CodeCache

end MipsRecompiler
