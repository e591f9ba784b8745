import MipsRecompiler.Word
import MipsRecompiler.Memory.ByteStore

/-!
# The memory bus

Physical memory as the processor sees it. Accesses are big endian, and values stand in the low
bits of a doubleword.
-/

set_option autoImplicit false

namespace MipsRecompiler

/-- Something that answers physical reads and writes. A read may have an effect of its own. -/
class Bus (β : Type) where
  read : β → Word → AccessSize → DoubleWord × β
  write : β → Word → AccessSize → DoubleWord → β

def Bus.fetch {β : Type} [Bus β] (bus : β) (address : Word) : Word × β :=
  let (value, bus) := Bus.read bus address .word
  (value.setWidth 32, bus)

/-- The number that bytes in memory order stand for. -/
def bigEndian (bytes : List UInt8) : DoubleWord :=
  bytes.foldl (fun value byte => (value <<< 8) ||| byte.toBitVec.setWidth 64) 0

/-- The low `count` bytes of a value in memory order. -/
def bigEndianBytes (count : Nat) (value : DoubleWord) : List UInt8 :=
  (List.range count).map fun index =>
    ⟨(value >>> (8 * (count - 1 - index))).setWidth 8⟩

/-- Flat memory that starts at physical address 0. -/
structure Ram where
  /-- The number of bytes installed. -/
  size : Nat
  bytes : ByteStore
  deriving Repr, Inhabited

namespace Ram

def ofSize (size : Nat) : Ram :=
  { size, bytes := .empty }

def holds (ram : Ram) (address count : Nat) : Bool :=
  address + count ≤ ram.size

def read (ram : Ram) (address : Word) (size : AccessSize) : DoubleWord :=
  if ram.holds address.toNat size.bytes then
    bigEndian (ram.bytes.getBytes address.toNat size.bytes)
  else 0

/-- Writes the low bytes of a number. A write that does not fit is dropped. -/
def write (ram : Ram) (address : Word) (size : AccessSize) (value : DoubleWord) : Ram :=
  if ram.holds address.toNat size.bytes then
    { ram with bytes := ram.bytes.setBytes address.toNat (bigEndianBytes size.bytes value) }
  else ram

instance : Bus Ram where
  read ram address size := (ram.read address size, ram)
  write := write

/-- Copies bytes into memory if they fit. -/
def load? (ram : Ram) (offset : Nat) (bytes : List UInt8) : Option Ram :=
  if ram.holds offset bytes.length then
    some { ram with bytes := ram.bytes.setBytes offset bytes }
  else none

/-- The bytes of instruction words in memory order. -/
def bytesOfWords (words : List Word) : List UInt8 :=
  words.flatMap fun word => bigEndianBytes 4 (word.setWidth 64)

/-- The changes between two memories: maximal runs of differing bytes, with their new values. -/
def changedRuns (before after : Ram) : List (Nat × List UInt8) :=
  let extend (address : Nat) (runs : List (Nat × List UInt8)) : List (Nat × List UInt8) :=
    let byte := after.bytes.get address
    match runs with
    | (start, bytes) :: rest =>
      if start = address + 1 then (address, byte :: bytes) :: rest
      else (address, [byte]) :: runs
    | [] => [(address, [byte])]
  (before.bytes.differences after.bytes).foldr extend []

end Ram

end MipsRecompiler
