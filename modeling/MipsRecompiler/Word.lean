import MipsRecompiler.Enumeration

/-!
# Machine words

Instruction words have 32 bits and registers 64. A 32 bit result is kept in a register sign
extended, so `signExtendWord` is the normal form of such a result.
-/

set_option autoImplicit false

namespace MipsRecompiler

/-- An instruction word, or a physical address. -/
abbrev Word := BitVec 32

/-- A register value, or a virtual address. -/
abbrev DoubleWord := BitVec 64

/-- The low 32 bits, sign extended: how a register holds a 32 bit result. -/
def signExtendWord (value : DoubleWord) : DoubleWord :=
  (value.setWidth 32).signExtend 64

/-- The low `count` bytes of a value, sign extended. An unsigned value is kept whole. -/
def widenBytes (count : Nat) (signed : Bool) (value : DoubleWord) : DoubleWord :=
  if signed then (value.setWidth (8 * count)).signExtend 64 else value

inductive AccessSize where
  | byte
  | half
  | word
  | double
  deriving DecidableEq, Repr, Inhabited

namespace AccessSize

instance : Enumeration AccessSize where
  all := [.byte, .half, .word, .double]
  name
    | .byte => "1"
    | .half => "2"
    | .word => "4"
    | .double => "8"
  mem_all size := by cases size <;> decide

def bytes : AccessSize → Nat
  | .byte => 1
  | .half => 2
  | .word => 4
  | .double => 8

def bits (size : AccessSize) : Nat :=
  8 * size.bytes

def ofBytes? : Nat → Option AccessSize
  | 1 => some .byte
  | 2 => some .half
  | 4 => some .word
  | 8 => some .double
  | _ => none

/-- The bits of an address below a unit of this width. -/
def offsetMask (size : AccessSize) : DoubleWord :=
  BitVec.ofNat 64 (size.bytes - 1)

/-- The byte offset of an address within the aligned unit that holds it. -/
def offsetOf (size : AccessSize) (address : DoubleWord) : Nat :=
  address.toNat % size.bytes

/-- Widens a bus value to a register value. An unsigned value, and a full doubleword, is kept. -/
def widen (size : AccessSize) (signed : Bool) (value : DoubleWord) : DoubleWord :=
  widenBytes size.bytes signed value

end AccessSize

end MipsRecompiler
