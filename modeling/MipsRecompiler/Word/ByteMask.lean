import MipsRecompiler.Word
import MipsRecompiler.Word.Text

/-!
# Byte lanes of a doubleword

Lane 0 is the most significant byte, as in guest memory order. A mask covers the lanes that an
access of `width` bytes at lane `alignment` touches.
-/

set_option autoImplicit false

namespace MipsRecompiler

/-- A set of byte lanes, as the bits it covers. -/
structure ByteMask where
  /-- One bit for each bit of the covered lanes. -/
  bits : DoubleWord
  deriving DecidableEq, Repr

namespace ByteMask

/-- The run of `width` lanes that starts at lane `alignment`. -/
def lanes (width alignment : Nat) : ByteMask :=
  ⟨(BitVec.allOnes 64 <<< (64 - 8 * width)) >>> (8 * alignment)⟩

/-- Takes the covered lanes from `value` and the others from `target`. -/
def insert (mask : ByteMask) (target value : DoubleWord) : DoubleWord :=
  (target &&& ~~~mask.bits) ||| (value &&& mask.bits)

def text (mask : ByteMask) : String :=
  "ByteMask8(" ++ Text.hexPadded 16 mask.bits.toNat ++ ")"

end ByteMask

end MipsRecompiler
