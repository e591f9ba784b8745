import MipsRecompiler.Word

/-!
# Integer arithmetic

Shifts, comparisons, additions and subtractions that detect overflow, and the multiplications
and divisions that fill HI and LO. Operations on 32 bits read only the low halves of their
operands, the arithmetic right shift apart, and sign extend their results.
-/

set_option autoImplicit false

namespace MipsRecompiler

inductive ShiftOp where
  | left
  | rightLogical
  | rightArith
  deriving DecidableEq, Repr, Inhabited

instance : Enumeration ShiftOp where
  all := [.left, .rightLogical, .rightArith]
  name
    | .left => "Left"
    | .rightLogical => "RightLogical"
    | .rightArith => "RightArith"
  mem_all op := by cases op <;> decide

inductive ShiftWidth where
  | word
  | double
  deriving DecidableEq, Repr, Inhabited

instance : Enumeration ShiftWidth where
  all := [.word, .double]
  name
    | .word => "W32"
    | .double => "W64"
  mem_all width := by cases width <;> decide

/-- Shifts by the amount modulo the width. A 32 bit arithmetic right shift takes its upper bits
from the whole register, so an operand that is not sign extended shows through. -/
def ShiftOp.apply (op : ShiftOp) (width : ShiftWidth) (value amount : DoubleWord) : DoubleWord :=
  match width with
  | .word =>
    let count := amount.toNat % 32
    let result : Word := match op with
      | .left => value.setWidth 32 <<< count
      | .rightLogical => value.setWidth 32 >>> count
      | .rightArith => (value.sshiftRight count).setWidth 32
    result.signExtend 64
  | .double =>
    let count := amount.toNat % 64
    match op with
    | .left => value <<< count
    | .rightLogical => value >>> count
    | .rightArith => value.sshiftRight count

inductive Comparison where
  | eq
  | ne
  | le
  | ge
  | lt
  | gt
  | ltU
  | geU
  deriving DecidableEq, Repr, Inhabited

instance : Enumeration Comparison where
  all := [.eq, .ne, .le, .ge, .lt, .gt, .ltU, .geU]
  name
    | .eq => "Eq"
    | .ne => "Ne"
    | .le => "Le"
    | .ge => "Ge"
    | .lt => "Lt"
    | .gt => "Gt"
    | .ltU => "LtU"
    | .geU => "GeU"
  mem_all mode := by cases mode <;> decide

/-- Whether the comparison holds, signed unless it says otherwise. -/
def Comparison.holds (mode : Comparison) (a b : DoubleWord) : Bool :=
  match mode with
  | .eq => a == b
  | .ne => a != b
  | .le => a.sle b
  | .ge => b.sle a
  | .lt => a.slt b
  | .gt => b.slt a
  | .ltU => a.ult b
  | .geU => b.ule a

/-- A 32 bit sum, unless it overflows as a signed number. -/
def addWord? (a b : DoubleWord) : Option DoubleWord :=
  let x : Word := a.setWidth 32
  let y : Word := b.setWidth 32
  if x.saddOverflow y then none else some ((x + y).signExtend 64)

def subWord? (a b : DoubleWord) : Option DoubleWord :=
  let x : Word := a.setWidth 32
  let y : Word := b.setWidth 32
  if x.ssubOverflow y then none else some ((x - y).signExtend 64)

def addDouble? (a b : DoubleWord) : Option DoubleWord :=
  if a.saddOverflow b then none else some (a + b)

def subDouble? (a b : DoubleWord) : Option DoubleWord :=
  if a.ssubOverflow b then none else some (a - b)

inductive MulDivOp where
  | mult
  | multU
  | div
  | divU
  | dMult
  | dMultU
  | dDiv
  | dDivU
  deriving DecidableEq, Repr, Inhabited

instance : Enumeration MulDivOp where
  all := [.mult, .multU, .div, .divU, .dMult, .dMultU, .dDiv, .dDivU]
  name
    | .mult => "Mult"
    | .multU => "MultU"
    | .div => "Div"
    | .divU => "DivU"
    | .dMult => "DMult"
    | .dMultU => "DMultU"
    | .dDiv => "DDiv"
    | .dDivU => "DDivU"
  mem_all op := by cases op <;> decide

/-- The upper and lower `width` bits of a product. -/
def splitProduct (width : Nat) (product : BitVec (2 * width)) :
    BitVec width × BitVec width :=
  ((product >>> width).setWidth width, product.setWidth width)

/-- Remainder and quotient of a signed division, truncated towards zero. Division by zero leaves
the dividend as the remainder and a quotient of 1 or -1, against the dividend's sign. -/
def divideSigned {width : Nat} (n d : BitVec width) : BitVec width × BitVec width :=
  if d = 0 then (n, if n.msb then 1 else -1) else (n.srem d, n.sdiv d)

/-- Remainder and quotient of an unsigned division. Division by zero leaves the dividend as the
remainder and a quotient of all ones. -/
def divideUnsigned {width : Nat} (n d : BitVec width) : BitVec width × BitVec width :=
  if d = 0 then (n, -1) else (n.umod d, n.udiv d)

/-- Both halves of a 32 bit result as registers hold them. -/
def extendPair (pair : Word × Word) : DoubleWord × DoubleWord :=
  (pair.1.signExtend 64, pair.2.signExtend 64)

/-- The values of HI and LO, in this order. -/
def MulDivOp.apply (op : MulDivOp) (a b : DoubleWord) : DoubleWord × DoubleWord :=
  let x : Word := a.setWidth 32
  let y : Word := b.setWidth 32
  match op with
  | .mult => extendPair (splitProduct 32 (x.signExtend 64 * y.signExtend 64))
  | .multU => extendPair (splitProduct 32 (x.zeroExtend 64 * y.zeroExtend 64))
  | .div => extendPair (divideSigned x y)
  | .divU => extendPair (divideUnsigned x y)
  | .dMult => splitProduct 64 (a.signExtend 128 * b.signExtend 128)
  | .dMultU => splitProduct 64 (a.zeroExtend 128 * b.zeroExtend 128)
  | .dDiv => divideSigned a b
  | .dDivU => divideUnsigned a b

end MipsRecompiler
