import MipsRecompiler.CompileError
import MipsRecompiler.HostCode.Operand

/-!
# Writing host operations

Every operation is an operation code and its fields, numbers in little endian order. A source or
a write-back may be missing. Then the bytes before it are written and nothing behind it.
-/

set_option autoImplicit false

namespace MipsRecompiler.HostCode

open Ir (Arguments BlockExit GuestRegister Site StateField)

/-- The low `count` bytes of a number, lowest first. -/
def littleEndian : Nat → Nat → List UInt8
  | 0, _ => []
  | count + 1, n => n.toUInt8 :: littleEndian count (n / 256)

/-- The number whose bytes these are, lowest first. -/
def ofLittleEndian : List UInt8 → Nat
  | [] => 0
  | byte :: bytes => byte.toNat + 256 * ofLittleEndian bytes

/-- Little endian bytes read back as the number, cut to their count. -/
theorem ofLittleEndian_littleEndian (count n : Nat) :
    ofLittleEndian (littleEndian count n) = n % (1 <<< (8 * count)) := by
  rw [Nat.one_shiftLeft, Nat.pow_mul]
  change _ = n % 256 ^ count
  induction count generalizing n with
  | zero => simp [littleEndian, ofLittleEndian, Nat.mod_one]
  | succ count ih =>
    have step : n % 256 ^ (count + 1) = n % 256 + 256 * (n / 256 % 256 ^ count) := by
      rw [Nat.pow_succ', Nat.mod_mul]
    simp [littleEndian, ofLittleEndian, ih, step]

/-- A field of an operation, unless what it should hold is missing. -/
abbrev Piece : Type := Except CompileError (List UInt8)

namespace Piece

/-- What is missing from a piece. -/
def missing? : Piece → Option CompileError
  | .ok _ => none
  | .error missing => some missing

def byte (value : UInt8) : Piece := .ok [value]

/-- A number in little endian order. -/
def number {width : Nat} (value : BitVec width) : Piece :=
  .ok (littleEndian (width / 8) value.toNat)

def flag (value : Bool) : Piece := byte (if value then 1 else 0)

def coded {α : Type} [DecidableEq α] [Enumeration α] (value : α) : Piece :=
  byte (Enumeration.code value).toUInt8

end Piece

/-- The bytes of the pieces before the first missing one, and what is missing. -/
def joinPieces (pieces : List Piece) : List UInt8 × Option CompileError :=
  let written := pieces.takeWhile fun piece => piece.missing?.isNone
  (written.flatMap fun piece => piece.toOption.getD [], pieces.findSome? Piece.missing?)

def Operand.bytes : Operand → List UInt8
  | .general reg => [0, reg]
  | .float reg => [1, reg]
  | .spill slot => 2 :: littleEndian 2 slot.toNat
  | .immediate value => 3 :: littleEndian 8 value.toNat

def registerByte (reg : GuestRegister) : UInt8 :=
  reg.number.val.toUInt8

/-- The write-backs of a site as they are known before they are written. -/
abbrev PendingFlush : Type := List (GuestRegister × Except CompileError Operand)

namespace Piece

def register (reg : GuestRegister) : Piece := byte (registerByte reg)

def target (operand : Operand) : Piece := .ok operand.bytes

def source (operand : Except CompileError Operand) : Piece :=
  operand.map Operand.bytes

def stateField : StateField → Piece
  | .hi => .ok [0, 0]
  | .lo => .ok [1, 0]
  | .fcr31 => .ok [2, 0]
  | .control reg => .ok [3, ⟨reg⟩]

def exception (descriptor : ExceptionDescriptor) : List Piece :=
  let cause := descriptor.cause
  [byte cause.code.number.toUInt8, number descriptor.pc, flag descriptor.delaySlot,
    flag cause.badAddress.isSome, number (cause.badAddress.getD 0), flag cause.refill,
    number cause.coprocessor]

def blockExit : BlockExit → List Piece
  | .exception descriptor => byte 0 :: exception descriptor
  | .branch pc => [byte 1, number pc]

/-- The bytes of write-backs, up to the first missing operand. -/
def flushBytes (flush : PendingFlush) : List UInt8 × Option CompileError :=
  joinPieces <| flush.flatMap fun (reg, operand) => [register reg, source operand]

/-- A site: its numbers, the count and the length of its write-backs, and the write-backs. The
length is zero when one of them is missing. -/
def site (site : Site PendingFlush) : List Piece :=
  let (entries, missing) := flushBytes site.flush
  let length := if missing.isSome then 0 else entries.length
  [number site.pc, flag site.delaySlot, number site.retired,
    number (BitVec.ofNat 16 site.flush.length), number (BitVec.ofNat 16 length), .ok entries] ++
    (missing.map Except.error).toList

def optionalSite : Option (Site PendingFlush) → List Piece
  | some present => flag true :: site present
  | none => [flag false]

def optionalTarget : Option Operand → List Piece
  | some operand => [flag true, target operand]
  | none => [flag false]

end Piece

/-- An operation that is about to be written. -/
abbrev PendingOp : Type := HostOp (Except CompileError Operand) PendingFlush

open Piece in
def HostOp.pieces : PendingOp → List Piece
  | .move result operand => [byte 0x01, target result, source operand]
  | .loadGuest result reg => [byte 0x02, target result, register reg]
  | .flushGuest reg operand => [byte 0x03, register reg, source operand]
  | .binary op result lhs rhs exit =>
    [byte 0x04, coded op, target result, source lhs, source rhs] ++ optionalSite exit
  | .not result operand => [byte 0x05, target result, source operand]
  | .cast type result operand => [byte 0x06, coded type, target result, source operand]
  | .shift op width result value amount =>
    [byte 0x07, coded op, coded width, target result, source value, source amount]
  | .check mode result lhs rhs =>
    [byte 0x08, coded mode, target result, source lhs, source rhs]
  | .translate access size result address exit =>
    [byte 0x09, coded access, byte size, target result, source address] ++ site exit
  | .load type result address => [byte 0x0a, coded type, target result, source address]
  | .store size address value => [byte 0x0b, byte size, source address, source value]
  | .loadState field result => [byte 0x0c, stateField field, target result]
  | .storeState field operand => [byte 0x0d, stateField field, source operand]
  | .mulDiv op lhs rhs => [byte 0x0e, coded op, source lhs, source rhs]
  | .setExitPc pc => [byte 0x0f, source pc]
  | .setExitPcIf condition whenTrue whenFalse =>
    [byte 0x10, source condition, source whenTrue, source whenFalse]
  | .exitIf condition exit place =>
    [byte 0x11, source condition] ++ blockExit exit ++ site place
  | .call routine result arguments exit =>
    [byte 0x12, byte routine.kind.val.toUInt8, byte routine.first, byte routine.second] ++
      optionalTarget result ++ [byte arguments.toList.length.toUInt8] ++
      arguments.toList.map source ++ optionalSite exit
  | .floatBinary op format result lhs rhs =>
    [byte 0x13, coded op, coded format, target result, source lhs, source rhs]
  | .floatUnary op format result operand =>
    [byte 0x14, coded op, coded format, target result, source operand]
  | .floatConvert origin goal mode result operand =>
    [byte 0x15, coded origin, coded goal, coded mode, target result, source operand]
  | .floatCompare condition format lhs rhs =>
    [byte 0x16, number condition, coded format, source lhs, source rhs]
  | .finish retired => [byte 0xff, number retired]

end MipsRecompiler.HostCode
