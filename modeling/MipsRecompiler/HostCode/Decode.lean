import MipsRecompiler.HostCode.Bytes

/-!
# Reading host code

A block is read operation by operation, up to its end or to the first malformed field. The
write-backs of a site are read only when the block is left through it.
-/

set_option autoImplicit false

namespace MipsRecompiler.HostCode

open Ir (Arguments BlockExit GuestRegister Site StateField)

/-- Host code that cannot be read or run. -/
structure CorruptBlock where
  /-- Where in the block the fault was noticed. -/
  offset : Nat
  deriving DecidableEq, Repr, Inhabited

def CorruptBlock.kind (_ : CorruptBlock) : String :=
  "CorruptBlock"

def CorruptBlock.message (corrupt : CorruptBlock) : String :=
  "malformed host code at offset " ++ Text.hex corrupt.offset

/-- A place in host code: the offset of the next byte, and the bytes from there on. -/
structure Cursor where
  offset : Nat
  rest : List UInt8
  deriving DecidableEq, Repr, Inhabited

abbrev Reader : Type → Type :=
  StateT Cursor (Except CorruptBlock)

namespace Reader

/-- Reports the offset of the next byte. -/
def corrupt {α : Type} : Reader α := do
  throw ⟨(← get).offset⟩

/-- Takes the next `count` bytes, all or none. -/
def bytes (count : Nat) : Reader (List UInt8) := do
  let cursor ← get
  let taken := cursor.rest.take count
  if taken.length < count then corrupt
  else
    set { cursor with offset := cursor.offset + count, rest := cursor.rest.drop count }
    return taken

def byte : Reader UInt8 := do
  let cursor ← get
  match cursor.rest with
  | [] => corrupt
  | value :: rest =>
    set { cursor with offset := cursor.offset + 1, rest }
    return value

def number (width : Nat) : Reader (BitVec width) := do
  return BitVec.ofNat width (ofLittleEndian (← bytes (width / 8)))

/-- A value that has to be there, or the offset behind the bytes it was read from. -/
def require {α : Type} (value : Option α) : Reader α :=
  match value with
  | some value => return value
  | none => corrupt

def flag : Reader Bool := do
  match ← byte with
  | 0 => return false
  | 1 => return true
  | _ => corrupt

def coded (α : Type) [DecidableEq α] [Enumeration α] : Reader α := do
  require (Enumeration.ofCode? (← byte).toNat)

def operand : Reader Operand := do
  match ← byte with
  | 0 => return .general (← byte)
  | 1 => return .float (← byte)
  | 2 => return .spill (← number 16)
  | 3 => return .immediate (← number 64)
  | _ => corrupt

def register : Reader GuestRegister := do
  let value ← byte
  if bound : value.toNat < 64 then return ⟨⟨value.toNat, bound⟩⟩ else corrupt

def stateField : Reader StateField := do
  let kind ← byte
  let reg ← byte
  match kind with
  | 0 => return .hi
  | 1 => return .lo
  | 2 => return .fcr31
  | 3 => if reg < 32 then return .control reg.toBitVec else corrupt
  | _ => corrupt

def exception : Reader ExceptionDescriptor := do
  let code ← require (ExceptionCode.ofNumber? (← byte).toNat)
  let pc ← number 64
  let delaySlot ← flag
  let hasAddress ← flag
  let address ← number 64
  let refill ← flag
  let coprocessor ← number 8
  let badAddress := if hasAddress then some address else none
  return { cause := { code, badAddress, refill, coprocessor }, pc, delaySlot }

def blockExit : Reader BlockExit := do
  match ← byte with
  | 0 => return .exception (← exception)
  | 1 => return .branch (← number 64)
  | _ => corrupt

def routine : Reader RoutineCode := do
  let kind ← byte
  let first ← byte
  let second ← byte
  if bound : kind.toNat < 13 then return ⟨⟨kind.toNat, bound⟩, first, second⟩ else corrupt

end Reader

/-- Write-backs that are still to be read: how many, and the bytes that hold them. -/
structure PackedFlush where
  count : Nat
  entries : Cursor
  deriving DecidableEq, Repr, Inhabited

namespace PackedFlush

/-- Reads at most `count` write-backs. -/
def readEntries : Nat → Cursor → List (Except CorruptBlock (GuestRegister × Operand))
  | 0, _ => []
  | count + 1, cursor =>
    let entry : Reader (GuestRegister × Operand) := do
      return (← Reader.register, ← Reader.operand)
    match entry cursor with
    | .ok (value, cursor) => .ok value :: readEntries count cursor
    | .error corrupt => [.error corrupt]

/-- The write-backs in order, up to the first malformed one. -/
def read (flush : PackedFlush) : List (Except CorruptBlock (GuestRegister × Operand)) :=
  readEntries flush.count flush.entries

end PackedFlush

abbrev ReadOp : Type := HostOp Operand PackedFlush

namespace Reader

/-- Takes a site and steps over the bytes of its write-backs. -/
def site : Reader (Site PackedFlush) := do
  let pc ← number 64
  let delaySlot ← flag
  let retired ← number 32
  let count ← number 16
  let length ← number 16
  let offset := (← get).offset
  let rest ← bytes length.toNat
  return { pc, delaySlot, retired, flush := { count := count.toNat, entries := { offset, rest } } }

def optionalSite : Reader (Option (Site PackedFlush)) := do
  if ← flag then return some (← site) else return none

/-- Takes the arguments of a routine behind their number. -/
def arguments : Reader (Arguments Operand) := do
  match ← byte with
  | 0 => return .none
  | 1 => return .one (← operand)
  | 2 =>
    let first ← operand
    return .two first (← operand)
  | _ => corrupt

/-- Takes the fields of the operation with this code. -/
def fields (opcode : UInt8) : Reader ReadOp := do
  match opcode with
  | 0x01 => return .move (← operand) (← operand)
  | 0x02 => return .loadGuest (← operand) (← register)
  | 0x03 => return .flushGuest (← register) (← operand)
  | 0x04 => return .binary (← coded _) (← operand) (← operand) (← operand) (← optionalSite)
  | 0x05 => return .not (← operand) (← operand)
  | 0x06 => return .cast (← coded _) (← operand) (← operand)
  | 0x07 => return .shift (← coded _) (← coded _) (← operand) (← operand) (← operand)
  | 0x08 => return .check (← coded _) (← operand) (← operand) (← operand)
  | 0x09 => return .translate (← coded _) (← byte) (← operand) (← operand) (← site)
  | 0x0a => return .load (← coded _) (← operand) (← operand)
  | 0x0b => return .store (← byte) (← operand) (← operand)
  | 0x0c => return .loadState (← stateField) (← operand)
  | 0x0d => return .storeState (← stateField) (← operand)
  | 0x0e => return .mulDiv (← coded _) (← operand) (← operand)
  | 0x0f => return .setExitPc (← operand)
  | 0x10 => return .setExitPcIf (← operand) (← operand) (← operand)
  | 0x11 => return .exitIf (← operand) (← blockExit) (← site)
  | 0x12 =>
    let code ← routine
    let target ← if ← flag then some <$> operand else pure none
    return .call code target (← arguments) (← optionalSite)
  | 0x13 => return .floatBinary (← coded _) (← coded _) (← operand) (← operand) (← operand)
  | 0x14 => return .floatUnary (← coded _) (← coded _) (← operand) (← operand)
  | 0x15 => return .floatConvert (← coded _) (← coded _) (← coded _) (← operand) (← operand)
  | 0x16 => return .floatCompare (← number 8) (← coded _) (← operand) (← operand)
  | 0xff => return .finish (← number 32)
  | _ => corrupt

def isOpcode (opcode : UInt8) : Bool :=
  (0x01 ≤ opcode && opcode ≤ 0x16) || opcode == 0xff

/-- Takes an operation. An unknown operation code is reported at its own offset. -/
def op : Reader ReadOp := do
  let start ← get
  let opcode ← byte
  if isOpcode opcode then fields opcode else throw ⟨start.offset⟩

end Reader

/-- An operation and its offset, or why it cannot be read. -/
structure Item where
  offset : Nat
  op : Except CorruptBlock ReadOp

/-- Reads at most `fuel` operations. -/
def readItems : Nat → Cursor → List Item
  | 0, _ => []
  | fuel + 1, cursor =>
    match Reader.op cursor with
    | .error corrupt => [⟨cursor.offset, .error corrupt⟩]
    | .ok (.finish retired, _) => [⟨cursor.offset, .ok (.finish retired)⟩]
    | .ok (op, next) => ⟨cursor.offset, .ok op⟩ :: readItems fuel next

/-- A block that was read. -/
structure Program where
  /-- The number of spill slots. -/
  spillSlots : Nat
  /-- The operations up to the end of the block or to the first malformed one. -/
  items : List Item

/-- Reads a block. Every operation takes a byte at least, so their number is bounded by the
length of the code. -/
def Program.read (code : List UInt8) : Except CorruptBlock Program := do
  let header : Reader (BitVec 16) := Reader.number 16
  let (slots, cursor) ← header ⟨0, code⟩
  return { spillSlots := slots.toNat, items := readItems (code.length + 1) cursor }

end MipsRecompiler.HostCode
