import MipsRecompiler.Cpu.Names
import MipsRecompiler.Cpu.SystemControl
import MipsRecompiler.FloatingPoint
import MipsRecompiler.Word.Text

/-!
# Processor state

The architectural registers, and how floating point registers pair up.
-/

set_option autoImplicit false

namespace MipsRecompiler

structure CpuState where
  gpr : RegisterFile
  /-- Raw floating point register slots. -/
  fgr : RegisterFile
  /-- Upper half of a product, or a remainder. -/
  hi : DoubleWord
  /-- Lower half of a product, or a quotient. -/
  lo : DoubleWord
  pc : DoubleWord
  fcr31 : Word
  /-- Whether a linked load is still unbroken. -/
  llBit : Bool
  control : SystemControl
  deriving DecidableEq, Repr

namespace CpuState

/-- The floating point implementation register, which is read only. -/
def floatRevision : DoubleWord := 0xa00

/-- The bits of the floating point control register that software can write. -/
def floatControlBits : Word := 0x0183ffff

def floatConditionBit : Word := 0x00800000

def reset : CpuState where
  gpr := .clear
  fgr := .clear
  hi := 0
  lo := 0
  pc := 0xffffffffbfc00000
  fcr31 := 0
  llBit := false
  control := .reset

instance : Inhabited CpuState := ⟨reset⟩

def readGpr (state : CpuState) (reg : RegisterNumber) : DoubleWord :=
  state.gpr.read reg

/-- Writes a general register. Register 0 is wired to zero. -/
def writeGpr (state : CpuState) (reg : RegisterNumber) (value : DoubleWord) : CpuState :=
  if reg = 0 then state else { state with gpr := state.gpr.write reg value }

def evenOf (reg : RegisterNumber) : RegisterNumber :=
  ⟨reg.val / 2 * 2, by omega⟩

/-- The slot of a 64 bit floating point access: without 32 full registers, that of the pair. -/
def doubleSlot (full : Bool) (reg : RegisterNumber) : RegisterNumber :=
  if full then reg else evenOf reg

/-- Whether a 32 bit floating point access uses the upper half of its pair's slot. -/
def usesUpperHalf (full : Bool) (reg : RegisterNumber) : Bool :=
  !full && reg.val % 2 == 1

def readFloat32 (state : CpuState) (reg : RegisterNumber) : Word :=
  let full := state.control.fullFloatRegisters
  let slot := state.fgr.read (doubleSlot full reg)
  if usesUpperHalf full reg then (slot >>> 32).setWidth 32 else slot.setWidth 32

/-- Writes 32 bits of a floating point register. A full register is cleared above them, half of
a pair leaves the other half alone. -/
def writeFloat32 (state : CpuState) (reg : RegisterNumber) (value : Word) : CpuState :=
  let full := state.control.fullFloatRegisters
  let slot := doubleSlot full reg
  let old := state.fgr.read slot
  let wide : DoubleWord := value.setWidth 64
  let new :=
    if full then wide
    else if usesUpperHalf full reg then (old &&& 0xffffffff) ||| (wide <<< 32)
    else (old &&& 0xffffffff00000000) ||| wide
  { state with fgr := state.fgr.write slot new }

def readFloat64 (state : CpuState) (reg : RegisterNumber) : DoubleWord :=
  state.fgr.read (doubleSlot state.control.fullFloatRegisters reg)

def writeFloat64 (state : CpuState) (reg : RegisterNumber) (value : DoubleWord) : CpuState :=
  let slot := doubleSlot state.control.fullFloatRegisters reg
  { state with fgr := state.fgr.write slot value }

/-- An operand of a format, in the low bits. -/
def readFloat (state : CpuState) (format : FloatFormat) (reg : RegisterNumber) : DoubleWord :=
  if format.is64Bit then state.readFloat64 reg else (state.readFloat32 reg).setWidth 64

def writeFloat (state : CpuState) (format : FloatFormat) (reg : RegisterNumber)
    (value : DoubleWord) : CpuState :=
  if format.is64Bit then state.writeFloat64 reg value
  else state.writeFloat32 reg (value.setWidth 32)

def readFloatControl (state : CpuState) (reg : RegisterNumber) : DoubleWord :=
  match reg with
  | 0 => floatRevision
  | 31 => state.fcr31.signExtend 64
  | _ => 0

/-- Writes a floating point control register. Only one of them can be written. -/
def writeFloatControl (state : CpuState) (reg : RegisterNumber) (value : DoubleWord) :
    CpuState :=
  if reg = 31 then { state with fcr31 := value.setWidth 32 &&& floatControlBits } else state

def floatCondition (state : CpuState) : Bool :=
  state.fcr31.getLsbD 23

def setFloatCondition (state : CpuState) (holds : Bool) : CpuState :=
  { state with
    fcr31 := if holds then state.fcr31 ||| floatConditionBit
      else state.fcr31 &&& ~~~floatConditionBit }

def registerLines (state : CpuState) : List String :=
  let cell (reg : RegisterNumber) : String :=
    Text.padLeft 5 ' ' reg.generalName ++ ": " ++ Text.hexPadded 16 (state.readGpr reg).toNat
  (List.finRange 8).map fun row =>
    "  ".intercalate <| (List.finRange 4).map fun column =>
      cell ⟨4 * row.val + column.val, by omega⟩

end CpuState

end MipsRecompiler
