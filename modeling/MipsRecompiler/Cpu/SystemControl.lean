import MipsRecompiler.Cpu.RegisterFile

/-!
# System control registers

The registers of coprocessor 0: reset values, and which bits software can write.
-/

set_option autoImplicit false

namespace MipsRecompiler

structure SystemControl where
  /-- All registers, unimplemented ones included. -/
  regs : RegisterFile
  deriving DecidableEq, Repr

namespace SystemControl

/-! ## Register numbers -/

abbrev index : RegisterNumber := 0
abbrev random : RegisterNumber := 1
abbrev entryLo0 : RegisterNumber := 2
abbrev entryLo1 : RegisterNumber := 3
abbrev context : RegisterNumber := 4
abbrev pageMask : RegisterNumber := 5
abbrev wired : RegisterNumber := 6
abbrev badVAddr : RegisterNumber := 8
abbrev count : RegisterNumber := 9
abbrev entryHi : RegisterNumber := 10
abbrev compare : RegisterNumber := 11
abbrev status : RegisterNumber := 12
abbrev cause : RegisterNumber := 13
abbrev epc : RegisterNumber := 14
abbrev prId : RegisterNumber := 15
abbrev config : RegisterNumber := 16
abbrev llAddr : RegisterNumber := 17
abbrev errorEpc : RegisterNumber := 30

/-! ## Implemented bits -/

def pageMaskBits : DoubleWord := 0x01ffe000

/-- The address space, segment and page pair bits of EntryHi. -/
def entryHiBits : DoubleWord := 0xc00000ffffffe0ff

def entryLoBits : DoubleWord := 0x3fffffff

/-- The bits of Context that a TLB exception fills in. -/
def contextPageBits : DoubleWord := 0x7ffff0

/-- The software interrupt bits of Cause, the only ones software can write. -/
def softwareInterruptBits : DoubleWord := 0x300

def timerInterruptBit : DoubleWord := 0x8000

def configBits : DoubleWord := 0x0f00800f

def exceptionLevelBit : DoubleWord := 0x2

def errorLevelBit : DoubleWord := 0x4

/-! ## Access -/

def get (control : SystemControl) (reg : RegisterNumber) : DoubleWord :=
  control.regs.read reg

def set (control : SystemControl) (reg : RegisterNumber) (value : DoubleWord) : SystemControl :=
  { control with regs := control.regs.write reg value }

theorem get_set (control : SystemControl) (target reg : RegisterNumber) (value : DoubleWord) :
    (control.set target value).get reg = if target = reg then value else control.get reg := by
  simp [get, set, RegisterFile.read_write]

@[simp] theorem get_set_self (control : SystemControl) (reg : RegisterNumber)
    (value : DoubleWord) : (control.set reg value).get reg = value := by
  simp [get_set]

theorem get_set_of_ne {control : SystemControl} {target reg : RegisterNumber}
    {value : DoubleWord} (differs : target ≠ reg) :
    (control.set target value).get reg = control.get reg := by
  rw [get_set, if_neg differs]

/-- The registers after reset: both coprocessors usable, with 32 floating point registers. -/
def reset : SystemControl :=
  let clear : SystemControl := ⟨.clear⟩
  (((clear.set random 31).set status 0x34000000).set prId 0x0b22).set config 0x7006e463

instance : Inhabited SystemControl := ⟨reset⟩

def fullFloatRegisters (control : SystemControl) : Bool :=
  (control.get status).getLsbD 26

def floatUsable (control : SystemControl) : Bool :=
  (control.get status).getLsbD 29

def exceptionLevel (control : SystemControl) : Bool :=
  (control.get status).getLsbD 1

def errorLevel (control : SystemControl) : Bool :=
  (control.get status).getLsbD 2

def bootVectors (control : SystemControl) : Bool :=
  (control.get status).getLsbD 22

def addressSpace (control : SystemControl) : BitVec 8 :=
  (control.get entryHi).setWidth 8

/-- A register as software reads it: whole, or its low word sign extended. -/
def read (control : SystemControl) (reg : RegisterNumber) (double : Bool) : DoubleWord :=
  if double then control.get reg else signExtendWord (control.get reg)

/-- A register after software writes it: the bits of `mask` come from the value. -/
def merge (old value mask : DoubleWord) : DoubleWord :=
  (old &&& ~~~mask) ||| (value &&& mask)

/-- Writes a register as software does. Only implemented and writable bits change. A write of
Wired resets Random, and a write of Compare acknowledges the timer interrupt. -/
def write (control : SystemControl) (reg : RegisterNumber) (value : DoubleWord)
    (double : Bool) : SystemControl :=
  let value := if double then value else signExtendWord value
  let old := control.get reg
  match reg with
  | 0 => control.set index ((old &&& 0x80000000) ||| (value &&& 0x3f))
  | 1 | 8 | 15 => control
  | 2 | 3 => control.set reg (value &&& entryLoBits)
  | 4 => control.set context ((old &&& contextPageBits) ||| (value &&& ~~~0x7fffff))
  | 5 => control.set pageMask (value &&& pageMaskBits)
  | 6 => (control.set random 31).set wired (value &&& 0x3f)
  | 10 => control.set entryHi (value &&& entryHiBits)
  | 11 =>
    (control.set cause (control.get cause &&& ~~~timerInterruptBit)).set compare
      (value &&& 0xffffffff)
  | 13 => control.set cause (merge old value softwareInterruptBits)
  | 16 => control.set config (merge old value configBits)
  | _ => control.set reg value

end SystemControl

end MipsRecompiler
