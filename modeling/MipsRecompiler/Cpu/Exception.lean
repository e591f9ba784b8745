import MipsRecompiler.Cpu.State

/-!
# Guest exceptions

Entering and leaving the exception handler. Only the first of nested exceptions records where
to return to.
-/

set_option autoImplicit false

namespace MipsRecompiler

inductive ExceptionCode where
  | interrupt
  | tlbModification
  | tlbLoad
  | tlbStore
  | addressErrorLoad
  | addressErrorStore
  | syscall
  | breakpoint
  | reservedInstruction
  | coprocessorUnusable
  | overflow
  | trap
  | floatingPoint
  | watch
  deriving DecidableEq, Repr, Inhabited

namespace ExceptionCode

instance : Enumeration ExceptionCode where
  all := [.interrupt, .tlbModification, .tlbLoad, .tlbStore, .addressErrorLoad,
    .addressErrorStore, .syscall, .breakpoint, .reservedInstruction, .coprocessorUnusable,
    .overflow, .trap, .floatingPoint, .watch]
  name
    | .interrupt => "Interrupt"
    | .tlbModification => "TlbModification"
    | .tlbLoad => "TlbLoad"
    | .tlbStore => "TlbStore"
    | .addressErrorLoad => "AddressErrorLoad"
    | .addressErrorStore => "AddressErrorStore"
    | .syscall => "Syscall"
    | .breakpoint => "Breakpoint"
    | .reservedInstruction => "ReservedInstruction"
    | .coprocessorUnusable => "CoprocessorUnusable"
    | .overflow => "Overflow"
    | .trap => "Trap"
    | .floatingPoint => "FloatingPoint"
    | .watch => "Watch"
  mem_all code := by cases code <;> decide

def number : ExceptionCode → Nat
  | .interrupt => 0
  | .tlbModification => 1
  | .tlbLoad => 2
  | .tlbStore => 3
  | .addressErrorLoad => 4
  | .addressErrorStore => 5
  | .syscall => 8
  | .breakpoint => 9
  | .reservedInstruction => 10
  | .coprocessorUnusable => 11
  | .overflow => 12
  | .trap => 13
  | .floatingPoint => 15
  | .watch => 23

def ofNumber? (n : Nat) : Option ExceptionCode :=
  (Enumeration.all : List ExceptionCode).find? fun code => code.number == n

@[simp] theorem ofNumber?_number (code : ExceptionCode) :
    ofNumber? code.number = some code := by
  cases code <;> decide

def isTlb : ExceptionCode → Bool
  | .tlbModification | .tlbLoad | .tlbStore => true
  | _ => false

def recordsAddress (code : ExceptionCode) : Bool :=
  code.isTlb || code == .addressErrorLoad || code == .addressErrorStore

end ExceptionCode

structure Fault where
  code : ExceptionCode
  badAddress : DoubleWord
  /-- Whether no TLB entry matched, which has a vector of its own. -/
  refill : Bool
  deriving DecidableEq, Repr, Inhabited

/-- Why an exception is raised, wherever it happens. -/
structure ExceptionCause where
  code : ExceptionCode
  /-- The address to record, if the kind of exception records one. -/
  badAddress : Option DoubleWord := none
  refill : Bool := false
  coprocessor : BitVec 8 := 0
  deriving DecidableEq, Repr, Inhabited

namespace ExceptionCause

def ofCode (code : ExceptionCode) : ExceptionCause :=
  { code }

def ofFault (fault : Fault) : ExceptionCause :=
  { code := fault.code, badAddress := some fault.badAddress, refill := fault.refill }

def coprocessorUnusable (coprocessor : BitVec 8) : ExceptionCause :=
  { code := .coprocessorUnusable, coprocessor }

end ExceptionCause

structure ExceptionDescriptor where
  cause : ExceptionCause
  /-- The instruction, or its branch when it sits in a delay slot. -/
  pc : DoubleWord
  delaySlot : Bool
  deriving DecidableEq, Repr, Inhabited

namespace CpuState

def raisedCause (control : SystemControl) (exception : ExceptionDescriptor) :
    DoubleWord :=
  let kept := control.get SystemControl.cause &&& ~~~0xb000007c
  let code := BitVec.ofNat 64 exception.cause.code.number <<< 2
  let coprocessor : DoubleWord := (exception.cause.coprocessor &&& 3).setWidth 64 <<< 28
  let inSlot : DoubleWord :=
    if !control.exceptionLevel && exception.delaySlot then 0x80000000 else 0
  kept ||| code ||| coprocessor ||| inSlot

/-- Records the address that caused an exception, and prepares a TLB refill. -/
def recordAddress (control : SystemControl) (code : ExceptionCode)
    (address : DoubleWord) : SystemControl :=
  if code.recordsAddress then
    let control := control.set SystemControl.badVAddr address
    if code.isTlb then
      let context := (control.get SystemControl.context &&& ~~~SystemControl.contextPageBits)
        ||| ((address >>> 9) &&& SystemControl.contextPageBits)
      let entryHi := (address &&& ~~~0x1fff) ||| (control.get SystemControl.entryHi &&& 0xff)
      (control.set SystemControl.context context).set SystemControl.entryHi entryHi
    else control
  else control

/-- Enters the exception handler. While an exception is handled already, the return address is
kept, and a refill uses the general vector. -/
def raise (state : CpuState) (exception : ExceptionDescriptor) : CpuState :=
  let control := state.control
  let nested := control.exceptionLevel
  let returning := if nested then control else control.set SystemControl.epc exception.pc
  let caused := returning.set SystemControl.cause (raisedCause control exception)
  let addressed := match exception.cause.badAddress with
    | some address => recordAddress caused exception.cause.code address
    | none => caused
  let entered := addressed.set SystemControl.status
    (addressed.get SystemControl.status ||| SystemControl.exceptionLevelBit)
  let base : DoubleWord :=
    if entered.bootVectors then 0xffffffffbfc00200 else 0xffffffff80000000
  let offset : DoubleWord := if exception.cause.refill && !nested then 0 else 0x180
  { state with pc := base + offset, control := entered }

/-- Leaves the exception handler: the address to continue at, and the state with its level
cleared and no linked load. The program counter is left to the caller. -/
def leaveException (state : CpuState) : DoubleWord × CpuState :=
  let control := state.control
  let status := control.get SystemControl.status
  if control.errorLevel then
    (control.get SystemControl.errorEpc,
      { state with
        llBit := false
        control := control.set SystemControl.status (status &&& ~~~SystemControl.errorLevelBit) })
  else
    (control.get SystemControl.epc,
      { state with
        llBit := false
        control :=
          control.set SystemControl.status (status &&& ~~~SystemControl.exceptionLevelBit) })

end CpuState

end MipsRecompiler
