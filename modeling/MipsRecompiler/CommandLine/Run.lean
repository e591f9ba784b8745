import MipsRecompiler.CommandLine.Options
import MipsRecompiler.Engine.Step
import MipsRecompiler.Interpreter.Step

/-!
# Running a program image

The image is loaded into memory and run block by block. With a comparison the interpreter
executes the same number of instructions after every block, and the first difference ends the
run.
-/

set_option autoImplicit false

namespace MipsRecompiler.CommandLine

def memorySize : Nat := 8388608

/-- The virtual address at which physical memory can be reached without the TLB. -/
def directSegment : DoubleWord := 0xffffffff80000000

/-- Why a run fails. Listings show the last compiled block. -/
inductive Failure where
  | imageTooLarge (size : Nat) (base : Word)
  | block (step : Nat) (pc : DoubleWord) (listing : List String) (reason : RecompilerError)
  | interpreter (pc : DoubleWord) (reason : InterpreterError)
  | disagreement (difference : List String) (listing : List String)

/-- The lines of the report, headed by the failure and followed by its cause. A listing of a
block ends with a line break of its own. -/
def Failure.lines : Failure → List String
  | imageTooLarge size base =>
    ["Error: " ++ toString size ++ " byte image doesn't fit in RDRAM at " ++ Text.hex base.toNat]
  | block step pc listing reason =>
    ["Error: block " ++ toString step ++ " at " ++ Text.hex pc.toNat] ++ listing ++
      causedBy reason.message
  | interpreter pc reason =>
    ["Error: interpreter stopped at " ++ Text.hex pc.toNat] ++ causedBy reason.message
  | disagreement difference listing =>
    ("Error: recompiler and interpreter disagree: " ++ difference.headD "") ::
      difference.drop 1 ++ listing
where
  causedBy (reason : String) : List String :=
    ["", "Caused by:", "    " ++ reason]

def listingOf (recompiler : Recompiler) : List String :=
  match recompiler.last with
  | some _ => recompiler.dump ++ [""]
  | none => recompiler.dump

/-- A processor state on one line, all numbers in hexadecimal without mark. -/
def stateText (cpu : CpuState) : String :=
  let digits {width : Nat} (value : BitVec width) : String := Text.hexDigits value.toNat
  let listed (values : RegisterFile) : String :=
    "[" ++ ", ".intercalate (values.toList.map digits) ++ "]"
  "CpuState \x7b gpr: " ++ listed cpu.gpr ++ ", fgr: " ++ listed cpu.fgr ++
    ", hi: " ++ digits cpu.hi ++ ", lo: " ++ digits cpu.lo ++ ", pc: " ++ digits cpu.pc ++
    ", fcr31: " ++ digits cpu.fcr31 ++ ", llbit: " ++ Text.bool cpu.llBit ++
    ", cop0: Cop0 \x7b regs: " ++ listed cpu.control.regs ++ " \x7d \x7d"

def difference? (recompiled interpreted : Machine Ram) : Option (List String) :=
  let against (what : String) (a b : DoubleWord) : Option (List String) :=
    if a = b then none
    else some [what ++ " " ++ Text.hex a.toNat ++ ", interpreter " ++ Text.hex b.toNat]
  let general := (List.finRange 32).findSome? fun reg =>
    against ("r" ++ toString reg.val) (recompiled.cpu.gpr.read reg) (interpreted.cpu.gpr.read reg)
  let special :=
    if recompiled.cpu = interpreted.cpu then none
    else some ["special registers differ", "jit: " ++ stateText recompiled.cpu,
      "interpreter: " ++ stateText interpreted.cpu]
  let memory := (recompiled.bus.bytes.differences interpreted.bus.bytes).head?.map fun address =>
    ["memory differs at " ++ Text.hex address]
  against "pc" recompiled.cpu.pc interpreted.cpu.pc <|> general <|> special <|> memory

def interpret (count : Nat) (interpreter : Interpreter Ram) : Except Failure (Interpreter Ram) :=
  let (summary, after) := interpreter.run none count {}
  match summary.failure with
  | none => .ok after
  | some reason => .error (.interpreter after.machine.cpu.pc reason)

structure Session where
  engine : Engine Ram
  reference : Option (Interpreter Ram)
  /-- The cycles of all blocks so far. The counter has 64 bits and wraps. -/
  cycles : DoubleWord

namespace Session

def runBlock (session : Session) (step : Nat) : Except Failure Session :=
  match Engine.step session.engine with
  | .error reason engine =>
    .error (.block step engine.machine.cpu.pc (listingOf engine.recompiler) reason)
  | .ok taken engine => do
    let cycles := session.cycles + BitVec.ofNat 64 taken
    match session.reference with
    | none => return { engine, reference := none, cycles }
    | some interpreter =>
      let interpreter ← interpret taken interpreter
      match difference? engine.machine interpreter.machine with
      | some difference => throw (.disagreement difference (listingOf engine.recompiler))
      | none => return { engine, reference := some interpreter, cycles }

def runBlocks : Nat → Nat → Session → Except Failure Session
  | 0, _, session => .ok session
  | count + 1, step, session => do runBlocks count (step + 1) (← session.runBlock step)

def start (options : Options) (image : List UInt8) : Except Failure Session :=
  match (Ram.ofSize memorySize).load? options.base.toNat image with
  | none => .error (.imageTooLarge image.length options.base)
  | some memory =>
    let pc := directSegment ||| options.base.setWidth 64
    let engine := (Engine.ofMemory memory options.settings).editState fun cpu => { cpu with pc }
    let reference : Interpreter Ram := { machine := engine.machine }
    .ok { engine, reference := if options.compare then some reference else none, cycles := 0 }

def report (options : Options) (session : Session) : List String :=
  let engine := session.engine
  let summary := "pc " ++ Text.hex engine.machine.cpu.pc.toNat ++ " after " ++
    toString session.cycles.toNat ++ " cycles"
  summary :: engine.recompiler.statistics.lines ++
    if options.dump then listingOf engine.recompiler else []

end Session

def runImage (options : Options) (image : List UInt8) : Except Failure (List String) := do
  let session ← Session.start options image
  return (← session.runBlocks options.steps 0).report options

end MipsRecompiler.CommandLine
