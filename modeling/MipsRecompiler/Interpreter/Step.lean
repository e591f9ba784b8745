import MipsRecompiler.Interpreter.Execute

/-!
# The interpreter

Runs the guest one instruction at a time. Between a branch and its delay slot the interpreter
remembers where execution continues.
-/

set_option autoImplicit false

namespace MipsRecompiler

inductive InterpreterError where
  | illegal (reason : IllegalInstruction)
  | branchInDelaySlot (pc : DoubleWord)
  deriving DecidableEq, Repr, Inhabited

def InterpreterError.kind : InterpreterError → String
  | illegal reason => reason.kind
  | branchInDelaySlot _ => "BranchInDelaySlot"

def InterpreterError.message : InterpreterError → String
  | illegal reason => reason.message
  | branchInDelaySlot pc =>
    "branch in the delay slot of another branch at " ++ Text.hex pc.toNat

/-- An interpreter together with the machine that it runs. -/
structure Interpreter (β : Type) where
  machine : Machine β
  /-- Where execution continues after the delay slot at the program counter. -/
  delayTarget : Option DoubleWord := none

namespace Interpreter

variable {β : Type}

def inDelaySlot (interpreter : Interpreter β) : Bool :=
  interpreter.delayTarget.isSome

def continueAt (machine : Machine β) (pc : DoubleWord)
    (delayTarget : Option DoubleWord) : Interpreter β :=
  { machine := machine.mapCpu fun cpu => { cpu with pc }, delayTarget }

/-- Executes the instruction at the program counter. After an error the delay slot is
forgotten. -/
def step [Bus β] (interpreter : Interpreter β) : Except InterpreterError Unit × Interpreter β :=
  let pc := interpreter.machine.cpu.pc
  let delayed := interpreter.delayTarget
  match fetchAndPerform pc interpreter.machine with
  | .ok .next machine => (.ok (), continueAt machine (delayed.getD (pc + 4)) none)
  | .ok (.jump target) machine => (.ok (), continueAt machine target none)
  | .ok (.branch target taken likely) machine =>
    if delayed.isSome then (.error (.branchInDelaySlot pc), { machine })
    else if taken then (.ok (), continueAt machine (pc + 4) (some target))
    else if likely then (.ok (), continueAt machine (pc + 8) none)
    else (.ok (), continueAt machine (pc + 4) (some (pc + 8)))
  | .error (.exception cause) machine =>
    let place := if delayed.isSome then pc - 4 else pc
    (.ok (), { machine := machine.raise { cause, pc := place, delaySlot := delayed.isSome } })
  | .error (.illegal reason) machine => (.error (.illegal reason), { machine })

structure RunSummary where
  steps : Nat := 0
  /-- Why the step behind the last one failed, if it did. -/
  failure : Option InterpreterError := none
  deriving DecidableEq, Repr, Inhabited

/-- Runs at most this many steps, and stops before one at the address `stop`. -/
def run [Bus β] (stop : Option DoubleWord) :
    Nat → RunSummary → Interpreter β → RunSummary × Interpreter β
  | 0, summary, interpreter => (summary, interpreter)
  | limit + 1, summary, interpreter =>
    if stop = some interpreter.machine.cpu.pc then (summary, interpreter)
    else
      match interpreter.step with
      | (.error reason, next) => ({ summary with failure := some reason }, next)
      | (.ok (), next) => run stop limit { summary with steps := summary.steps + 1 } next

end Interpreter

end MipsRecompiler
