import MipsRecompiler.Memory.Bus
import MipsRecompiler.Memory.Tlb

/-!
# The guest machine

The processor, its address map and what is attached to its bus.
-/

set_option autoImplicit false

namespace MipsRecompiler

/-- A guest machine over the memory `β`. -/
structure Machine (β : Type) where
  cpu : CpuState
  tlb : Tlb
  bus : β
  deriving Repr, Inhabited

namespace Machine

variable {β : Type}

def mapCpu (machine : Machine β) (change : CpuState → CpuState) : Machine β :=
  { machine with cpu := change machine.cpu }

/-- Changes the system control registers only. -/
def mapControl (machine : Machine β) (change : SystemControl → SystemControl) : Machine β :=
  machine.mapCpu fun cpu => { cpu with control := change cpu.control }

def translate (machine : Machine β) (address : DoubleWord) (access : AccessKind)
    (size : AccessSize) : Except Fault Word :=
  machine.tlb.translate machine.cpu.control address access size

def tlbRead (machine : Machine β) : Machine β :=
  machine.mapControl machine.tlb.readIndexed

def tlbWriteIndexed (machine : Machine β) : Machine β :=
  { machine with tlb := machine.tlb.writeIndexed machine.cpu.control }

def tlbWriteRandom (machine : Machine β) : Machine β :=
  let (tlb, control) := machine.tlb.writeRandom machine.cpu.control
  { machine with tlb, cpu := { machine.cpu with control } }

def tlbProbe (machine : Machine β) : Machine β :=
  machine.mapControl machine.tlb.probe

def raise (machine : Machine β) (exception : ExceptionDescriptor) : Machine β :=
  machine.mapCpu (·.raise exception)

end Machine

/-! ## Actions on a state -/

section State

variable {ε σ α τ : Type}

theorem getState (state : σ) : (get : EStateM ε σ σ) state = .ok state state := rfl

theorem modifyState (change : σ → α × σ) (state : σ) :
    (modifyGet change : EStateM ε σ α) state = .ok (change state).1 (change state).2 := rfl

theorem bindState_ok {first : EStateM ε σ α} {state after : σ} {value : α}
    (runs : first state = .ok value after) (rest : α → EStateM ε σ τ) :
    (first >>= rest) state = rest value after := by
  simp only [bind, EStateM.bind, runs]

theorem bindState_error {first : EStateM ε σ α} {state after : σ} {reason : ε}
    (fails : first state = .error reason after) (rest : α → EStateM ε σ τ) :
    (first >>= rest) state = .error reason after := by
  simp only [bind, EStateM.bind, fails]

end State

end MipsRecompiler
