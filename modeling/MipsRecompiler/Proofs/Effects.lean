import MipsRecompiler.HostCode.Execute

/-!
# What running code can do to itself

Most of what a block does cannot change the words that instructions are fetched from, nor how
their addresses translate. What can is named here, once for blocks of values and once for host
code, so that both can be compared by the list of it that a run leaves behind.
-/

set_option autoImplicit false

namespace MipsRecompiler

/-- What may change the code of the guest, or where it is fetched from. -/
inductive Effect where
  | store (size : AccessSize)
  /-- The system control registers, from an entry of the table. -/
  | tlbRead
  | tlbWrite
  | control (reg : RegisterNumber)
  deriving DecidableEq, Repr

/-- An effect that a run had: the machine before it, and the one behind it. -/
structure Event (β : Type) where
  effect : Effect
  before : Machine β
  after : Machine β

/-- Nothing changed but what the effect names: memory by a store, and anything else by others. Of
the system control registers, only EntryHi has a say in how addresses translate. -/
def Event.Confined {β : Type} (event : Event β) : Prop :=
  match event.effect with
  | .store _ => event.after = { event.before with bus := event.after.bus }
  | .control reg => event.after.bus = event.before.bus ∧ event.after.tlb = event.before.tlb ∧
      (reg ≠ SystemControl.entryHi →
        event.after.cpu.control.addressSpace = event.before.cpu.control.addressSpace)
  | _ => event.after.bus = event.before.bus

namespace Effect

def ofRoutine? : Ir.Routine → Option Effect
  | .moveToControl reg _ => some (.control (Ir.selectedRegister reg))
  | .tlbRead => some .tlbRead
  | .tlbWriteIndexed | .tlbWriteRandom => some .tlbWrite
  | .storeLeft size | .storeRight size | .storeConditional size => some (.store size)
  | _ => none

def ofField? : Ir.StateField → Option Effect
  | .control reg => some (.control (Ir.selectedRegister reg))
  | .hi | .lo | .fcr31 => none

def ofKind? : Ir.Kind → Option Effect
  | .store size _ _ => some (.store size)
  | .storeState field _ => ofField? field
  | .call routine _ => ofRoutine? routine
  | _ => none

def ofHostOp? {σ φ : Type} : HostCode.HostOp σ φ → Option Effect
  | .store size _ _ => (AccessSize.ofBytes? size.toNat).map .store
  | .storeState field _ => ofField? field
  | .call code _ _ _ => code.routine?.bind ofRoutine?
  | _ => none

/-- The events of one step of a run: one if the step has an effect. -/
def events {β : Type} (effect : Option Effect) (before after : Machine β) : List (Event β) :=
  (effect.map fun effect => ⟨effect, before, after⟩).toList

@[simp] theorem events_none {β : Type} (before after : Machine β) :
    events none before after = [] := rfl

end Effect

namespace HostCode

variable {β : Type} [Bus β]

/-- The effects of operations, up to the one that leaves the block. -/
def Run.events : List Item → Running β → List (Event β)
  | [], _ => []
  | item :: items, running =>
    match item.op with
    | .error _ => []
    | .ok op =>
      match Run.perform item.offset op running with
      | .ok none next =>
        Effect.events (Effect.ofHostOp? op) running.machine next.machine ++ events items next
      | _ => []

/-- The effects that running a block on a machine has, in order. -/
def events (code : List UInt8) (machine : Machine β) : List (Event β) :=
  match Program.read code with
  | .error _ => []
  | .ok program =>
    Run.events program.items { frame := .ofSpillSlots program.spillSlots, machine }

end HostCode

end MipsRecompiler
