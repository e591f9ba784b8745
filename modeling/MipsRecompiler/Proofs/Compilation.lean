import MipsRecompiler.Engine.Compile
import MipsRecompiler.Proofs.Allocation.Interference
import MipsRecompiler.Proofs.CodeUnit.Fetching
import MipsRecompiler.Proofs.Emission.Unit
import MipsRecompiler.Proofs.HostCode.Refinement
import MipsRecompiler.Proofs.Ir.DeadCode

/-!
# Compiled units

The host code of a unit does what the interpreter does with the unit: it takes as many steps as it
says, and leaves the machine as they leave it. That holds on every machine on which the unit is
current, as long as the unit spares itself.
-/

set_option autoImplicit false

namespace MipsRecompiler

open Interpreter (Steps)
open Ir (GuestRegister)
open Emission (Progress Sound Shows Stage Ends Fetchable)

variable {β : Type} [Bus β] {codeUnit : CodeUnit} {configuration : Configuration}

/-! ## The block of a unit -/

namespace Emission

omit [Bus β] in
private theorem binding?_empty (reg : GuestRegister) :
    Progress.empty.draft.binding? reg = none := by
  simp [Progress.empty, Ir.Draft.binding?, Ir.Draft.empty]

omit [Bus β] in
theorem Sound.empty (start : Machine β) : Sound .empty (.between start none) where
  formed := Ir.Block.WellFormed.empty
  bound reg id bound := by
    rw [binding?_empty] at bound
    cases bound
  zero := binding?_empty _
  known := nofun
  targets := nofun

omit [Bus β] in
theorem Shows.empty {start : Machine β} (zero : start.cpu.readGpr 0 = 0) :
    Shows start .empty (.between start none) (.start start) where
  machine := rfl
  bound reg id bound := by
    rw [binding?_empty] at bound
    cases bound
  free _ _ := rfl
  loaded reg id defined := absurd defined.lt_bound (Nat.not_lt_zero id)
  known := nofun
  zero := zero
  usable := nofun
  exitPc := rfl
  exitSet := rfl

end Emission

namespace CodeUnit

theorem emit_ok {block : Ir.Block} (nonempty : codeUnit.instructions ≠ [])
    (emits : codeUnit.emit configuration = .ok block) :
    ∃ final, Emission.emitAll configuration codeUnit.delaySlotFault 0 codeUnit.instructions
      .empty = .ok () final ∧ block = (Emission.finish codeUnit.endPc final).block := by
  rw [emit, if_neg (by simpa using nonempty)] at emits
  split at emits
  · rename_i final emitted
    cases emits
    exact ⟨final, emitted, rfl⟩
  · cases emits

theorem compile_ok {platform : Platform} {compilation : Compilation}
    (compiles : codeUnit.compile configuration platform = .ok compilation) :
    compilation.codeUnit = codeUnit ∧ ∃ emitted, codeUnit.emit configuration = .ok emitted ∧
      compilation.block = emitted.optimize.2 ∧
      Allocation.ofBlock compilation.block platform = .ok compilation.allocation ∧
      HostCode.encode compilation.block compilation.allocation
        (BitVec.ofNat 32 codeUnit.length) = (compilation.code, none) := by
  rw [compile] at compiles
  cases emits : codeUnit.emit configuration with
  | error reason =>
      rw [emits] at compiles
      cases compiles
  | ok emitted =>
      rw [emits] at compiles
      dsimp only [bind, Except.bind] at compiles
      generalize optimized : emitted.optimize.2 = block at compiles
      cases allocated : Allocation.ofBlock block platform with
      | error reason =>
          rw [allocated] at compiles
          cases compiles
      | ok allocation =>
          rw [allocated] at compiles
          dsimp only at compiles
          split at compiles
          · rename_i code encoded
            cases compiles
            exact ⟨rfl, emitted, rfl, optimized.symm, allocated, encoded⟩
          · cases compiles

/-- The host code of a unit does what its block says, and has the same effects. -/
theorem compile_refines {kind : PlatformKind} {compilation : Compilation}
    (compiles : codeUnit.compile configuration kind.platform = .ok compilation) :
    ∃ block, codeUnit.emit configuration = .ok block ∧ (block.WellFormed →
      ∀ machine : Machine β, (∀ count after,
        block.evaluate (BitVec.ofNat 32 codeUnit.length) machine = some (count, after) →
        HostCode.execute compilation.code machine = (.ok count, after)) ∧
      HostCode.events compilation.code machine = block.events machine) := by
  obtain ⟨-, block, emits, optimized, allocated, encoded⟩ := compile_ok compiles
  refine ⟨block, emits, fun formed machine => ?_⟩
  obtain ⟨equivalent, reduces⟩ := Ir.Block.optimize_improves formed.lowerable.ordered
  rw [← optimized] at equivalent reduces
  have sound := Allocation.ofBlock_sound (Allocation.distinct_platform kind) allocated
  have refines :=
    HostCode.execute_of_evaluate (reduces.lowerable formed.lowerable) sound encoded machine
  rw [equivalent.evaluate, equivalent.events] at refines
  exact refines

variable [LawfulBus β] {tlb : Tlb} {control : SystemControl} {bus : β}

omit [LawfulBus β] in
private theorem Current.fetchable {machine : Machine β} (current : codeUnit.Current machine) :
    Fetchable codeUnit.instructions codeUnit.endPc codeUnit.delaySlotFault machine :=
  ⟨fun entry member => ⟨current.mapped.places entry member, current.unwritten entry member⟩,
    current.mapped.missing⟩

theorem emit_wellFormed {block : Ir.Block}
    (legal : ∀ entry ∈ codeUnit.instructions,
      entry.inst.legal entry.pc = .ok (entry.form, entry.operation))
    (emits : codeUnit.emit configuration = .ok block) (machine : Machine β)
    (full : machine.cpu.control.fullFloatRegisters = configuration.fullFloatRegisters) :
    block.WellFormed := by
  by_cases empty : codeUnit.instructions = []
  · rw [emit, if_pos (by simp [empty])] at emits
    cases emits
    exact .empty
  · obtain ⟨final, emitted, rfl⟩ := emit_ok empty emits
    have appends := Emission.emitAll_appends full legal emitted (.empty machine)
    exact Emission.finish_formed codeUnit.endPc appends.2

private def guestWith (configuration : Configuration) : Machine Ram :=
  let status : DoubleWord := if configuration.fullFloatRegisters then 0x04000000 else 0
  { cpu := { CpuState.reset with
      control := SystemControl.reset.set SystemControl.status status }
    tlb := .reset, bus := .ofSize 0 }

private theorem guestWith_full (configuration : Configuration) :
    (guestWith configuration).cpu.control.fullFloatRegisters =
      configuration.fullFloatRegisters := by
  obtain ⟨full⟩ := configuration
  cases full <;> decide

omit [Bus β] [LawfulBus β] in
/-- The block of a unit that was formed is well-formed, whatever the bus does. -/
theorem form_wellFormed [Bus β] {startPc : DoubleWord} {startPhysical : Word} {after : β}
    (forms : form tlb control startPc startPhysical bus = .ok codeUnit after) {block : Ir.Block}
    (emits : codeUnit.emit configuration = .ok block) : block.WellFormed := by
  have legal : ∀ entry ∈ codeUnit.instructions,
      entry.inst.legal entry.pc = .ok (entry.form, entry.operation) := fun entry member =>
    (classify_ok (form_classified forms entry member)).1
  exact emit_wellFormed legal emits (guestWith configuration) (guestWith_full configuration)

theorem Formed.emit_formed (formed : codeUnit.Formed tlb control bus) {block : Ir.Block}
    (emits : codeUnit.emit configuration = .ok block) {machine : Machine β}
    (full : machine.cpu.control.fullFloatRegisters = configuration.fullFloatRegisters) :
    block.WellFormed :=
  emit_wellFormed formed.chain.legal emits machine full

/-- The block of a unit is left behind as many steps of the interpreter as it counts. -/
theorem Formed.evaluates (formed : codeUnit.Formed tlb control bus) {block : Ir.Block}
    (emits : codeUnit.emit configuration = .ok block) {machine : Machine β}
    (zero : machine.cpu.readGpr 0 = 0) (stands : machine.cpu.pc = codeUnit.startPc)
    (full : machine.cpu.control.fullFloatRegisters = configuration.fullFloatRegisters)
    (current : codeUnit.Current machine)
    (spares : ∀ event ∈ block.events machine, event.Spares codeUnit) :
    ∃ count after,
      block.evaluate (BitVec.ofNat 32 codeUnit.length) machine = some (count, after) ∧
      1 ≤ count.toNat ∧ Steps count.toNat ⟨machine, none⟩ ⟨after, none⟩ := by
  obtain ⟨final, emitted, rfl⟩ := emit_ok formed.chain.nonempty emits
  have limit := formed.length
  simp only [maxLength] at limit
  have small {steps : Nat} (few : steps ≤ codeUnit.length + 1) :
      (BitVec.ofNat 32 steps).toNat = steps := by
    rw [BitVec.toNat_ofNat]
    exact Nat.mod_eq_of_lt (by omega)
  obtain ⟨-, sound⟩ := Emission.emitAll_appends full formed.chain.legal emitted (.empty machine)
  obtain ⟨more, values⟩ := Emission.finish_appends codeUnit.endPc sound
  have steady : ∀ values state, values <+: final.draft.block.values →
      Ir.evaluateAll values (.start machine) = .next state →
      Fetchable codeUnit.instructions codeUnit.endPc codeUnit.delaySlotFault state.machine := by
    rintro early state ⟨late, whole⟩ reaches
    have ends : (Ir.evaluateAll early (.start machine)).Ends fun machine =>
        codeUnit.Current machine := by
      refine Ir.evaluateAll_ends (fun _ _ quiet there => there.quiet quiet) ?_ current
      intro event member there
      have listed : event ∈ (Emission.finish codeUnit.endPc final).block.events machine := by
        rw [Ir.Block.events, values, ← whole, List.append_assoc]
        exact Ir.events_append_subset _ member
      exact there.spared (Ir.events_confined _ _ event member) (spares event listed)
    rw [reaches] at ends
    exact Current.fetchable ends
  have ends := Emission.emitAll_runs formed.chain rfl steady full full emitted (.empty machine)
    rfl (.empty zero) stands
  rcases ends with ⟨count, after, some, few, leaves, steps⟩ |
    ⟨reached, guest, exit, reaches, shows, steps⟩
  · rw [Nat.zero_add] at leaves
    refine ⟨_, after, Emission.finish_evaluates_left _ _ sound leaves, ?_, ?_⟩ <;> rw [small few]
    · exact some
    · exact steps
  · refine ⟨_, _, Emission.finish_evaluates _ _ sound reaches shows, ?_, ?_⟩ <;>
      rw [small (Nat.le_succ _)]
    · exact List.length_pos_iff.mpr formed.chain.nonempty
    · exact steps

/-- The host code of a unit takes as many steps of the interpreter as it counts. -/
theorem Formed.executes (formed : codeUnit.Formed tlb control bus) {kind : PlatformKind}
    {compilation : Compilation}
    (compiles : codeUnit.compile configuration kind.platform = .ok compilation)
    {machine : Machine β} (zero : machine.cpu.readGpr 0 = 0)
    (stands : machine.cpu.pc = codeUnit.startPc)
    (full : machine.cpu.control.fullFloatRegisters = configuration.fullFloatRegisters)
    (current : codeUnit.Current machine)
    (spares : ∀ event ∈ HostCode.events compilation.code machine, event.Spares codeUnit) :
    ∃ count after, HostCode.execute compilation.code machine = (.ok count, after) ∧
      1 ≤ count.toNat ∧ Steps count.toNat ⟨machine, none⟩ ⟨after, none⟩ := by
  obtain ⟨block, emits, refines⟩ := compile_refines (β := β) compiles
  obtain ⟨executes, events⟩ := refines (formed.emit_formed emits full) machine
  rw [events] at spares
  obtain ⟨count, after, evaluates, rest⟩ := formed.evaluates emits zero stands full current spares
  exact ⟨count, after, executes count after evaluates, rest⟩

end CodeUnit

/-! ## The unit at the program counter -/

/-- Whatever unit is formed and compiled at the program counter of a machine, running its code is
taking that many steps of the interpreter, none of which fails, and the last of which leaves no
delay slot behind. -/
theorem compiled_unit_agrees {machine : Machine Ram} {physical : Word} {codeUnit : CodeUnit}
    {bus : Ram} {kind : PlatformKind} {compilation : Compilation}
    (zero : machine.cpu.readGpr 0 = 0)
    (translates : machine.translate machine.cpu.pc .fetch .word = .ok physical)
    (forms : CodeUnit.form machine.tlb machine.cpu.control machine.cpu.pc physical machine.bus =
      .ok codeUnit bus)
    (compiles : codeUnit.compile (.current machine.cpu.control) kind.platform = .ok compilation)
    (spares : ∀ event ∈ HostCode.events compilation.code machine, event.Spares codeUnit) :
    ∃ count after, HostCode.execute compilation.code machine = (.ok count, after) ∧
      1 ≤ count.toNat ∧
      Interpreter.run none count.toNat {} ⟨machine, none⟩ =
        ({ steps := count.toNat }, ⟨after, none⟩) := by
  have formed := CodeUnit.form_formed translates forms
  obtain ⟨-, stands, -⟩ := CodeUnit.form_ok forms
  obtain ⟨count, after, executes, some, steps⟩ := formed.executes compiles zero stands.symm rfl
    ⟨formed.unwritten, formed.mapped, formed.watched⟩ spares
  refine ⟨count, after, executes, some, ?_⟩
  rw [steps.run, Nat.zero_add]

-- written out, since the instance that would be found tries every address there is
instance (event : Event β) (codeUnit : CodeUnit) : Decidable (event.Spares codeUnit) :=
  match event with
  | ⟨.store _, before, after⟩ => List.decidableBAll
      (fun physical => (Bus.fetch after.bus physical).1 = (Bus.fetch before.bus physical).1)
      codeUnit.sourceWords
  | ⟨.tlbRead, before, after⟩ | ⟨.tlbWrite, before, after⟩ | ⟨.control _, before, after⟩ =>
    List.decidableBAll (fun address => after.translate address .fetch .word =
      before.translate address .fetch .word) codeUnit.fetchAddresses

/-- A guest that stores to memory beside its code, and then makes a system call. -/
def storingGuest : Machine Ram :=
  { cpu := { CpuState.reset with pc := 0xffffffff80000000 }
    tlb := .reset
    bus := ((Ram.ofSize 256).write 0 .word 0xac080040).write 4 .word 0x0000000c }

/-- Whether the code of its unit leaves the words of the unit alone. -/
private def storingSpares : Bool :=
  match CodeUnit.form storingGuest.tlb storingGuest.cpu.control storingGuest.cpu.pc 0
    storingGuest.bus with
  | .error _ _ => false
  | .ok codeUnit _ =>
    match codeUnit.compile (.current storingGuest.cpu.control) PlatformKind.x86_64.platform with
    | .error _ => false
    | .ok compilation =>
      decide (∀ event ∈ HostCode.events compilation.code storingGuest, event.Spares codeUnit)

theorem storing_unit_agrees :
    ∃ codeUnit compilation count after,
      CodeUnit.form storingGuest.tlb storingGuest.cpu.control storingGuest.cpu.pc 0
        storingGuest.bus = .ok codeUnit storingGuest.bus ∧
      codeUnit.compile (.current storingGuest.cpu.control) PlatformKind.x86_64.platform =
        .ok compilation ∧
      HostCode.execute compilation.code storingGuest = (.ok count, after) ∧
      1 ≤ count.toNat ∧
      Interpreter.run none count.toNat {} ⟨storingGuest, none⟩ =
        ({ steps := count.toNat }, ⟨after, none⟩) := by
  have computes : storingSpares = true := by decide +kernel
  unfold storingSpares at computes
  cases forms : CodeUnit.form storingGuest.tlb storingGuest.cpu.control storingGuest.cpu.pc 0
      storingGuest.bus with
  | error reason bus =>
      rw [forms] at computes
      cases computes
  | ok codeUnit bus =>
      obtain ⟨rfl, -⟩ := CodeUnit.form_ok forms
      rw [forms] at computes
      dsimp only at computes
      cases compiles : codeUnit.compile (.current storingGuest.cpu.control)
          PlatformKind.x86_64.platform with
      | error reason =>
          rw [compiles] at computes
          cases computes
      | ok compilation =>
          rw [compiles] at computes
          obtain ⟨count, after, agrees⟩ := compiled_unit_agrees (by decide) (by decide +kernel)
            forms compiles (of_decide_eq_true computes)
          exact ⟨codeUnit, compilation, count, after, rfl, compiles, agrees⟩

end MipsRecompiler
