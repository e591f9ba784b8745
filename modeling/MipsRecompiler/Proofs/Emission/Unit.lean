import MipsRecompiler.Proofs.CodeUnit.Formation
import MipsRecompiler.Proofs.Emission.Instruction
import MipsRecompiler.Proofs.Interpreter.Stepping

/-!
# Whole units

What is emitted for a unit does what as many steps of the interpreter do, as long as the
instructions can still be fetched as they were when the unit was formed.
-/

set_option autoImplicit false

namespace MipsRecompiler.Emission

open Ir
open CodeUnit (Chain)
open Interpreter (Advances Branches Completes Flow Interruption Steps Straight fetchAndPerform)

variable {β : Type} [Bus β]

/-! ## Stages between instructions -/

def Stage.between (guest : Machine β) (exit : Option DoubleWord) : Stage β :=
  { guest, known := [], targets := [], exit }

def movedTo (guest : Machine β) (pc : DoubleWord) : Machine β :=
  guest.mapCpu fun cpu => { cpu with pc }

section Between

omit [Bus β]

theorem Shows.movedTo {start guest : Machine β} {progress : Progress} {state : Evaluation β}
    {exit : Option DoubleWord} (shows : Shows start progress (.between guest exit) state)
    (pc : DoubleWord) : Shows start progress (.between (movedTo guest pc) exit) state :=
  ⟨shows.machine, shows.bound, shows.free, shows.loaded, shows.known, shows.zero, shows.usable,
    shows.exitPc, shows.exitSet⟩

theorem Sound.between {progress : Progress} {stage : Stage β} (sound : Sound progress stage)
    (guest : Machine β) (exit : Option DoubleWord) : Sound progress (.between guest exit) :=
  sound.change (by simp [Stage.between]) (by simp [Stage.between])

end Between

theorem Progress.run_of_left {progress final : Progress} {start machine : Machine β}
    {retired : BitVec 32} {more : List (ValueId × Value)}
    (appends : final.draft.block.values = progress.draft.block.values ++ more)
    (leaves : progress.run start = .left retired machine) :
    final.run start = .left retired machine := by
  rw [Progress.run, appends, Ir.evaluateAll_append, ← Progress.run, leaves]
  rfl

/-! ## One instruction -/

section Instruction

variable [LawfulBus β] {start guest : Machine β} {exit : Option DoubleWord}
  {progress next : Progress}

private theorem emitted_follows (start : Machine β) (place : Place)
    (legal : place.entry.inst.legal place.entry.pc =
      .ok (place.entry.form, place.entry.operation))
    (full : guest.cpu.control.fullFloatRegisters = place.configuration.fullFloatRegisters)
    (emitted : emitInstruction place progress = .ok () next)
    (sound : Sound progress (.between guest exit)) :
    Continues start progress next (.between guest exit)
      ((Stage.between guest exit).behind place.entry.pc
        (Interpreter.perform place.entry.inst place.entry.pc place.entry.form
          place.entry.operation guest))
      (place.leaving (Interpreter.perform place.entry.inst place.entry.pc place.entry.form
        place.entry.operation guest)) := by
  have follows : Follows start place (.between guest exit) emitInstruction _ :=
    emitInstruction_follows (legal_trapsAlone legal) full
  exact follows _ _ _ emitted sound

/-- What an instruction that was emitted comes to when the values are evaluated. -/
def Runs (start : Machine β) (place : Place) (exit : Option DoubleWord) (next : Progress) :
    EStateM.Result Interruption (Machine β) Flow → Prop
  | .ok (.branch _ false true) after =>
    next.run start =
      .left (BitVec.ofNat 32 (place.index + 1)) (movedTo after (place.entry.pc + 8))
  | .ok flow after =>
    ∃ reached, next.run start = .next reached ∧
      Shows start next (.between after (exitOf place.entry.pc exit flow)) reached
  | .error (.exception cause) after =>
    next.run start = .left (BitVec.ofNat 32 (place.index + 1)) (after.raise (place.exception cause))
  | .error (.illegal _) _ => False

theorem emitInstruction_runs (place : Place)
    (legal : place.entry.inst.legal place.entry.pc =
      .ok (place.entry.form, place.entry.operation))
    (full : guest.cpu.control.fullFloatRegisters = place.configuration.fullFloatRegisters)
    (emitted : emitInstruction place progress = .ok () next)
    (sound : Sound progress (.between guest exit)) {state : Evaluation β}
    (reaches : progress.run start = .next state)
    (shows : Shows start progress (.between guest exit) state)
    {finished : Flow → Machine β → Prop}
    (completes : Completes finished (Interpreter.perform place.entry.inst place.entry.pc
      place.entry.form place.entry.operation guest)) :
    Runs start place exit next (Interpreter.perform place.entry.inst place.entry.pc
      place.entry.form place.entry.operation guest) := by
  have ends := (emitted_follows start place legal full emitted sound).runs state reaches shows
  cases result : Interpreter.perform place.entry.inst place.entry.pc place.entry.form
      place.entry.operation guest with
  | ok flow after =>
      rw [result] at ends
      cases flow with
      | next => exact ends
      | jump target => exact ends
      | branch target taken likely => cases taken <;> cases likely <;> exact ends
  | error interruption after =>
      rw [result] at ends completes
      cases interruption with
      | exception cause => exact ends
      | illegal reason => exact completes

end Instruction

/-! ## Ends -/

/-- What evaluating everything comes to, as steps of the interpreter: some of them until the block
is left, or all of them. -/
def Ends (start : Machine β) (final : Progress) (index count : Nat) (first : Interpreter β)
    (endPc : DoubleWord) : Prop :=
  (∃ steps machine, 1 ≤ steps ∧ steps ≤ count + 1 ∧
    final.run start = .left (BitVec.ofNat 32 (index + steps)) machine ∧
    Steps steps first ⟨machine, none⟩) ∨
  ∃ reached guest exit, final.run start = .next reached ∧
    Shows start final (.between guest exit) reached ∧
    Steps count first ⟨movedTo guest (exit.getD endPc), none⟩

section Ends

variable {start guest machine : Machine β} {progress final : Progress} {index count : Nat}
  {first second : Interpreter β} {endPc : DoubleWord} {more : List (ValueId × Value)}

theorem Ends.step (steps : first.step = (.ok (), second))
    (ends : Ends start final (index + 1) count second endPc) :
    Ends start final index (count + 1) first endPc := by
  rcases ends with ⟨taken, machine, some, few, leaves, rest⟩ |
    ⟨reached, guest, exit, reaches, shows, rest⟩
  · refine .inl ⟨taken + 1, machine, by omega, by omega, ?_, .more steps rest⟩
    rw [leaves, Nat.add_assoc, Nat.add_comm 1]
  · exact .inr ⟨reached, guest, exit, reaches, shows, .more steps rest⟩

theorem Ends.of_left
    (appends : final.draft.block.values = progress.draft.block.values ++ more)
    (leaves : progress.run start = .left (BitVec.ofNat 32 (index + 1)) machine)
    (steps : first.step = (.ok (), ⟨machine, none⟩)) :
    Ends start final index (count + 1) first endPc :=
  .inl ⟨1, machine, by omega, by omega, progress.run_of_left appends leaves, .one steps⟩

/-- An instruction that is no branch ends the unit, in a delay slot or not. -/
theorem Ends.of_straight (place : Place) {exit : Option DoubleWord}
    {result : EStateM.Result Interruption (Machine β) Flow}
    (stands : guest.cpu.pc = place.entry.pc) (slot : place.entry.delaySlot = exit.isSome)
    (performs : fetchAndPerform guest.cpu.pc guest = result) (straight : Straight result)
    (runs : Runs start place exit final result) :
    Ends start final place.index 1 ⟨guest, exit⟩ (place.entry.pc + 4) := by
  cases result with
  | ok flow after =>
      cases flow with
      | branch target taken likely => exact absurd rfl (straight target taken likely)
      | next =>
          obtain ⟨reached, reaches, shows⟩ := runs
          refine .inr ⟨reached, after, exit, reaches, shows, .one ?_⟩
          rw [Interpreter.step_next performs, stands]
          rfl
      | jump target =>
          obtain ⟨reached, reaches, shows⟩ := runs
          refine .inr ⟨reached, after, some target, reaches, shows, .one ?_⟩
          rw [Interpreter.step_jump performs]
          rfl
  | error interruption after =>
      cases interruption with
      | illegal reason => exact absurd straight id
      | exception cause =>
          refine .of_left (List.append_nil _).symm runs ?_
          rw [Interpreter.step_exception performs, stands, ← slot]
          rfl

/-- An instruction leaves the block, or the guest goes on to the next instruction, which is in a
delay slot or not. -/
def GoesOn (start : Machine β) (next : Progress) (index : Nat) (guest : Machine β)
    (pc : DoubleWord) (delaySlot : Bool) : Prop :=
  (∃ machine, next.run start = .left (BitVec.ofNat 32 (index + 1)) machine ∧
    Interpreter.step ⟨guest, none⟩ = (.ok (), ⟨machine, none⟩)) ∨
  ∃ after exit reached, Machine.SameFloat guest.cpu.control after.cpu.control ∧
    exit.isSome = delaySlot ∧ next.run start = .next reached ∧
    Shows start next (.between (movedTo after (pc + 4)) exit) reached ∧
    Interpreter.step ⟨guest, none⟩ = (.ok (), ⟨movedTo after (pc + 4), exit⟩)

theorem Ends.of_goesOn {next : Progress} {pc : DoubleWord} {delaySlot : Bool}
    (goesOn : GoesOn start next index guest pc delaySlot)
    (appends : final.draft.block.values = next.draft.block.values ++ more)
    (others : ∀ {after exit reached}, Machine.SameFloat guest.cpu.control after.cpu.control →
      exit.isSome = delaySlot → next.run start = .next reached →
      Shows start next (.between (movedTo after (pc + 4)) exit) reached →
      Ends start final (index + 1) count ⟨movedTo after (pc + 4), exit⟩ endPc) :
    Ends start final index (count + 1) ⟨guest, none⟩ endPc := by
  rcases goesOn with ⟨machine, leaves, step⟩ | ⟨after, exit, reached, same, slot, reaches, shows, step⟩
  · exact .of_left appends leaves step
  · exact .step step (others same slot reaches shows)

/-- An exception outside a delay slot leaves the block. -/
private theorem exception_runs {place : Place} {next : Progress} {cause : ExceptionCause}
    {after : Machine β} {delaySlot : Bool} (stands : guest.cpu.pc = place.entry.pc)
    (slot : place.entry.delaySlot = false)
    (performs : fetchAndPerform guest.cpu.pc guest = .error (.exception cause) after)
    (runs : Runs start place none next (.error (.exception cause) after)) :
    GoesOn start next place.index guest place.entry.pc delaySlot := by
  refine .inl ⟨_, runs, ?_⟩
  rw [Interpreter.step_exception performs, stands]
  simp only [Place.exception, Place.exceptionPc, slot]
  rfl

/-- A branch leaves the block, or goes on to its delay slot. -/
private theorem branch_runs {place : Place} {next : Progress}
    {result : EStateM.Result Interruption (Machine β) Flow}
    (stands : guest.cpu.pc = place.entry.pc) (slot : place.entry.delaySlot = false)
    (performs : fetchAndPerform guest.cpu.pc guest = result)
    (branches : Branches guest result) (runs : Runs start place none next result) :
    GoesOn start next place.index guest place.entry.pc true := by
  cases result with
  | error interruption after =>
      cases interruption with
      | illegal reason => exact absurd branches id
      | exception cause => exact exception_runs stands slot performs runs
  | ok flow after =>
      obtain ⟨⟨target, taken, likely, rfl⟩, same⟩ := branches
      have step := Interpreter.step_branch performs
      rw [stands] at step
      cases nullifies : !taken && likely with
      | true =>
          rw [nullifies] at step
          simp only [Bool.and_eq_true, Bool.not_eq_true'] at nullifies
          obtain ⟨rfl, rfl⟩ := nullifies
          exact .inl ⟨_, runs, step⟩
      | false =>
          rw [nullifies] at step
          have goes : ∃ reached, next.run start = .next reached ∧ Shows start next
              (.between after (some (if taken then target else place.entry.pc + 8))) reached := by
            cases taken <;> cases likely <;> first | exact runs | cases nullifies
          obtain ⟨reached, reaches, shows⟩ := goes
          exact .inr ⟨after, _, reached, same, rfl, reaches, shows.movedTo _, step⟩

private theorem inner_runs {place : Place} {next : Progress}
    {result : EStateM.Result Interruption (Machine β) Flow}
    (stands : guest.cpu.pc = place.entry.pc) (slot : place.entry.delaySlot = false)
    (performs : fetchAndPerform guest.cpu.pc guest = result)
    (advances : Advances guest result) (runs : Runs start place none next result) :
    GoesOn start next place.index guest place.entry.pc false := by
  cases result with
  | error interruption after =>
      cases interruption with
      | illegal reason => exact absurd advances id
      | exception cause => exact exception_runs stands slot performs runs
  | ok flow after =>
      obtain ⟨rfl, same⟩ := advances
      obtain ⟨reached, reaches, shows⟩ := runs
      refine .inr ⟨after, none, reached, same, rfl, reaches, shows.movedTo _, ?_⟩
      rw [Interpreter.step_next performs, stands]
      rfl

end Ends

/-! ## A chain of instructions -/

/-- The instructions of a unit can be fetched as they were, and a delay slot that could not be
fetched still cannot. -/
structure Fetchable (entries : List UnitInstruction) (endPc : DoubleWord) (missing : Option Fault)
    (machine : Machine β) : Prop where
  fetches : ∀ entry ∈ entries, machine.translate entry.pc .fetch .word = .ok entry.physical ∧
    (Bus.fetch machine.bus entry.physical).1 = entry.inst.word
  faults : ∀ fault ∈ missing, machine.translate endPc .fetch .word = .error fault

section Chain

variable [LawfulBus β] {tlb : Tlb} {control : SystemControl} {bus : β} {start : Machine β}
  {configuration : Configuration} {fault : Option Fault} {entries : List UnitInstruction}
  {index : Nat} {progress final : Progress}

omit [LawfulBus β] in
theorem emitAll_cons {entry : UnitInstruction} {rest : List UnitInstruction}
    (emitted : emitAll configuration fault index (entry :: rest) progress = .ok () final) :
    ∃ next, emitInstruction ⟨configuration, entry, index⟩ progress = .ok () next ∧
      ((rest ≠ [] ∨ fault = none) ∧
          emitAll configuration fault (index + 1) rest next = .ok () final ∨
        ∃ missing, rest = [] ∧ fault = some missing ∧
          delaySlotFetchFault missing ⟨configuration, entry, index⟩ next = .ok () final) := by
  unfold emitAll at emitted
  cases first : emitInstruction ⟨configuration, entry, index⟩ progress with
  | error reason left =>
      rw [bindState_error first] at emitted
      cases emitted
  | ok value next =>
      rw [bindState_ok first] at emitted
      refine ⟨next, rfl, ?_⟩
      cases rest with
      | cons second rest => exact .inl ⟨.inl (by simp), emitted⟩
      | nil =>
          cases fault with
          | none => exact .inl ⟨.inr rfl, emitted⟩
          | some missing => exact .inr ⟨missing, rfl, rfl, emitted⟩

theorem emitAll_appends
    (full : start.cpu.control.fullFloatRegisters = configuration.fullFloatRegisters)
    (legal : ∀ entry ∈ entries,
      entry.inst.legal entry.pc = .ok (entry.form, entry.operation))
    (emitted : emitAll configuration fault index entries progress = .ok () final)
    (sound : Sound progress (.between start none)) :
    (∃ more, final.draft.block.values = progress.draft.block.values ++ more) ∧
      Sound final (.between start none) := by
  induction entries generalizing index progress with
  | nil =>
      cases emitted
      exact ⟨⟨[], by simp⟩, sound⟩
  | cons entry rest ih =>
      obtain ⟨next, first, others⟩ := emitAll_cons emitted
      have early := emitted_follows start ⟨configuration, entry, index⟩
        (legal entry List.mem_cons_self) full first sound
      have middle := early.sound.between start none
      obtain ⟨some, values⟩ := early.appends
      have late : (∃ more, final.draft.block.values = next.draft.block.values ++ more) ∧
          Sound final (.between start none) := by
        rcases others with ⟨-, others⟩ | ⟨missing, -, -, others⟩
        · exact ih (fun entry member => legal entry (List.mem_cons_of_mem _ member)) others middle
        · have exits : Emits start ⟨configuration, entry, index⟩ (.between start none)
            (delaySlotFetchFault missing) _ _ := Emits.delaySlotFetchFault missing
          have last := exits _ _ _ others middle
          exact ⟨last.appends, last.sound⟩
      obtain ⟨⟨more, rest⟩, sound⟩ := late
      exact ⟨⟨some ++ more, by rw [rest, values, List.append_assoc]⟩, sound⟩

omit [LawfulBus β] in
private theorem Fetchable.tail {endPc : DoubleWord} {guest : Machine β} {entry : UnitInstruction}
    (fetchable : Fetchable (entry :: entries) endPc fault guest) :
    Fetchable entries endPc fault guest :=
  ⟨fun other member => fetchable.fetches other (List.mem_cons_of_mem _ member), fetchable.faults⟩

omit [LawfulBus β] in
private theorem Fetchable.of_shows {endPc : DoubleWord} {guest : Machine β}
    {state : Evaluation β} {exit : Option DoubleWord}
    (there : Fetchable entries endPc fault state.machine)
    (shows : Shows start progress (.between guest exit) state) :
    Fetchable entries endPc fault guest := by
  rw [shows.machine] at there
  exact ⟨there.fetches, there.faults⟩

private theorem Fetchable.performs {endPc pc : DoubleWord} {physical : Word} {delaySlot : Bool}
    {guest : Machine β} {entry : UnitInstruction} (fetchable : Fetchable entries endPc fault guest)
    (listed : entry ∈ entries) (fetched : entry.Fetched bus pc physical delaySlot)
    (stands : guest.cpu.pc = pc) :
    fetchAndPerform guest.cpu.pc guest =
      Interpreter.perform entry.inst entry.pc entry.form entry.operation guest := by
  obtain ⟨translates, word⟩ := fetchable.fetches entry listed
  rw [stands, ← fetched.pc]
  exact Interpreter.fetchAndPerform_eq translates word fetched.legal

private theorem straight_ends {endPc pc : DoubleWord} {physical : Word} {delaySlot : Bool}
    {guest : Machine β} {state : Evaluation β} {exit : Option DoubleWord}
    {entry : UnitInstruction} (fetchable : Fetchable entries endPc fault guest)
    (listed : entry ∈ entries) (fetched : entry.Fetched bus pc physical delaySlot)
    (plain : entry.category.isBranch = false) (slot : delaySlot = exit.isSome)
    (full : guest.cpu.control.fullFloatRegisters = configuration.fullFloatRegisters)
    (emitted : emitInstruction ⟨configuration, entry, index⟩ progress = .ok () final)
    (sound : Sound progress (.between guest exit)) (reaches : progress.run start = .next state)
    (shows : Shows start progress (.between guest exit) state) (stands : guest.cpu.pc = pc) :
    Ends start final index 1 ⟨guest, exit⟩ (pc + 4) := by
  have straight : Straight
      (Interpreter.perform entry.inst entry.pc entry.form entry.operation guest) := by
    exact Interpreter.perform_straight (fetched.isBranch.symm.trans plain)
      (emitInstruction_formatsLegal emitted) guest
  have runs := emitInstruction_runs ⟨configuration, entry, index⟩ fetched.legal full emitted sound
    reaches shows straight
  rw [← fetched.pc]
  exact Ends.of_straight ⟨configuration, entry, index⟩ (stands.trans fetched.pc.symm)
    (fetched.delaySlot.trans slot) (fetchable.performs listed fetched stands) straight runs

/-- An instruction of a chain that does not end it leaves the block, or goes on to the next one. -/
private theorem goesOn {endPc pc : DoubleWord} {physical : Word}
    {guest : Machine β} {state : Evaluation β} {entry : UnitInstruction} {next : Progress}
    (fetchable : Fetchable entries endPc fault guest) (listed : entry ∈ entries)
    (fetched : entry.Fetched bus pc physical false)
    (inside : entry.category.isBranch = false → entry.category ≠ .blockEnder)
    (full : guest.cpu.control.fullFloatRegisters = configuration.fullFloatRegisters)
    (emitted : emitInstruction ⟨configuration, entry, index⟩ progress = .ok () next)
    (sound : Sound progress (.between guest none)) (reaches : progress.run start = .next state)
    (shows : Shows start progress (.between guest none) state) (stands : guest.cpu.pc = pc) :
    GoesOn start next index guest pc entry.category.isBranch := by
  let place : Place := ⟨configuration, entry, index⟩
  have performs := fetchable.performs listed fetched stands
  have slotless : place.entry.delaySlot = false := fetched.delaySlot
  rw [← fetched.pc] at stands ⊢
  cases branches : entry.category.isBranch with
  | true =>
      have through : Branches guest
          (Interpreter.perform entry.inst entry.pc entry.form entry.operation guest) :=
        Interpreter.perform_branches (fetched.isBranch.symm.trans branches) guest
      exact branch_runs stands slotless performs through
        (emitInstruction_runs place fetched.legal full emitted sound reaches shows through)
  | false =>
      have advances : Advances guest
          (Interpreter.perform entry.inst entry.pc entry.form entry.operation guest) :=
        Interpreter.perform_advances (fetched.isBranch.symm.trans branches)
          (by rw [← fetched.category]; exact inside branches) (emitInstruction_formatsLegal emitted)
          guest
      exact inner_runs stands slotless performs advances
        (emitInstruction_runs place fetched.legal full emitted sound reaches shows advances)

omit [LawfulBus β] in
private theorem slotFault_ends {endPc : DoubleWord} {missing : Fault} {guest : Machine β}
    {exit : Option DoubleWord} {state : Evaluation β} {branch : UnitInstruction}
    (fetchable : Fetchable entries endPc (some missing) guest) (behind : endPc = branch.pc + 4)
    (stands : guest.cpu.pc = endPc) (slot : exit.isSome = true)
    (emitted : delaySlotFetchFault missing ⟨configuration, branch, index⟩ progress =
      .ok () final)
    (sound : Sound progress (.between guest exit)) (reaches : progress.run start = .next state)
    (shows : Shows start progress (.between guest exit) state) :
    Ends start final (index + 1) 0 ⟨guest, exit⟩ endPc := by
  have exits : Emits start ⟨configuration, branch, index⟩ (.between guest exit)
    (delaySlotFetchFault missing) _ _ := Emits.delaySlotFetchFault missing
  have leaves := (exits _ _ _ emitted sound).runs state reaches shows
  have faults : fetchAndPerform guest.cpu.pc guest =
      .error (.exception (.ofFault missing)) guest :=
    Interpreter.fetchAndPerform_fault (stands ▸ fetchable.faults missing rfl)
  have back : guest.cpu.pc - 4 = branch.pc := by
    rw [stands, behind]
    exact BitVec.add_sub_cancel branch.pc 4
  refine .inl ⟨1, _, by omega, by omega, leaves, .one ?_⟩
  rw [Interpreter.step_exception faults]
  simp only [slot, if_true, back]
  rfl

/-- Evaluating what was emitted for a chain takes the steps of its instructions. -/
theorem emitAll_runs {pc : DoubleWord} {physical : Word} {endPc : DoubleWord}
    {guest : Machine β} {state : Evaluation β}
    (chain : Chain tlb control bus pc physical entries fault)
    (behind : endPc = pc + BitVec.ofNat 64 (4 * entries.length))
    (steady : ∀ values state, values <+: final.draft.block.values →
      evaluateAll values (.start start) = .next state → Fetchable entries endPc fault state.machine)
    (startFull : start.cpu.control.fullFloatRegisters = configuration.fullFloatRegisters)
    (full : guest.cpu.control.fullFloatRegisters = configuration.fullFloatRegisters)
    (emitted : emitAll configuration fault index entries progress = .ok () final)
    (sound : Sound progress (.between guest none))
    (reaches : progress.run start = .next state)
    (shows : Shows start progress (.between guest none) state) (stands : guest.cpu.pc = pc) :
    Ends start final index entries.length ⟨guest, none⟩ endPc := by
  induction chain generalizing index progress guest state with
  | @last pc physical entry fetched plain =>
      obtain ⟨next, first, ⟨-, others⟩ | ⟨_, -, missing, -⟩⟩ := emitAll_cons emitted
      · cases others
        obtain ⟨more, values⟩ := (emitted_follows start ⟨configuration, entry, index⟩
          fetched.legal full first sound).appends
        have now := (steady _ _ ⟨more, values.symm⟩ reaches).of_shows shows
        rw [behind]
        exact straight_ends now List.mem_cons_self fetched plain rfl full first sound reaches shows
          stands
      · cases missing
  | @next pc physical entry rest fault fetched plain inside samePage chain ih =>
      obtain ⟨next, first, ⟨-, others⟩ | ⟨_, empty, -, -⟩⟩ := emitAll_cons emitted
      · have continues := emitted_follows start ⟨configuration, entry, index⟩ fetched.legal full
          first sound
        obtain ⟨some, values⟩ := continues.appends
        obtain ⟨⟨more, later⟩, -⟩ := emitAll_appends startFull chain.legal others
          (continues.sound.between start none)
        have now := (steady _ _ ⟨some ++ more, by rw [later, values, List.append_assoc]⟩
          reaches).of_shows shows
        refine .of_goesOn (goesOn now List.mem_cons_self fetched (fun _ => inside) full first sound
          reaches shows stands) later fun same slot reachesNext showsNext => ?_
        cases Option.not_isSome_iff_eq_none.mp (by rw [slot, plain]; exact Bool.false_ne_true)
        refine ih ?_ ?_ (same.full.trans full) others (continues.sound.between _ _) reachesNext
          showsNext rfl
        · rw [behind, List.length_cons, CodeUnit.endPc_succ]
        · exact fun values state listed goes => (steady values state listed goes).tail
      · exact absurd empty chain.nonempty
  | @slot pc physical target branch slot fetched branches found slotFetched plain =>
      obtain ⟨next, first, ⟨-, others⟩ | ⟨_, empty, -, -⟩⟩ := emitAll_cons emitted
      · have continues := emitted_follows start ⟨configuration, branch, index⟩ fetched.legal full
          first sound
        obtain ⟨some, values⟩ := continues.appends
        obtain ⟨⟨more, later⟩, -⟩ := emitAll_appends startFull
          (List.forall_mem_singleton.mpr slotFetched.legal) others
          (continues.sound.between start none)
        have now := (steady _ _ ⟨some ++ more, by rw [later, values, List.append_assoc]⟩
          reaches).of_shows shows
        have two : endPc = pc + 4 + 4 := behind.trans (CodeUnit.endPc_succ pc 1)
        refine .of_goesOn (goesOn now List.mem_cons_self fetched (by simp [branches]) full first
          sound reaches shows stands) later fun same jumps reachesNext showsNext => ?_
        obtain ⟨last, second, ⟨-, nothing⟩ | ⟨_, -, missing, -⟩⟩ := emitAll_cons others
        · cases nothing
          have nowNext := (steady _ _ ⟨more, later.symm⟩ reachesNext).of_shows showsNext
          rw [two]
          exact straight_ends nowNext (List.mem_cons_of_mem _ List.mem_cons_self) slotFetched plain
            (jumps.trans branches).symm (same.full.trans full) second (continues.sound.between _ _)
            reachesNext showsNext rfl
        · cases missing
      · cases empty
  | @fault pc physical branch fault fetched branches missing =>
      obtain ⟨next, first, ⟨never | never, -⟩ | ⟨_, -, is, others⟩⟩ := emitAll_cons emitted
      · exact absurd rfl never
      · cases never
      · cases is
        have continues := emitted_follows start ⟨configuration, branch, index⟩ fetched.legal full
          first sound
        obtain ⟨some, values⟩ := continues.appends
        have exits : Emits start ⟨configuration, branch, index⟩ (.between guest none)
          (delaySlotFetchFault fault) _ _ := Emits.delaySlotFetchFault fault
        obtain ⟨more, later⟩ := (exits _ _ _ others (continues.sound.between guest none)).appends
        have now := (steady _ _ ⟨some ++ more, by rw [later, values, List.append_assoc]⟩
          reaches).of_shows shows
        have one : endPc = pc + 4 := behind
        refine .of_goesOn (goesOn now List.mem_cons_self fetched (by simp [branches]) full first
          sound reaches shows stands) later fun same jumps reachesNext showsNext => ?_
        have nowNext := (steady _ _ ⟨more, later.symm⟩ reachesNext).of_shows showsNext
        exact slotFault_ends nowNext (by rw [one, fetched.pc]) one.symm (jumps.trans branches) others
          (continues.sound.between _ _) reachesNext showsNext

end Chain

/-! ## The end of the block -/

section Finish

private theorem fits_plain {block : Block} {kind : Kind}
    (operands : ∀ used ∈ kind.operands, block.Defined used) (field : kind.field? = none)
    (store : kind.target? = none) :
    block.Fits block.bound ⟨kind, none⟩ where
  uses used member := by
    rcases List.mem_append.mp member with operand | flushed
    · exact ⟨(operands used operand).lt_bound, operands used operand⟩
    · cases flushed
  flush := nofun
  field reg is := by
    rw [field] at is
    cases is
  store target is := by
    rw [store] at is
    cases is

private def flushAll (draft : Draft) (entries : List (GuestRegister × ValueId)) : Draft :=
  entries.foldl (fun draft (reg, value) => (draft.push (.flushRegister reg value)).2) draft

private theorem flushAll_spec {draft : Draft} {entries : List (GuestRegister × ValueId)}
    (formed : draft.block.WellFormed) (defined : ∀ entry ∈ entries, draft.block.Defined entry.2) :
    (flushAll draft entries).block.WellFormed ∧
      ∃ more, (flushAll draft entries).block.values = draft.block.values ++ more ∧
        ∀ state : Evaluation β,
          evaluateAll more state = .next { state with machine := state.flush entries } := by
  induction entries generalizing draft with
  | nil => exact ⟨formed, [], by simp [flushAll], fun _ => rfl⟩
  | cons entry rest ih =>
      obtain ⟨reg, id⟩ := entry
      have known := defined _ List.mem_cons_self
      have fits : draft.block.Fits draft.block.bound ⟨.flushRegister reg id, none⟩ :=
        fits_plain (by simpa [Kind.operands] using known) rfl rfl
      have later : ∀ entry ∈ rest, (draft.push (.flushRegister reg id)).2.block.Defined entry.2 :=
        fun entry member => (defined entry (List.mem_cons_of_mem _ member)).push _
      have longer : (draft.push (.flushRegister reg id)).2.block.WellFormed := formed.push fits
      obtain ⟨formed, more, values, evaluates⟩ := ih longer later
      refine ⟨formed, (draft.block.bound, ⟨.flushRegister reg id, none⟩) :: more, ?_, ?_⟩
      · have pushed : (draft.push (.flushRegister reg id)).2.block.values =
            draft.block.values ++ [(draft.block.bound, ⟨.flushRegister reg id, none⟩)] :=
          Block.values_push _ _
        rw [pushed, List.append_assoc] at values
        exact values
      · intro state
        exact evaluates _

variable {start guest : Machine β} {progress : Progress} {exit : Option DoubleWord}

/-- The end of a block: where the guest continues, behind the registers that are written back. -/
private theorem finish_spec (endPc : DoubleWord) (sound : Sound progress (.between start none)) :
    (finish endPc progress).block.WellFormed ∧
      ∃ more, (finish endPc progress).block.values = progress.draft.block.values ++ more ∧
        ∀ state : Evaluation β, state.exitPc.isSome = progress.exitPcSet → ∃ after,
          evaluateAll more state = .next after ∧
            after.exitPc = some (state.exitPc.getD endPc) ∧
            after.machine = state.flush progress.draft.flushList := by
  have defined : ∀ entry ∈ progress.draft.flushList, progress.draft.block.Defined entry.2 :=
    fun entry member => sound.bound _ _ (mem_flushList.mp member).1
  obtain ⟨formed, more, values, evaluates⟩ := flushAll_spec (β := β) sound.formed defined
  have is : finish endPc progress =
      if progress.exitPcSet then flushAll progress.draft progress.draft.flushList
      else (((flushAll progress.draft progress.draft.flushList).constant .u64 endPc).2.push
        (.setExitPc (flushAll progress.draft progress.draft.flushList).block.bound)).2 := rfl
  rw [is]
  generalize flushAll progress.draft progress.draft.flushList = flushed at formed values
  cases progress.exitPcSet with
  | true =>
      refine ⟨formed, more, values, fun state said => ⟨_, evaluates state, ?_, rfl⟩⟩
      obtain ⟨target, is⟩ := Option.isSome_iff_exists.mp said
      simp [is]
  | false =>
      let number : Value := ⟨.constant .u64 (ValueType.u64.cast endPc), none⟩
      let last : Value := ⟨.setExitPc flushed.block.bound, none⟩
      have longer : (flushed.block.push number).2.WellFormed :=
        formed.push (fits_plain (by simp [Kind.operands]) rfl rfl)
      have known : (flushed.block.push number).2.Defined flushed.block.bound := .push_self _ rfl
      refine ⟨longer.push (fits_plain (by simpa [Kind.operands] using known) rfl rfl),
        more ++ [(flushed.block.bound, number), ((flushed.block.push number).2.bound, last)],
        ?_, ?_⟩
      · have pushed : ((flushed.block.push number).2.push last).2.values =
            flushed.block.values ++ [(flushed.block.bound, number)] ++
              [((flushed.block.push number).2.bound, last)] := by
          rw [Block.values_push, Block.values_push]
        rw [values] at pushed
        exact pushed.trans (by simp only [List.append_assoc, List.cons_append, List.nil_append])
      · intro state said
        have whole : ValueType.u64.cast endPc = endPc := by
          simp [ValueType.cast, ValueType.isSigned, ValueType.size, AccessSize.bits,
            AccessSize.bytes]
        have unsaid : state.exitPc = none := by simpa using said
        refine ⟨{ state with
          cells := fun id => if id = flushed.block.bound then endPc else state.cells id
          exitPc := some endPc
          machine := state.flush progress.draft.flushList }, ?_, by simp [unsaid], rfl⟩
        rw [evaluateAll_append, evaluates]
        simp [Outcome.andThen, evaluateAll, number, last, Value.evaluate, Kind.compute?, whole,
          Evaluation.define]

theorem finish_formed (endPc : DoubleWord) (sound : Sound progress (.between start none)) :
    (finish endPc progress).block.WellFormed :=
  (finish_spec endPc sound).1

theorem finish_appends (endPc : DoubleWord) (sound : Sound progress (.between start none)) :
    ∃ more, (finish endPc progress).block.values = progress.draft.block.values ++ more := by
  obtain ⟨-, more, values, -⟩ := finish_spec endPc sound
  exact ⟨more, values⟩

theorem finish_evaluates_left {machine : Machine β} {left : BitVec 32} (endPc : DoubleWord)
    (retired : BitVec 32) (sound : Sound progress (.between start none))
    (leaves : progress.run start = .left left machine) :
    (finish endPc progress).block.evaluate retired start = some (left, machine) := by
  obtain ⟨more, values⟩ := finish_appends endPc sound
  rw [Block.evaluate, values, evaluateAll_append, ← Progress.run, leaves]
  rfl

/-- A block that was not left before writes the guest back, and continues where it said. -/
theorem finish_evaluates {reached : Evaluation β} (endPc : DoubleWord) (retired : BitVec 32)
    (sound : Sound progress (.between start none)) (reaches : progress.run start = .next reached)
    (shows : Shows start progress (.between guest exit) reached) :
    (finish endPc progress).block.evaluate retired start =
      some (retired, movedTo guest (exit.getD endPc)) := by
  obtain ⟨-, more, values, evaluates⟩ := finish_spec endPc sound
  have said : reached.exitPc.isSome = progress.exitPcSet := by
    rw [shows.exitPc, shows.exitSet]
  obtain ⟨after, goes, exitPc, machine⟩ := evaluates reached said
  rw [shows.flush (sound.between guest exit)] at machine
  rw [shows.exitPc] at exitPc
  rw [Block.evaluate, values, evaluateAll_append, ← Progress.run, reaches]
  simp only [Outcome.andThen, goes, exitPc, machine, Option.map_some]
  rfl

end Finish

end MipsRecompiler.Emission
