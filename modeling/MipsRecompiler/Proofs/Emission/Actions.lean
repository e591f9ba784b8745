import MipsRecompiler.Emission.Float
import MipsRecompiler.Proofs.Emission.Exits

/-!
# Values that act on the guest

Routines, memory accesses, writes of state fields, and where the guest continues.
-/

set_option autoImplicit false

namespace MipsRecompiler

open Ir

variable {β : Type} [Bus β]

/-! ## Routines do not see registers -/

private theorem unflushed_similar (start : Machine β) (gpr fgr : RegisterFile) :
    Machine.Similar fun guest machine : Machine β =>
      machine = guest.unflushed start ∧ guest.cpu.gpr = gpr ∧ guest.cpu.fgr = fgr where
  tlb := by rintro _ _ ⟨rfl, -, -⟩; rfl
  control := by rintro _ _ ⟨rfl, -, -⟩; rfl
  llBit := by rintro _ _ ⟨rfl, -, -⟩; rfl
  answer := by rintro _ _ ⟨rfl, -, -⟩ _ _; rfl
  read := by rintro _ _ ⟨rfl, rfl, rfl⟩ _ _; exact ⟨rfl, rfl, rfl⟩
  write := by rintro _ _ ⟨rfl, rfl, rfl⟩ _ _ _; exact ⟨rfl, rfl, rfl⟩
  system := by rintro _ _ ⟨rfl, rfl, rfl⟩ _ _ _; exact ⟨rfl, rfl, rfl⟩

theorem Machine.callRoutine_unflushed_ok {routine : Routine} {arguments : List DoubleWord}
    {guest after : Machine β} {result : DoubleWord} (start : Machine β)
    (gives : callRoutine routine arguments guest = .ok result after) :
    callRoutine routine arguments (guest.unflushed start) = .ok result (after.unflushed start) ∧
      after.cpu.gpr = guest.cpu.gpr ∧ after.cpu.fgr = guest.cpu.fgr := by
  have related := (unflushed_similar start guest.cpu.gpr guest.cpu.fgr).callRoutine routine
    arguments guest (guest.unflushed start) ⟨rfl, rfl, rfl⟩
  rw [gives] at related
  cases ends : callRoutine routine arguments (guest.unflushed start) with
  | ok value next =>
      rw [ends] at related
      cases related with
      | ok same =>
          obtain ⟨rfl, gpr, fgr⟩ := same
          exact ⟨rfl, gpr, fgr⟩
  | error fault next =>
      rw [ends] at related
      cases related

theorem Machine.callRoutine_unflushed_error {routine : Routine} {arguments : List DoubleWord}
    {guest after : Machine β} {fault : Fault} (start : Machine β)
    (fails : callRoutine routine arguments guest = .error fault after) :
    callRoutine routine arguments (guest.unflushed start) =
      .error fault (guest.unflushed start) := by
  have related := (unflushed_similar start guest.cpu.gpr guest.cpu.fgr).callRoutine routine
    arguments guest (guest.unflushed start) ⟨rfl, rfl, rfl⟩
  rw [fails] at related
  cases ends : callRoutine routine arguments (guest.unflushed start) with
  | ok value next =>
      rw [ends] at related
      cases related
  | error reason next =>
      have unchanged := callRoutine_error ends
      rw [ends] at related
      cases related
      rw [unchanged]

namespace Emission.Emits

variable {start : Machine β} {place : Place} {before : Stage β}

/-- Values whose results are known, in order. -/
abbrev Passes (stage : Stage β) : List ValueId → List DoubleWord → Prop :=
  List.Forall₂ fun id value => (id, value) ∈ stage.known

omit [Bus β] in
private theorem passes_mem {stage : Stage β} {ids : List ValueId} {values : List DoubleWord}
    (passes : Passes stage ids values) : ∀ used ∈ ids, ∃ value, (used, value) ∈ stage.known := by
  induction passes with
  | nil => simp
  | @cons id value ids values known rest ih =>
      intro used member
      rcases List.mem_cons.mp member with rfl | later
      · exact ⟨value, known⟩
      · exact ih used later

omit [Bus β] in
private theorem passes_cells {stage : Stage β} {progress : Progress} {state : Evaluation β}
    (shows : Shows start progress stage state) {ids : List ValueId} {values : List DoubleWord}
    (passes : Passes stage ids values) : ids.map state.cells = values := by
  induction passes with
  | nil => rfl
  | cons known rest ih => rw [List.map_cons, ih, shows.known _ known]

private theorem called {routine : Routine} {arguments : Arguments ValueId}
    {values : List DoubleWord} {after : Machine β} {result : DoubleWord} {emit : Emit ValueId}
    (site : Draft → Option ExitSite)
    (emits : ∀ progress : Progress, emit place progress = .ok progress.draft.block.bound
      (progress.append ⟨.call routine arguments, site progress.draft⟩))
    (flush : ∀ draft, ∀ present ∈ site draft, present.flush = draft.flushList)
    (passes : Passes before arguments.toList values)
    (other : ∀ reg double, routine ≠ .moveToControl reg double)
    (gives : Machine.callRoutine routine values before.guest = .ok result after) :
    Emits start place before emit
      (fun id => (before.withGuest after).knowIf routine.hasResult id result) none := by
  refine of_append site emits (.of_operands rfl rfl (passes_mem passes)) flush (fun progress sound => ?_) ?_
  · unfold Stage.knowIf
    split
    · rename_i has
      refine (sound.withGuest after).know (.push_self _ ?_) result
      simp [Kind.resultClass?, has]
    · exact sound.withGuest after
  · intro progress state sound shows
    obtain ⟨runs, gpr, fgr⟩ := Machine.callRoutine_unflushed_ok start gives
    refine ⟨{ state with machine := after.unflushed start }.define progress.draft.block.bound
      result, ?_, ?_⟩
    · simp only [Value.evaluate, Kind.compute?, passes_cells shows passes, shows.machine, runs]
    · have shown : Shows start (progress.append ⟨.call routine arguments, site progress.draft⟩)
          (before.withGuest after) ({ state with machine := after.unflushed start }.define
            progress.draft.block.bound result) := by
        refine shows.append sound rfl ⟨gpr, fgr⟩ (fun id differs =>
          Evaluation.define_cells_of_ne _ _ differs) (by simp) (fun checked => ?_) rfl
        rw [(Machine.callRoutine_sameFloat other gives).usable]
        exact shows.usable checked
      unfold Stage.knowIf
      split
      · exact shown.know (Evaluation.define_cells_self _ _ _)
      · exact shown

theorem call {routine : Routine} {arguments : Arguments ValueId} {values : List DoubleWord}
    {after : Machine β} {result : DoubleWord} (passes : Passes before arguments.toList values)
    (other : ∀ reg double, routine ≠ .moveToControl reg double)
    (gives : Machine.callRoutine routine values before.guest = .ok result after) :
    Emits start place before (Emission.push (.call routine arguments))
      (fun id => (before.withGuest after).knowIf routine.hasResult id result) none :=
  called (fun _ => none) (fun _ => rfl) (fun _ _ => nofun) passes other gives

/-- A call of a routine that can fault, and does not. -/
theorem callRaising {routine : Routine} {arguments : Arguments ValueId}
    {values : List DoubleWord} {after : Machine β} {result : DoubleWord}
    (passes : Passes before arguments.toList values)
    (other : ∀ reg double, routine ≠ .moveToControl reg double)
    (gives : Machine.callRoutine routine values before.guest = .ok result after) :
    Emits start place before (pushRaising (.call routine arguments))
      (fun id => (before.withGuest after).knowIf routine.hasResult id result) none :=
  called (fun draft => some (place.site draft)) (fun _ => rfl)
    (by rintro draft present ⟨⟩; rfl) passes other gives

/-- A call of a routine that faults. -/
theorem callFault {routine : Routine} {arguments : Arguments ValueId}
    {values : List DoubleWord} {after : Machine β} {fault : Fault}
    (passes : Passes before arguments.toList values)
    (fails : Machine.callRoutine routine values before.guest = .error fault after) :
    Emits start place before (pushRaising (.call routine arguments))
      (fun id => before.knowIf routine.hasResult id 0)
      (some (place.raises (.ofFault fault) before.guest)) := by
  refine of_raising (.of_operands rfl rfl (passes_mem passes)) (fun progress sound => ?_) ?_
  · unfold Stage.knowIf
    split
    · rename_i has
      refine sound.know (.push_self _ ?_) 0
      simp [Kind.resultClass?, has]
    · exact sound
  · intro progress state sound shows
    have runs := Machine.callRoutine_unflushed_error start fails
    rw [← shows.machine] at runs
    simp only [Value.evaluate, Kind.compute?, passes_cells shows passes, runs]
    exact shows.raiseAt sound place _

/-! ## Memory -/

theorem load {type : ValueType} {registerClass : RegisterClass} {address : ValueId}
    {a : DoubleWord} (known : (address, a) ∈ before.known) :
    Emits start place before (Emission.push (.load type registerClass address))
      (fun id => (before.withGuest
        { before.guest with bus := (Bus.read before.guest.bus (a.setWidth 32) type.size).2 }).know
          id (type.cast (Bus.read before.guest.bus (a.setWidth 32) type.size).1)) none := by
  refine of_append (fun _ => none) (fun _ => rfl)
    (.of_operands rfl rfl (by simpa [Kind.operands] using ⟨a, known⟩)) (fun _ _ => nofun)
    (fun progress sound => (sound.withGuest _).know (.push_self _ rfl) _) ?_
  intro progress state sound shows
  refine ⟨_, rfl, ?_⟩
  simp only [shows.known _ known, shows.machine]
  refine Shows.know ?_ (Evaluation.define_cells_self _ _ _)
  exact shows.append sound rfl ⟨rfl, rfl⟩
    (fun id differs => Evaluation.define_cells_of_ne _ _ differs) (by simp)
    shows.usable rfl

/-- A store to an address that was translated for it. -/
theorem store {size : AccessSize} {address value : ValueId} {a b : DoubleWord}
    (left : (address, a) ∈ before.known) (right : (value, b) ∈ before.known)
    (target : (address, size) ∈ before.targets) :
    Emits start place before (Emission.push (.store size address value))
      (fun _ => before.withGuest
        { before.guest with bus := Bus.write before.guest.bus (a.setWidth 32) size b }) none := by
  refine of_append (fun _ => none) (fun _ => rfl) ⟨?_, nofun, ?_⟩ (fun _ _ => nofun)
    (fun progress sound => sound.withGuest _) ?_
  · simpa [Kind.operands] using ⟨⟨a, left⟩, ⟨b, right⟩⟩
  · rintro _ ⟨⟩
    exact target
  · intro progress state sound shows
    refine ⟨_, rfl, ?_⟩
    simp only [shows.known _ left, shows.known _ right, shows.machine]
    exact shows.append sound rfl ⟨rfl, rfl⟩ (fun _ _ => rfl) (by simp) shows.usable rfl

/-! ## Processor state -/

/-- A value that changes the processor beside its registers and what addresses depend on. -/
private theorem changes {kind : Kind} {change : CpuState → CpuState} (admits : before.Admits kind)
    (evaluates : ∀ (progress : Progress) state id, Shows start progress before state →
      Value.evaluate ⟨kind, none⟩ id state = .next (state.changeCpu change))
    (loads : ∀ reg, kind ≠ .loadRegister reg)
    (apart : ∀ cpu gpr fgr pc, change { cpu with gpr, fgr, pc } = { change cpu with gpr, fgr, pc })
    (gpr : ∀ cpu, (change cpu).gpr = cpu.gpr) (fgr : ∀ cpu, (change cpu).fgr = cpu.fgr)
    (control : ∀ cpu, (change cpu).control = cpu.control) :
    Emits start place before (Emission.push kind) (fun _ => before.changeCpu change) none := by
  refine of_append (fun _ => none) (fun _ => rfl) admits (fun _ _ => nofun)
    (fun progress sound => sound.withGuest _) ?_
  intro progress state sound shows
  refine ⟨_, evaluates progress state _ shows, ?_⟩
  refine shows.append sound ?_ ⟨gpr _, fgr _⟩ (fun _ _ => rfl)
    (fun reg is => absurd is (loads reg)) (fun checked => ?_) rfl
  · rw [Evaluation.changeCpu_machine, shows.machine]
    exact congrArg (fun cpu => ({ before.guest with cpu } : Machine β))
      (apart before.guest.cpu start.cpu.gpr start.cpu.fgr start.cpu.pc)
  · show (change before.guest.cpu).control.floatUsable = true
    rw [control]
    exact shows.usable checked

theorem storeState {field : StateField} {value : ValueId} {a : DoubleWord}
    (known : (value, a) ∈ before.known) (beside : ∀ reg, field ≠ .control reg) :
    Emits start place before (Emission.push (.storeState field value))
      (fun _ => before.changeCpu (·.writeField field a)) none := by
  refine changes ⟨by simpa [Kind.operands] using ⟨a, known⟩,
    fun reg is => absurd (Option.some.inj is) (beside _), nofun⟩
    (fun progress state id shows => ?_) nofun ?_ ?_ ?_ ?_
  · simp only [Value.evaluate, Kind.compute?, shows.known _ known]
  all_goals
    intros
    cases field <;> first | rfl | exact absurd rfl (beside _)

theorem mulDiv {op : MulDivOp} {lhs rhs : ValueId} {a b : DoubleWord}
    (left : (lhs, a) ∈ before.known) (right : (rhs, b) ∈ before.known) :
    Emits start place before (Emission.push (.mulDiv op lhs rhs))
      (fun _ => before.changeCpu fun cpu =>
        { cpu with hi := (op.apply a b).1, lo := (op.apply a b).2 }) none := by
  refine changes (.of_operands rfl rfl (by simpa [Kind.operands] using ⟨⟨a, left⟩, ⟨b, right⟩⟩))
    (fun progress state id shows => ?_) nofun (fun _ _ _ _ => rfl) (fun _ => rfl) (fun _ => rfl)
    fun _ => rfl
  simp only [Value.evaluate, Kind.compute?, shows.known _ left, shows.known _ right]

theorem floatCompare {condition : BitVec 8} {format : FloatFormat} {lhs rhs : ValueId}
    {a b : DoubleWord} (left : (lhs, a) ∈ before.known) (right : (rhs, b) ∈ before.known) :
    Emits start place before (Emission.push (.floatCompare condition format lhs rhs))
      (fun _ => before.changeCpu
        (·.setFloatCondition (FloatingPoint.compare condition.toNat format a b))) none := by
  refine changes (.of_operands rfl rfl (by simpa [Kind.operands] using ⟨⟨a, left⟩, ⟨b, right⟩⟩))
    (fun progress state id shows => ?_) nofun (fun _ _ _ _ => rfl) (fun _ => rfl) (fun _ => rfl)
    fun _ => rfl
  simp only [Value.evaluate, Kind.compute?, shows.known _ left, shows.known _ right]

/-! ## Where the guest continues -/

private theorem exits {kind : Kind} {target : DoubleWord} (admits : before.Admits kind)
    (evaluates : ∀ (progress : Progress) state id, Shows start progress before state →
      Value.evaluate ⟨kind, none⟩ id state = .next { state with exitPc := some target })
    (loads : ∀ reg, kind ≠ .loadRegister reg) :
    Emits start place before (pushExitPc kind) (fun _ => { before with exit := some target })
      none := by
  intro progress value next emitted sound
  cases emitted
  obtain ⟨formed, bound, zero, known, targets⟩ :=
    sound.append (sound.fits admits (by simp) : progress.draft.block.Fits _ ⟨kind, none⟩)
  refine ⟨⟨_, append_values progress ⟨kind, none⟩⟩, ⟨formed, bound, zero, known, targets⟩, ?_⟩
  intro state reaches shows
  refine ⟨{ state with exitPc := some target }, ?_, ?_⟩
  · show (progress.append ⟨kind, none⟩).run start = _
    rw [run_append, reaches]
    exact evaluates progress state _ shows
  · have appended : Shows start (progress.append ⟨kind, none⟩) (before.withGuest before.guest)
        state :=
      shows.append sound shows.machine ⟨rfl, rfl⟩ (fun _ _ => rfl)
        (fun reg is => absurd is (loads reg)) shows.usable rfl
    obtain ⟨machine, bound, free, loaded, known, zero, usable, -, -⟩ := appended
    exact ⟨machine, bound, free, loaded, known, zero, usable, rfl, rfl⟩

theorem setExitPc {pc : ValueId} {target : DoubleWord} (known : (pc, target) ∈ before.known) :
    Emits start place before (pushExitPc (.setExitPc pc))
      (fun _ => { before with exit := some target }) none := by
  refine exits (.of_operands rfl rfl (by simpa [Kind.operands] using ⟨target, known⟩))
    (fun progress state id shows => ?_) nofun
  simp only [Value.evaluate, Kind.compute?, shows.known _ known]

theorem setExitPcIf {condition whenTrue whenFalse : ValueId} {holds taken skipped : DoubleWord}
    (known : (condition, holds) ∈ before.known) (first : (whenTrue, taken) ∈ before.known)
    (second : (whenFalse, skipped) ∈ before.known) :
    Emits start place before (pushExitPc (.setExitPcIf condition whenTrue whenFalse))
      (fun _ => { before with exit := some (if holds ≠ 0 then taken else skipped) }) none := by
  refine exits (.of_operands rfl rfl (by
      simpa [Kind.operands] using ⟨⟨holds, known⟩, ⟨taken, first⟩, ⟨skipped, second⟩⟩))
    (fun progress state id shows => ?_) nofun
  simp only [Value.evaluate, Kind.compute?, shows.known _ known]
  split <;> simp only [shows.known _ first, shows.known _ second]

/-! ## The floating point unit -/

private theorem usable_bit (status : DoubleWord) :
    (if Comparison.eq.holds (status &&& 0x20000000) 0 then (1 : DoubleWord) else 0) =
      if status.getLsbD 29 then 0 else 1 := by
  have mask : (0x20000000 : DoubleWord) = BitVec.twoPow 64 29 := by decide
  rw [mask, Comparison.holds, BitVec.and_twoPow]
  cases status.getLsbD 29 <;> decide

private def refuseFloat : Emit Unit := do
  let status ← Emission.push (.loadState (.control 12))
  let mask ← Emission.constant .u64 0x20000000
  let enabled ← Emission.binary .and status mask
  let nothing ← Emission.constant .u64 0
  let disabled ← Emission.check .eq enabled nothing
  Emission.raiseIf disabled (.coprocessorUnusable 1)

private theorem refuses :
    Emits start place before refuseFloat (fun _ => before)
      (if before.guest.cpu.control.floatUsable then none
        else some (place.raises (.coprocessorUnusable 1) before.guest)) := by
  have inside : ∀ reg, StateField.control 12 = .control reg → reg < 32 := by
    rintro _ ⟨⟩
    decide
  refine (loadState inside).bind fun status => ?_
  refine (constant _ _).bind fun mask => ?_
  refine (binaryPlain rfl (List.mem_cons_of_mem _ List.mem_cons_self) List.mem_cons_self
    rfl).bind fun enabled => ?_
  refine (constant _ _).bind fun nothing => ?_
  refine (check (List.mem_cons_of_mem _ List.mem_cons_self) List.mem_cons_self).bind
    fun disabled => ?_
  refine (raiseIf List.mem_cons_self).conclude ?_ (fun _ _ => ⟨rfl, rfl⟩) ?_ fun _ _ => id
  · have bit := usable_bit (before.guest.cpu.control.get SystemControl.status)
    show _ = if (if Comparison.eq.holds (before.guest.cpu.control.get SystemControl.status &&&
      0x20000000) 0 then (1 : DoubleWord) else 0) = 0 then _ else _
    rw [bit, SystemControl.floatUsable]
    cases (before.guest.cpu.control.get SystemControl.status).getLsbD 29 <;> rfl
  · intro _ fact member
    simp [member]

private theorem refuseFloat_progress (place : Place) (draft : Draft) (exitPcSet : Bool) :
    ∃ final, ∀ floatChecked, refuseFloat place ⟨draft, floatChecked, exitPcSet⟩ =
      .ok () ⟨final, floatChecked, exitPcSet⟩ :=
  ⟨_, fun _ => rfl⟩

/-- The check leaves the block unless the unit is usable. A block checks this once. -/
theorem checkFloatUsable :
    Emits start place before Emission.checkFloatUsable (fun _ => before)
      (if before.guest.cpu.control.floatUsable then none
        else some (place.raises (.coprocessorUnusable 1) before.guest)) := by
  rintro ⟨draft, floatChecked, exitPcSet⟩ value next emitted sound
  cases floatChecked with
  | true =>
      cases emitted
      refine ⟨⟨[], by simp⟩, sound, ?_⟩
      intro state reaches shows
      rw [if_pos (shows.usable rfl)]
      exact ⟨state, reaches, shows⟩
  | false =>
      obtain ⟨final, emits⟩ := refuseFloat_progress place draft exitPcSet
      have same : next = ⟨final, true, exitPcSet⟩ := by
        have twice := (emits true).symm.trans emitted
        cases twice
        rfl
      subst same
      obtain ⟨appends, sound, runs⟩ := refuses _ _ _ (emits false) sound
      obtain ⟨formed, bound, zero, known, targets⟩ := sound
      refine ⟨appends, ⟨formed, bound, zero, known, targets⟩, ?_⟩
      intro state reaches shows
      have runs := runs state reaches shows
      cases usable : before.guest.cpu.control.floatUsable with
      | true =>
          rw [usable] at runs
          obtain ⟨reached, continues, after⟩ := runs
          obtain ⟨machine, bound, free, loaded, known, zero, -, exitPc, exitSet⟩ := after
          exact ⟨reached, continues, machine, bound, free, loaded, known, zero, fun _ => usable,
            exitPc, exitSet⟩
      | false =>
          rw [usable] at runs
          exact runs

end Emission.Emits

end MipsRecompiler
