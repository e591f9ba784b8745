import MipsRecompiler.Emission.Block
import MipsRecompiler.Proofs.Emission.Following

/-!
# Integer and system instructions

Arithmetic in all its forms, shifts, products, traps, and what is left to routines of the system
control coprocessor.
-/

set_option autoImplicit false

namespace MipsRecompiler.Emission

open Ir
open Interpreter (Execution Flow writeChecked arithmeticOperands)

variable {β : Type} [Bus β] {start : Machine β} {place : Place} {before : Stage β}

/-! ## Arithmetic -/

theorem secondOperand_emits (form : Form) :
    Emits start place before (secondOperand form)
      (fun id => before.know id (arithmeticOperands place.entry.inst form
        (before.guest.cpu.readGpr place.entry.inst.rt)).1) none := by
  refine Emits.theInstruction ?_
  cases form with
  | immediate extended =>
      cases extended with
      | true => exact Emits.signed _
      | false => exact Emits.unsigned _
  | trapImmediate => exact Emits.signed _
  | _ => exact Emits.gpr _

/-- What is emitted to compute an arithmetic result, which may overflow. -/
def Computes (start : Machine β) (place : Place) (compute : ValueId → ValueId → Emit ValueId)
    (result : DoubleWord → DoubleWord → Option DoubleWord) : Prop :=
  ∀ (stage : Stage β) lhs rhs a b, (lhs, a) ∈ stage.known → (rhs, b) ∈ stage.known →
    Emits start place stage (compute lhs rhs) (fun id => stage.know id ((result a b).getD 0))
      (if result a b = none then some (place.raises (.ofCode .overflow) stage.guest) else none)

theorem arithmetic_follows {form : Form} {compute : ValueId → ValueId → Emit ValueId}
    {result : DoubleWord → DoubleWord → Option DoubleWord}
    (computes : Computes start place compute result)
    (plain : ∀ signed, form ≠ .trapImmediate signed) :
    Follows start place before (arithmetic form compute)
      (writeChecked
        (arithmeticOperands place.entry.inst form
          (before.guest.cpu.readGpr place.entry.inst.rt)).2
        (result (before.guest.cpu.readGpr place.entry.inst.rs)
          (arithmeticOperands place.entry.inst form
            (before.guest.cpu.readGpr place.entry.inst.rt)).1) before.guest) := by
  have target : arithmeticTarget place.entry.inst form =
      (arithmeticOperands place.entry.inst form
        (before.guest.cpu.readGpr place.entry.inst.rt)).2 := by
    cases form with
    | immediate extended => cases extended <;> rfl
    | trapImmediate signed => exact absurd rfl (plain signed)
    | _ => rfl
  refine Emits.theInstruction ?_
  refine (Emits.gpr _).bind fun lhs => ?_
  refine (secondOperand_emits form).bind fun rhs => ?_
  have emits := computes ((before.know lhs (before.guest.cpu.readGpr place.entry.inst.rs)).know rhs
    (arithmeticOperands place.entry.inst form
      (before.guest.cpu.readGpr place.entry.inst.rt)).1) lhs rhs _ _
    (List.mem_cons_of_mem _ List.mem_cons_self) List.mem_cons_self
  rw [← target]
  cases gives : result (before.guest.cpu.readGpr place.entry.inst.rs)
      (arithmeticOperands place.entry.inst form
        (before.guest.cpu.readGpr place.entry.inst.rt)).1 with
  | some value =>
      rw [gives] at emits
      refine emits.bind fun id => ?_
      exact (Emits.setGpr List.mem_cons_self).follows_next rfl rfl
  | none =>
      rw [gives] at emits
      refine emits.bind_left fun id => ?_
      exact Emits.shape start (Emits.setGpr List.mem_cons_self) (by simp) (by simp)

theorem binary_computes (op : BinaryOp) : Computes start place (binary op) op.eval? :=
  fun _ _ _ _ _ left right => Emits.binary left right

private theorem computes_total {compute : ValueId → ValueId → Emit ValueId}
    {result : DoubleWord → DoubleWord → DoubleWord}
    (emits : ∀ (stage : Stage β) lhs rhs a b, (lhs, a) ∈ stage.known → (rhs, b) ∈ stage.known →
      Emits start place stage (compute lhs rhs) (fun id => stage.know id (result a b)) none) :
    Computes start place compute fun a b => some (result a b) :=
  fun stage lhs rhs a b left right =>
    (emits stage lhs rhs a b left right).congr (by simp)

theorem wordResult_computes {op : BinaryOp} {result : DoubleWord → DoubleWord → DoubleWord}
    (plain : op.traps = false) (evaluates : ∀ a b, op.eval? a b = some (result a b)) :
    Computes start place (wordResult op) fun a b => some (signExtendWord (result a b)) := by
  refine computes_total fun stage lhs rhs a b left right => ?_
  refine (Emits.binaryPlain plain left right (evaluates a b)).bind fun sum => ?_
  refine (Emits.cast List.mem_cons_self).weaken fun _ => ⟨rfl, rfl, ?_, fun _ => id⟩
  exact List.cons_subset_cons _ (List.subset_cons_self _ _)

theorem check_computes (mode : Comparison) :
    Computes start place (check mode) fun a b => some (if mode.holds a b then 1 else 0) :=
  computes_total fun _ _ _ _ _ left right => Emits.check left right

theorem nor_computes :
    Computes start place (fun lhs rhs => do push (.not (← binary .or lhs rhs)))
      fun a b => some (~~~(a ||| b)) := by
  refine computes_total fun stage lhs rhs a b left right => ?_
  refine (Emits.binaryPlain rfl left right rfl).bind fun both => ?_
  refine (Emits.not List.mem_cons_self).weaken fun _ => ⟨rfl, rfl, ?_, fun _ => id⟩
  exact List.cons_subset_cons _ (List.subset_cons_self _ _)

theorem insertUpper_follows :
    Follows start place before (do
        setGpr place.entry.inst.rt (← constant .s32 (place.entry.inst.unsignedImmediate <<< 16)))
      (Interpreter.writeGpr place.entry.inst.rt place.entry.inst.upperImmediate before.guest) := by
  refine (Emits.constant _ _).bind fun upper => ?_
  exact (Emits.setGpr List.mem_cons_self).follows_next rfl rfl

/-! ## Shifts and products -/

private theorem apply_cut (op : ShiftOp) (width : ShiftWidth) (value : DoubleWord)
    (amount : DoubleWord) :
    op.apply width value (ValueType.u8.cast amount) = op.apply width value amount := by
  have low : (ValueType.u8.cast amount).toNat = amount.toNat % 256 := by
    simp [ValueType.cast, ValueType.isSigned, ValueType.size, AccessSize.bits, AccessSize.bytes]
    omega
  have word : amount.toNat % 256 % 32 = amount.toNat % 32 := by omega
  have double : amount.toNat % 256 % 64 = amount.toNat % 64 := by omega
  cases width <;> simp only [ShiftOp.apply, low, word, double]

/-- The amount of a shift. An immediate one is cut to a byte, which keeps what counts. -/
def shiftAmountOf (inst : Instruction) (form : Form) (rs : DoubleWord) : DoubleWord :=
  match form with
  | .shiftImmediate offset => BitVec.ofNat 64 (inst.shiftAmount.val + offset)
  | _ => rs

private theorem shiftKnown {op : ShiftOp} {width : ShiftWidth} {amount : ValueId}
    {a : DoubleWord} (known : (amount, a) ∈ before.known) :
    Follows start place before (do
        let value ← gpr place.entry.inst.rt
        setGpr place.entry.inst.rd (← push (.shift op width value amount)))
      (Interpreter.writeGpr place.entry.inst.rd
        (op.apply width (before.guest.cpu.readGpr place.entry.inst.rt) a) before.guest) := by
  refine (Emits.gpr _).bind fun value => ?_
  refine (Emits.shift List.mem_cons_self (List.mem_cons_of_mem _ known)).bind fun shifted => ?_
  exact (Emits.setGpr List.mem_cons_self).follows_next rfl rfl

theorem shift_follows (form : Form) (op : ShiftOp) (width : ShiftWidth) :
    Follows start place before (shift form op width)
      (Interpreter.writeGpr place.entry.inst.rd
        (op.apply width (before.guest.cpu.readGpr place.entry.inst.rt)
          (shiftAmountOf place.entry.inst form (before.guest.cpu.readGpr place.entry.inst.rs)))
        before.guest) := by
  refine Emits.theInstruction ?_
  cases form with
  | shiftImmediate offset =>
      rw [shiftAmountOf, ← apply_cut]
      exact (Emits.constant _ _).bind fun amount => shiftKnown List.mem_cons_self
  | _ => exact (Emits.gpr _).bind fun amount => shiftKnown List.mem_cons_self

theorem mulDiv_follows (op : MulDivOp) :
    Follows start place before (do
        let lhs ← gpr place.entry.inst.rs
        let rhs ← gpr place.entry.inst.rt
        let _ ← push (.mulDiv op lhs rhs))
      (Interpreter.changeCpu (fun cpu =>
        { cpu with
          hi := (op.apply (before.guest.cpu.readGpr place.entry.inst.rs)
            (before.guest.cpu.readGpr place.entry.inst.rt)).1
          lo := (op.apply (before.guest.cpu.readGpr place.entry.inst.rs)
            (before.guest.cpu.readGpr place.entry.inst.rt)).2 }) before.guest) := by
  refine (Emits.gpr _).bind fun lhs => ?_
  refine (Emits.gpr _).bind fun rhs => ?_
  refine (Emits.mulDiv (List.mem_cons_of_mem _ List.mem_cons_self) List.mem_cons_self).bind
    fun _ => ?_
  exact (Emits.pure ()).follows_next rfl rfl

theorem moveFromProduct_follows (source : ProductRegister) :
    Follows start place before (do
        setGpr place.entry.inst.rd (← push (.loadState (productField source))))
      (Interpreter.writeGpr place.entry.inst.rd
        (before.guest.cpu.readField (productField source)) before.guest) := by
  have inside : ∀ reg, productField source = .control reg → reg < 32 := by
    cases source <;> simp [productField]
  refine (Emits.loadState inside).bind fun value => ?_
  exact (Emits.setGpr List.mem_cons_self).follows_next rfl rfl

theorem moveToProduct_follows (target : ProductRegister) :
    Follows start place before (do
        let value ← gpr place.entry.inst.rs
        let _ ← push (.storeState (productField target) value))
      (Interpreter.changeCpu (·.writeField (productField target)
        (before.guest.cpu.readGpr place.entry.inst.rs)) before.guest) := by
  have beside : ∀ reg, productField target ≠ .control reg := by
    cases target <;> simp [productField]
  refine (Emits.gpr _).bind fun value => ?_
  refine (Emits.storeState List.mem_cons_self beside).bind fun _ => ?_
  exact (Emits.pure ()).follows_next rfl rfl

/-! ## Exceptions -/

theorem raise_follows (code : ExceptionCode) :
    Follows start place before (raise code) (Interpreter.raising code before.guest) :=
  (Emits.raise code).follows rfl nofun

theorem trap_follows (form : Form) (mode : Comparison) :
    Follows start place before (do
        let lhs ← gpr place.entry.inst.rs
        let rhs ← secondOperand form
        raiseIf (← check mode lhs rhs) (.ofCode .trap))
      ((if mode.holds (before.guest.cpu.readGpr place.entry.inst.rs)
            (arithmeticOperands place.entry.inst form
              (before.guest.cpu.readGpr place.entry.inst.rt)).1 then
          Interpreter.raising .trap
        else return .next : Execution β Flow) before.guest) := by
  refine (Emits.gpr _).bind fun lhs => ?_
  refine (secondOperand_emits form).bind fun rhs => ?_
  refine (Emits.check (List.mem_cons_of_mem _ List.mem_cons_self) List.mem_cons_self).bind
    fun condition => ?_
  cases held : mode.holds (before.guest.cpu.readGpr place.entry.inst.rs)
      (arithmeticOperands place.entry.inst form
        (before.guest.cpu.readGpr place.entry.inst.rt)).1 with
  | true =>
      simp only [Stage.know_guest, held, if_true]
      exact ((Emits.raiseIf List.mem_cons_self).congr (if_neg (by decide))).follows rfl nofun
  | false =>
      simp only [Stage.know_guest, held, Bool.false_eq_true, if_false]
      exact ((Emits.raiseIf List.mem_cons_self).congr (if_pos rfl)).follows_next rfl rfl

/-! ## System control -/

@[simp] theorem selectedRegister_ofNat (reg : RegisterNumber) :
    selectedRegister (BitVec.ofNat 8 reg.val) = reg := by
  revert reg
  decide

theorem moveFromControl_follows (double : Bool) :
    Follows start place before (do
        let reg := BitVec.ofNat 8 place.entry.inst.rd.val
        setGpr place.entry.inst.rt (← push (.call (.moveFromControl reg double) .none)))
      (Interpreter.writeGpr place.entry.inst.rt
        (before.guest.cpu.control.read place.entry.inst.rd double) before.guest) := by
  have gives : Machine.callRoutine
      (.moveFromControl (BitVec.ofNat 8 place.entry.inst.rd.val) double) [] before.guest =
      .ok (before.guest.cpu.control.read place.entry.inst.rd double) before.guest := by
    simp only [Machine.callRoutine, selectedRegister_ofNat]
    rfl
  refine (Emits.call .nil (by simp) gives).bind fun value => ?_
  exact (Emits.setGpr List.mem_cons_self).follows_next rfl rfl

theorem callPlain_follows {routine : Routine} {change : Machine β → Machine β}
    (gives : Machine.callRoutine routine [] before.guest = .ok 0 (change before.guest))
    (other : ∀ reg double, routine ≠ .moveToControl reg double) :
    Follows start place before (callPlain routine)
      (Interpreter.changeMachine change before.guest) := by
  refine (Emits.call .nil other gives).bind fun _ => ?_
  exact (Emits.pure ()).follows_next (by unfold Stage.knowIf; split <;> rfl)
    (by unfold Stage.knowIf; split <;> rfl)

theorem exceptionReturn_follows :
    Follows start place before (do
        let pc ← push (.call .exceptionReturn .none)
        pushExitPc (.setExitPc pc))
      (.ok (.jump before.guest.cpu.leaveException.1)
        { before.guest with cpu := before.guest.cpu.leaveException.2 }) := by
  have gives : Machine.callRoutine .exceptionReturn [] before.guest =
      .ok before.guest.cpu.leaveException.1
        { before.guest with cpu := before.guest.cpu.leaveException.2 } := rfl
  refine (Emits.call .nil (by simp) gives).bind fun pc => ?_
  exact (Emits.setExitPc List.mem_cons_self).follows rfl fun _ => ⟨rfl, rfl⟩

/-- Writing a system control register. What was known about the floating point unit is forgotten
with it, so the guest is compared as if it had never been known. -/
theorem moveToControl_follows (double : Bool) :
    Follows start place before (moveToControl double)
      (Interpreter.changeMachine (·.mapControl (·.write place.entry.inst.rd
        (before.guest.cpu.readGpr place.entry.inst.rt) double)) before.guest) := by
  refine Emits.theInstruction ?_
  refine (Emits.gpr _).bind fun value => ?_
  generalize before.guest.cpu.readGpr place.entry.inst.rt = a
  have writes : Emits start place (before.know value a) (do
      let _ ← push (.call (.moveToControl (BitVec.ofNat 8 place.entry.inst.rd.val) double)
        (.one value))
      modify fun progress => { progress with floatChecked := false })
      (fun _ => (before.know value a).withGuest
        (before.guest.mapControl (·.write place.entry.inst.rd a double))) none := by
    intro progress result next emitted sound
    cases emitted
    let unchecked : Progress := { progress with floatChecked := false }
    obtain ⟨formed, bound, zero, known, targets⟩ := sound
    have sound : Sound unchecked (before.know value a) := ⟨formed, bound, zero, known, targets⟩
    have fits : unchecked.draft.block.Fits unchecked.draft.block.bound
        ⟨.call (.moveToControl (BitVec.ofNat 8 place.entry.inst.rd.val) double) (.one value),
          none⟩ :=
      sound.fits (.of_operands rfl rfl (by simp [Kind.operands, Arguments.toList])) (by simp)
    refine ⟨⟨_, append_values _ _⟩, (sound.append fits).withGuest _, ?_⟩
    intro state reaches shows
    obtain ⟨machine, bound, free, loaded, known, zero, -, exitPc, exitSet⟩ := shows
    have shows : Shows start unchecked (before.know value a) state :=
      ⟨machine, bound, free, loaded, known, zero, fun checked => absurd checked Bool.false_ne_true, exitPc, exitSet⟩
    have cell : state.cells value = a := shows.known _ List.mem_cons_self
    refine ⟨{ state with
      machine := state.machine.mapControl (·.write place.entry.inst.rd a double) }.define
        unchecked.draft.block.bound 0, ?_, ?_⟩
    · have runs : unchecked.run start = .next state := reaches
      show (unchecked.append _).run start = _
      rw [run_append, runs]
      simp only [Outcome.andThen, Value.evaluate, Kind.compute?, Arguments.toList, List.map_cons,
        cell, Machine.callRoutine, selectedRegister_ofNat]
      rfl
    · refine shows.append sound ?_ ⟨rfl, rfl⟩
        (fun id differs => Evaluation.define_cells_of_ne _ _ differs) (by simp)
        (fun checked => absurd checked Bool.false_ne_true) rfl
      rw [Evaluation.define_machine, shows.machine]
      rfl
  exact writes.follows_next rfl rfl

end MipsRecompiler.Emission
