import MipsRecompiler.Proofs.Emission.Rules

/-!
# Values that compute

Constants, operations on known values, and the registers of the guest.
-/

set_option autoImplicit false

namespace MipsRecompiler.Emission.Emits

open Ir

variable {β : Type} [Bus β] {start : Machine β} {place : Place} {before : Stage β}

/-! ## Operations -/

theorem constant (type : ValueType) (value : DoubleWord) :
    Emits start place before (Emission.constant type value)
      (fun id => before.know id (type.cast value)) none :=
  push (.of_operands rfl rfl nofun) rfl nofun fun _ _ => rfl

theorem constantOf {type : ValueType} {value : DoubleWord} (fits : type.cast value = value) :
    Emits start place before (Emission.constant type value) (fun id => before.know id value)
      none := by
  have emits : Emits start place before (Emission.constant type value)
      (fun id => before.know id (type.cast value)) none := constant type value
  rw [fits] at emits
  exact emits

theorem number (value : DoubleWord) :
    Emits start place before (Emission.constant .u64 value) (fun id => before.know id value)
      none :=
  constantOf (by simp [ValueType.cast, ValueType.isSigned, ValueType.size, AccessSize.bits,
    AccessSize.bytes])

theorem signed (value : BitVec 16) :
    Emits start place before (Emission.constant .s16 (value.signExtend 64))
      (fun id => before.know id (value.signExtend 64)) none := by
  have cut : (value.signExtend 64).setWidth 16 = value := by
    apply BitVec.eq_of_getLsbD_eq
    intro index bound
    simp [BitVec.getLsbD_signExtend, bound]
    omega
  exact constantOf (congrArg (BitVec.signExtend 64) cut)

theorem unsigned (value : BitVec 16) :
    Emits start place before (Emission.constant .u16 (value.zeroExtend 64))
      (fun id => before.know id (value.zeroExtend 64)) none := by
  have cut : (value.zeroExtend 64).setWidth 16 = value := by
    apply BitVec.eq_of_getLsbD_eq
    intro index bound
    simp [bound]
  exact constantOf (congrArg (BitVec.setWidth 64) cut)

theorem pushBinary {op : BinaryOp} {lhs rhs : ValueId} {a b result : DoubleWord}
    (left : (lhs, a) ∈ before.known) (right : (rhs, b) ∈ before.known)
    (evaluates : op.eval? a b = some result) :
    Emits start place before (Emission.push (.binary op lhs rhs))
      (fun id => before.know id result) none := by
  refine push (.of_operands rfl rfl ?_) rfl nofun fun cells known => ?_
  · simpa [Kind.operands] using ⟨⟨a, left⟩, ⟨b, right⟩⟩
  · rw [Kind.compute?, known lhs a left, known rhs b right, evaluates]

theorem cast {type : ValueType} {operand : ValueId} {value : DoubleWord}
    (known : (operand, value) ∈ before.known) :
    Emits start place before (Emission.cast type operand)
      (fun id => before.know id (type.cast value)) none := by
  refine push (.of_operands rfl rfl ?_) rfl nofun fun cells shown => ?_
  · simpa [Kind.operands] using ⟨value, known⟩
  · rw [Kind.compute?, shown operand value known]

theorem not {operand : ValueId} {value : DoubleWord} (known : (operand, value) ∈ before.known) :
    Emits start place before (Emission.push (.not operand))
      (fun id => before.know id (~~~value)) none := by
  refine push (.of_operands rfl rfl ?_) rfl nofun fun cells shown => ?_
  · simpa [Kind.operands] using ⟨value, known⟩
  · rw [Kind.compute?, shown operand value known]

theorem shift {op : ShiftOp} {width : ShiftWidth} {value amount : ValueId} {a b : DoubleWord}
    (left : (value, a) ∈ before.known) (right : (amount, b) ∈ before.known) :
    Emits start place before (Emission.push (.shift op width value amount))
      (fun id => before.know id (op.apply width a b)) none := by
  refine push (.of_operands rfl rfl ?_) rfl nofun fun cells known => ?_
  · simpa [Kind.operands] using ⟨⟨a, left⟩, ⟨b, right⟩⟩
  · rw [Kind.compute?, known value a left, known amount b right]

theorem check {mode : Comparison} {lhs rhs : ValueId} {a b : DoubleWord}
    (left : (lhs, a) ∈ before.known) (right : (rhs, b) ∈ before.known) :
    Emits start place before (Emission.check mode lhs rhs)
      (fun id => before.know id (if mode.holds a b then 1 else 0)) none := by
  refine push (.of_operands rfl rfl ?_) rfl nofun fun cells known => ?_
  · simpa [Kind.operands] using ⟨⟨a, left⟩, ⟨b, right⟩⟩
  · rw [Kind.compute?, known lhs a left, known rhs b right]

theorem floatBinary {op : FloatOp} {format : FloatFormat} {lhs rhs : ValueId} {a b : DoubleWord}
    (left : (lhs, a) ∈ before.known) (right : (rhs, b) ∈ before.known) :
    Emits start place before (Emission.push (.floatBinary op format lhs rhs))
      (fun id => before.know id (FloatingPoint.binary op format a b)) none := by
  refine push (.of_operands rfl rfl ?_) rfl nofun fun cells known => ?_
  · simpa [Kind.operands] using ⟨⟨a, left⟩, ⟨b, right⟩⟩
  · rw [Kind.compute?, known lhs a left, known rhs b right]

theorem floatUnary {op : FloatUnaryOp} {format : FloatFormat} {operand : ValueId}
    {value : DoubleWord} (known : (operand, value) ∈ before.known) :
    Emits start place before (Emission.push (.floatUnary op format operand))
      (fun id => before.know id (FloatingPoint.unary op format value)) none := by
  refine push (.of_operands rfl rfl ?_) rfl nofun fun cells shown => ?_
  · simpa [Kind.operands] using ⟨value, known⟩
  · rw [Kind.compute?, shown operand value known]

theorem floatConvert {source target : FloatFormat} {mode : RoundMode} {operand : ValueId}
    {value : DoubleWord} (known : (operand, value) ∈ before.known) :
    Emits start place before (Emission.push (.floatConvert source target mode operand))
      (fun id => before.know id (FloatingPoint.convert source target mode value)) none := by
  refine push (.of_operands rfl rfl ?_) rfl nofun fun cells shown => ?_
  · simpa [Kind.operands] using ⟨value, known⟩
  · rw [Kind.compute?, shown operand value known]

theorem loadState {field : StateField} (inside : ∀ reg, field = .control reg → reg < 32) :
    Emits start place before (Emission.push (.loadState field))
      (fun id => before.know id (before.guest.cpu.readField field)) none := by
  refine push ⟨nofun, fun reg is => ?_, nofun⟩ rfl (fun _ is => by cases is) fun cells known => ?_
  · exact inside reg (Option.some.inj is)
  · cases field <;> rfl

theorem reuse {operand : ValueId} {value : DoubleWord} (known : (operand, value) ∈ before.known) :
    Emits start place before (Pure.pure operand) (fun id => before.know id value) none := by
  intro progress result next emitted sound
  cases emitted
  refine ⟨⟨[], by simp⟩, sound.know (sound.known _ known) value, ?_⟩
  intro state reaches shows
  exact ⟨state, reaches, shows.know (shows.known _ known)⟩

theorem toClass {registerClass : RegisterClass} {operand : ValueId} {value : DoubleWord}
    (known : (operand, value) ∈ before.known) :
    Emits start place before (Emission.toClass registerClass operand)
      (fun id => before.know id value) none := by
  intro progress result next emitted sound
  obtain ⟨kind, middle, looked, emitted⟩ := bind_ok emitted
  cases looked
  split at emitted
  · have reuses : Emits start place before (Pure.pure operand) (fun id => before.know id value)
        none := reuse known
    exact reuses _ _ _ emitted sound
  · have pushes : Emits start place before (Emission.push (.moveClass registerClass operand))
        (fun id => before.know id value) none := by
      refine push (.of_operands rfl rfl ?_) rfl nofun fun cells shown => ?_
      · simpa [Kind.operands] using ⟨value, known⟩
      · rw [Kind.compute?, shown operand value known]
    exact pushes _ _ _ emitted sound

/-! ## Registers -/

private def bindIn (progress : Progress) (reg : GuestRegister) (id : ValueId) : Progress :=
  { progress with draft := progress.draft.bind reg id }

private theorem binding_bindIn (progress : Progress) (reg : GuestRegister) (id : ValueId)
    (other : GuestRegister) :
    (bindIn progress reg id).draft.binding? other =
      if reg = other ∧ reg ≠ .zero then some id else progress.draft.binding? other := by
  simp only [bindIn, Draft.bind, Draft.binding?]
  by_cases zero : reg = .zero
  · simp [zero]
  · by_cases same : reg = other
    · simp [zero, ← same]
    · have differs : reg.number.val ≠ other.number.val := fun equal =>
        same (GuestRegister.number_injective.mp (Fin.ext equal))
      simp [zero, same, differs]

private theorem block_bindIn (progress : Progress) (reg : GuestRegister) (id : ValueId) :
    (bindIn progress reg id).draft.block = progress.draft.block := by
  simp only [bindIn, Draft.bind]
  split <;> rfl

omit [Bus β] in
private theorem sound_bindIn {progress : Progress} {stage : Stage β}
    (sound : Sound progress stage) (reg : GuestRegister) {id : ValueId}
    (defined : progress.draft.block.Defined id) : Sound (bindIn progress reg id) stage where
  formed := by
    rw [block_bindIn]
    exact sound.formed
  bound other value binding := by
    rw [binding_bindIn] at binding
    rw [block_bindIn]
    split at binding
    · cases binding
      exact defined
    · exact sound.bound other value binding
  zero := by
    rw [binding_bindIn, if_neg (fun both => both.2 both.1)]
    exact sound.zero
  known fact member := by
    rw [block_bindIn]
    exact sound.known fact member
  targets target member := by
    rw [block_bindIn]
    exact sound.targets target member

omit [Bus β] in
private theorem shows_bindIn {progress : Progress} {stage : Stage β} {state : Evaluation β}
    (shows : Shows start progress stage state) (reg : GuestRegister) {id : ValueId}
    {value : DoubleWord} (cell : state.cells id = value) :
    Shows start (bindIn progress reg id) (stage.changeCpu (·.writeGuest reg value)) state := by
  have others : ∀ other : GuestRegister,
      (stage.changeCpu (·.writeGuest reg value)).guest.cpu.readGuest other =
        if reg = other ∧ reg ≠ .zero then value else stage.guest.cpu.readGuest other :=
    fun other => CpuState.readGuest_writeGuest _ _ _ _
  constructor
  · rw [shows.machine]
    simp only [Machine.unflushed, Stage.changeCpu, Stage.withGuest_guest, Machine.mapCpu]
    rw [CpuState.writeGuest_frame]
    rfl
  · intro other bound binding
    rw [others]
    rw [binding_bindIn] at binding
    split at binding
    · rename_i target
      rw [if_pos target]
      cases binding
      exact cell
    · rename_i target
      rw [if_neg target]
      exact shows.bound other bound binding
  · intro other binding
    rw [others]
    rw [binding_bindIn] at binding
    split at binding
    · cases binding
    · rename_i target
      rw [if_neg target]
      exact shows.free other binding
  · intro other value defined kind
    rw [block_bindIn] at defined kind
    exact shows.loaded other value defined kind
  · exact shows.known
  · have zero := shows.zero
    rw [← CpuState.readGuest_general] at zero ⊢
    rw [others, if_neg (fun both => both.2 both.1)]
    exact zero
  · intro checked
    have usable := shows.usable checked
    simpa only [Stage.changeCpu, Stage.withGuest_guest, Machine.mapCpu,
      CpuState.writeGuest_control] using usable
  · exact shows.exitPc
  · exact shows.exitSet

theorem bindRegister {reg : GuestRegister} {id : ValueId} {value : DoubleWord}
    (known : (id, value) ∈ before.known) :
    Emits start place before (Emission.bindRegister reg id)
      (fun _ => before.changeCpu (·.writeGuest reg value)) none := by
  intro progress result next emitted sound
  cases emitted
  have defined := sound.known _ known
  refine ⟨⟨[], ?_⟩, (sound_bindIn sound reg defined).withGuest _, ?_⟩
  · show (bindIn progress reg id).draft.block.values = _
    rw [block_bindIn, List.append_nil]
  · intro state reaches shows
    refine ⟨state, ?_, shows_bindIn shows reg (shows.known _ known)⟩
    show (bindIn progress reg id).run start = _
    rw [Progress.run, block_bindIn]
    exact reaches

/-- A register that is not bound is loaded as it was at the start, and bound to what was loaded. -/
private theorem continues_load {progress : Progress} (reg : GuestRegister)
    (free : progress.draft.binding? reg = none) (sound : Sound progress before) :
    Continues start progress
      (bindIn (progress.append ⟨.loadRegister reg, none⟩) reg progress.draft.block.bound) before
      (before.know progress.draft.block.bound (before.guest.cpu.readGuest reg)) none := by
  have defined : (progress.append ⟨.loadRegister reg, none⟩).draft.block.Defined
      progress.draft.block.bound := .push_self _ rfl
  have fits : progress.draft.block.Fits progress.draft.block.bound ⟨.loadRegister reg, none⟩ :=
    sound.fits (.of_operands rfl rfl (by simp [Kind.operands])) (by simp)
  have longer := sound.append fits
  refine ⟨⟨[(progress.draft.block.bound, ⟨.loadRegister reg, none⟩)], ?_⟩,
    sound_bindIn (longer.know defined _) reg defined, ?_⟩
  · rw [block_bindIn, append_values]
  · intro state reaches shows
    have value := shows.free reg free
    have loads : state.machine.cpu.readGuest reg = before.guest.cpu.readGuest reg := by
      rw [← value, shows.machine]
      rfl
    let reached := state.define progress.draft.block.bound (before.guest.cpu.readGuest reg)
    refine ⟨reached, ?_, ?_⟩
    · rw [Progress.run, block_bindIn, ← Progress.run, run_append, reaches]
      simp only [Outcome.andThen, Value.evaluate, Kind.compute?, loads]
      rfl
    · have after : Shows start (progress.append ⟨.loadRegister reg, none⟩)
          (before.withGuest before.guest) reached :=
        shows.append sound shows.machine ⟨rfl, rfl⟩
          (fun id differs => state.define_cells_of_ne _ differs)
          (fun other is => by
            cases is
            rw [value]
            exact state.define_cells_self _ _) shows.usable rfl
      have bound := shows_bindIn after reg (state.define_cells_self _ _)
      refine Shows.know ?_ (state.define_cells_self _ _)
      -- Writing back what the guest holds changes nothing.
      have same : (before.withGuest before.guest).changeCpu
          (·.writeGuest reg (before.guest.cpu.readGuest reg)) = before := by
        simp only [Stage.changeCpu, Stage.withGuest, Machine.mapCpu, CpuState.writeGuest_readGuest]
      rw [same] at bound
      exact bound

/-- A bound register has its value already, any other is loaded as it was at the start. -/
theorem loadRegister (reg : GuestRegister) :
    Emits start place before (Emission.loadRegister reg)
      (fun id => before.know id (before.guest.cpu.readGuest reg)) none := by
  intro progress result next emitted sound
  have emitted : EStateM.Result.ok (progress.draft.loadRegister reg).1
      { progress with draft := (progress.draft.loadRegister reg).2 } = .ok result next := emitted
  unfold Draft.loadRegister at emitted
  split at emitted
  case isTrue zero =>
    have constant : Emits start place before (Emission.constant .u64 0)
        (fun id => before.know id (ValueType.u64.cast 0)) none := constant .u64 0
    have nothing := constant progress result next emitted sound
    refine ⟨nothing.appends, nothing.sound.know_other _, ?_⟩
    intro state reaches shows
    obtain ⟨reached, continues, after⟩ := nothing.runs state reaches shows
    have same : before.guest.cpu.readGuest reg = ValueType.u64.cast 0 := by
      rw [zero]
      exact (CpuState.readGuest_general _ _).trans shows.zero
    rw [same]
    exact ⟨reached, continues, after⟩
  case isFalse =>
    split at emitted
    · rename_i id binding
      cases emitted
      refine ⟨⟨[], by simp⟩, sound.know (sound.bound reg id binding) _, ?_⟩
      intro state reaches shows
      exact ⟨state, reaches, shows.know (shows.bound reg id binding)⟩
    · rename_i free
      have is : EStateM.Result.ok progress.draft.block.bound
          (bindIn (progress.append ⟨.loadRegister reg, none⟩) reg progress.draft.block.bound) =
          .ok result next := emitted
      cases is
      exact continues_load reg free sound

theorem gpr (reg : RegisterNumber) :
    Emits start place before (Emission.gpr reg)
      (fun id => before.know id (before.guest.cpu.readGpr reg)) none := by
  rw [← CpuState.readGuest_general]
  exact loadRegister (.general reg)

theorem setGpr {reg : RegisterNumber} {id : ValueId} {value : DoubleWord}
    (known : (id, value) ∈ before.known) :
    Emits start place before (Emission.setGpr reg id)
      (fun _ => before.changeCpu (·.writeGpr reg value)) none := by
  simp only [← CpuState.writeGuest_general]
  exact bindRegister known

end MipsRecompiler.Emission.Emits
