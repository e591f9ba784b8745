import MipsRecompiler.Proofs.Emission.Access

/-!
# Floating point instructions

An operand of 32 bits stands in the low word of a value whose upper word may hold anything. This
does not show, because whatever takes such an operand looks at its low word only.
-/

set_option autoImplicit false

namespace MipsRecompiler

/-- The bits of a value that count in a format. -/
def FloatFormat.cut (format : FloatFormat) (value : DoubleWord) : DoubleWord :=
  if format.is64Bit then value else (value.setWidth 32).setWidth 64

namespace Emission

open Ir
open Interpreter (Execution Flow accessing)

variable {β : Type} [Bus β] {start : Machine β} {place : Place} {before : Stage β}

/-! ## Operands -/

/-- What a block has for an operand: the slot, or its upper half moved down. -/
def operandOf (cpu : CpuState) (format : FloatFormat) (reg : RegisterNumber) : DoubleWord :=
  if format.is64Bit then cpu.readFloat64 reg
  else if CpuState.usesUpperHalf cpu.control.fullFloatRegisters reg then
    cpu.fgr.read (CpuState.evenOf reg) >>> 32
  else cpu.fgr.read reg

private theorem evenOf_eq {reg : RegisterNumber} (even : reg.val % 2 = 0) :
    CpuState.evenOf reg = reg := by
  apply Fin.ext
  simp only [CpuState.evenOf]
  omega

private theorem doubleSlot_eq {full : Bool} {reg : RegisterNumber}
    (lower : CpuState.usesUpperHalf full reg = false) : CpuState.doubleSlot full reg = reg := by
  cases full with
  | true => rfl
  | false =>
      simp only [CpuState.usesUpperHalf, Bool.not_false, Bool.true_and, beq_eq_false_iff_ne,
        ne_eq] at lower
      exact evenOf_eq (by omega)

private theorem doubleSlot_upper {full : Bool} {reg : RegisterNumber}
    (upper : CpuState.usesUpperHalf full reg = true) :
    CpuState.doubleSlot full reg = CpuState.evenOf reg := by
  cases full with
  | true => cases upper
  | false => rfl

theorem low_operandOf {format : FloatFormat} (narrow : format.is64Bit = false) (cpu : CpuState)
    (reg : RegisterNumber) : (operandOf cpu format reg).setWidth 32 = cpu.readFloat32 reg := by
  unfold operandOf CpuState.readFloat32
  simp only [narrow, Bool.false_eq_true, if_false]
  cases half : CpuState.usesUpperHalf cpu.control.fullFloatRegisters reg with
  | true => simp only [doubleSlot_upper half, if_true]
  | false => simp only [doubleSlot_eq half, Bool.false_eq_true, if_false]

theorem cut_operandOf (cpu : CpuState) (format : FloatFormat) (reg : RegisterNumber) :
    format.cut (operandOf cpu format reg) = cpu.readFloat format reg := by
  unfold FloatFormat.cut CpuState.readFloat
  cases wide : format.is64Bit with
  | true => simp only [operandOf, wide, if_true]
  | false => simp only [low_operandOf wide, Bool.false_eq_true, if_false]

private theorem shiftBy_emits (op : ShiftOp) {value : ValueId} {a result : DoubleWord}
    (known : (value, a) ∈ before.known)
    (same : op.apply .double a (ValueType.u8.cast 32) = result) :
    Emits start place before (shiftBy op value 32) (fun id => before.know id result) none := by
  refine (Emits.constant _ _).bind fun count => ?_
  rw [← same]
  refine (Emits.shift (List.mem_cons_of_mem _ known) List.mem_cons_self).weaken fun id => ?_
  refine ⟨rfl, rfl, ?_, fun _ member => member⟩
  exact List.cons_subset_cons _ (List.subset_cons_self _ _)

private theorem slot_emits (reg : RegisterNumber) :
    Emits start place before (loadRegister (.float reg))
      (fun id => before.know id (before.guest.cpu.fgr.read reg)) none := by
  rw [← CpuState.readGuest_float]
  exact Emits.loadRegister (.float reg)

theorem readFloat32_emits
    (full : before.guest.cpu.control.fullFloatRegisters = place.configuration.fullFloatRegisters)
    {format : FloatFormat} (narrow : format.is64Bit = false) (reg : RegisterNumber) :
    Emits start place before (readFloat32 reg)
      (fun id => before.know id (operandOf before.guest.cpu format reg)) none := by
  unfold operandOf
  simp only [narrow, Bool.false_eq_true, if_false, full]
  refine Emits.read ?_
  cases half : CpuState.usesUpperHalf place.configuration.fullFloatRegisters reg with
  | true =>
      simp only [if_true]
      refine (slot_emits _).bind fun pair => ?_
      refine (Emits.toClass List.mem_cons_self).bind fun general => ?_
      refine (shiftBy_emits .rightLogical List.mem_cons_self rfl).bind fun high => ?_
      refine (Emits.toClass List.mem_cons_self).weaken fun id => ?_
      refine ⟨rfl, rfl, ?_, fun _ member => member⟩
      exact List.cons_subset_cons _ fun _ old => by simp [old]
  | false =>
      simp only [Bool.false_eq_true, if_false]
      exact slot_emits reg

theorem readFloat64_emits
    (full : before.guest.cpu.control.fullFloatRegisters = place.configuration.fullFloatRegisters)
    (reg : RegisterNumber) :
    Emits start place before (readFloat64 reg)
      (fun id => before.know id (before.guest.cpu.readFloat64 reg)) none := by
  refine Emits.read ?_
  simp only [CpuState.readFloat64, full]
  exact slot_emits _

theorem readFloat_emits
    (full : before.guest.cpu.control.fullFloatRegisters = place.configuration.fullFloatRegisters)
    (format : FloatFormat) (reg : RegisterNumber) :
    Emits start place before (readFloat format reg)
      (fun id => before.know id (operandOf before.guest.cpu format reg)) none := by
  unfold readFloat
  cases wide : format.is64Bit with
  | false => exact readFloat32_emits full wide reg
  | true =>
      simp only [operandOf, wide, if_true]
      exact readFloat64_emits full reg

/-! ## Results -/

private theorem bindSlot {slot : RegisterNumber} {value : ValueId} {a : DoubleWord}
    (known : (value, a) ∈ before.known) :
    Emits start place before (do
        bindRegister (.float slot) (← toClass .float value))
      (fun _ => before.changeCpu fun cpu => { cpu with fgr := cpu.fgr.write slot a }) none := by
  refine (Emits.toClass known).bind fun moved => ?_
  simp only [← CpuState.writeGuest_float]
  refine (Emits.bindRegister List.mem_cons_self).weaken fun _ => ?_
  exact ⟨rfl, rfl, List.subset_cons_self _ _, fun _ member => member⟩

theorem writeFloat64_emits
    (full : before.guest.cpu.control.fullFloatRegisters = place.configuration.fullFloatRegisters)
    {value : ValueId} {a : DoubleWord} (known : (value, a) ∈ before.known)
    (reg : RegisterNumber) :
    Emits start place before (writeFloat64 reg value)
      (fun _ => before.changeCpu (·.writeFloat64 reg a)) none := by
  refine Emits.read ?_
  refine (bindSlot known).weaken fun _ => ⟨?_, rfl, fun _ member => member, fun _ member => member⟩
  simp only [Stage.changeCpu, Stage.withGuest_guest, Machine.mapCpu, CpuState.writeFloat64, full]

/-- A value is clean if its upper word is clear. -/
def Clean (isClean : Bool) (value : DoubleWord) : Prop :=
  isClean = true → (value.setWidth 32).setWidth 64 = value

theorem lowWord_emits {value : ValueId} {a : DoubleWord} {isClean : Bool}
    (clean : Clean isClean a) (known : (value, a) ∈ before.known) :
    Emits start place before (lowWord value isClean)
      (fun id => before.know id ((a.setWidth 32).setWidth 64)) none := by
  cases isClean with
  | true =>
      rw [clean rfl]
      exact Emits.reuse known
  | false => exact Emits.cast known

private theorem merge_upper (old new : DoubleWord) :
    (new <<< 32) ||| (old.setWidth 32).setWidth 64 =
      (old &&& 0xffffffff) ||| (((new.setWidth 32).setWidth 64 : DoubleWord) <<< 32) := by
  change _ = (old &&& (BitVec.allOnes 32).setWidth 64) ||| _
  apply BitVec.eq_of_getLsbD_eq
  intro index bound
  simp only [BitVec.getLsbD_or, BitVec.getLsbD_and, BitVec.getLsbD_shiftLeft,
    BitVec.getLsbD_setWidth, BitVec.getLsbD_allOnes]
  by_cases low : index < 32
  · simp [low, bound]
  · simp [low, bound, show index - 32 < 32 by omega, show index - 32 < 64 by omega]

/-- The last steps of a write of 32 bits: the merged slot is bound. -/
private theorem bindMerged {stage : Stage β} {slot reg : RegisterNumber} {merged : ValueId}
    {new : DoubleWord} {value : Word} (within : before.Within stage)
    (known : (merged, new) ∈ stage.known)
    (is : before.guest.cpu.writeFloat32 reg value =
      { before.guest.cpu with fgr := before.guest.cpu.fgr.write slot new }) :
    Emits start place stage (do
        bindRegister (.float slot) (← toClass .float merged))
      (fun _ => before.changeCpu (·.writeFloat32 reg value)) none := by
  refine (bindSlot known).weaken fun _ => ⟨?_, within.exit, within.known, within.targets⟩
  simp only [Stage.changeCpu, Stage.withGuest_guest, Machine.mapCpu, ← within.guest, is]

theorem writeFloat32_emits
    (full : before.guest.cpu.control.fullFloatRegisters = place.configuration.fullFloatRegisters)
    {value : ValueId} {a : DoubleWord} {isClean : Bool} (clean : Clean isClean a)
    (known : (value, a) ∈ before.known) (reg : RegisterNumber) :
    Emits start place before (writeFloat32 reg value isClean)
      (fun _ => before.changeCpu (·.writeFloat32 reg (a.setWidth 32))) none := by
  refine Emits.read ?_
  cases whole : place.configuration.fullFloatRegisters with
  | true =>
      rw [whole] at full
      have is : before.guest.cpu.writeFloat32 reg (a.setWidth 32) = { before.guest.cpu with
          fgr := before.guest.cpu.fgr.write reg ((a.setWidth 32).setWidth 64) } := by
        simp only [CpuState.writeFloat32, full, if_true, CpuState.doubleSlot]
      cases isClean with
      | true =>
          refine (Emits.reuse known).bind fun low => ?_
          rw [clean rfl] at is
          exact bindMerged ⟨rfl, rfl, List.subset_cons_self _ _, fun _ member => member⟩
            List.mem_cons_self is
      | false =>
          refine (Emits.toClass known).bind fun general => ?_
          refine (Emits.cast List.mem_cons_self).bind fun low => ?_
          exact bindMerged ⟨rfl, rfl, fun _ old => by simp [old], fun _ member => member⟩
            List.mem_cons_self is
  | false =>
      rw [whole] at full
      refine (slot_emits _).bind fun slot => ?_
      refine (Emits.toClass List.mem_cons_self).bind fun old => ?_
      refine (Emits.toClass (List.mem_cons_of_mem _ (List.mem_cons_of_mem _ known))).bind
        fun general => ?_
      split
      · rename_i even
        refine (Emits.number _).bind fun mask => ?_
        refine (Emits.binaryPlain rfl (List.mem_cons_of_mem _ (List.mem_cons_of_mem _
          List.mem_cons_self)) List.mem_cons_self rfl).bind fun high => ?_
        refine (lowWord_emits clean (List.mem_cons_of_mem _ (List.mem_cons_of_mem _
          List.mem_cons_self))).bind fun low => ?_
        refine (Emits.binaryPlain rfl (List.mem_cons_of_mem _ List.mem_cons_self)
          List.mem_cons_self rfl).bind fun merged => ?_
        refine bindMerged ⟨rfl, rfl, fun _ old => by simp [old], fun _ member => member⟩
          List.mem_cons_self ?_
        have lower : CpuState.usesUpperHalf false reg = false := by
          simp [CpuState.usesUpperHalf, even]
        simp only [CpuState.writeFloat32, full, Bool.false_eq_true, if_false, lower]
        rfl
      · rename_i odd
        refine (Emits.cast (List.mem_cons_of_mem _ List.mem_cons_self)).bind fun low => ?_
        refine (shiftBy_emits .left (List.mem_cons_of_mem _ List.mem_cons_self) rfl).bind
          fun high => ?_
        refine (Emits.binaryPlain rfl List.mem_cons_self (List.mem_cons_of_mem _
          List.mem_cons_self) rfl).bind fun merged => ?_
        refine bindMerged ⟨rfl, rfl, fun _ old => by simp [old], fun _ member => member⟩
          List.mem_cons_self ?_
        have upper : CpuState.usesUpperHalf false reg = true := by
          simp only [CpuState.usesUpperHalf, Bool.not_false, Bool.true_and, beq_iff_eq]
          omega
        simp only [CpuState.writeFloat32, full, Bool.false_eq_true, if_false, upper, if_true]
        rw [← merge_upper]
        rfl

/-- A result is clean if nothing stands above the bits of its format. -/
theorem writeFloat_emits
    (full : before.guest.cpu.control.fullFloatRegisters = place.configuration.fullFloatRegisters)
    (format : FloatFormat) {value : ValueId} {a : DoubleWord} {isClean : Bool}
    (clean : isClean = true → format.cut a = a) (known : (value, a) ∈ before.known)
    (reg : RegisterNumber) :
    Emits start place before (writeFloat format reg value isClean)
      (fun _ => before.changeCpu (·.writeFloat format reg a)) none := by
  unfold writeFloat CpuState.writeFloat
  unfold FloatFormat.cut at clean
  cases wide : format.is64Bit with
  | true => exact writeFloat64_emits full known reg
  | false =>
      rw [wide] at clean
      exact writeFloat32_emits full clean known reg

/-! ## Moves -/

theorem moveFromFloat_follows
    (full : before.guest.cpu.control.fullFloatRegisters = place.configuration.fullFloatRegisters)
    (double : Bool) :
    Follows start place before (moveFromFloat double)
      (Interpreter.writeGpr place.entry.inst.rt
        (if double then before.guest.cpu.readFloat64 place.entry.inst.rd
          else (before.guest.cpu.readFloat32 place.entry.inst.rd).signExtend 64)
        before.guest) := by
  refine Emits.theInstruction ?_
  cases double with
  | true =>
      refine (readFloat64_emits full _).bind fun slot => ?_
      refine (Emits.toClass List.mem_cons_self).bind fun value => ?_
      exact (Emits.setGpr List.mem_cons_self).follows_next rfl rfl
  | false =>
      have narrow : FloatFormat.single.is64Bit = false := rfl
      refine (readFloat32_emits full narrow _).bind fun operand => ?_
      refine (Emits.toClass List.mem_cons_self).bind fun general => ?_
      refine (Emits.cast List.mem_cons_self).bind fun value => ?_
      rw [if_neg (by decide), ← low_operandOf narrow]
      exact (Emits.setGpr List.mem_cons_self).follows_next rfl rfl

theorem moveToFloat_follows
    (full : before.guest.cpu.control.fullFloatRegisters = place.configuration.fullFloatRegisters)
    (double : Bool) :
    Follows start place before (moveToFloat double)
      (Interpreter.changeCpu (fun cpu =>
        if double then
          cpu.writeFloat64 place.entry.inst.rd (before.guest.cpu.readGpr place.entry.inst.rt)
        else cpu.writeFloat32 place.entry.inst.rd
          ((before.guest.cpu.readGpr place.entry.inst.rt).setWidth 32)) before.guest) := by
  refine Emits.theInstruction ?_
  refine (Emits.gpr _).bind fun value => ?_
  cases double with
  | true =>
      have writes : Emits start place (before.know value
          (before.guest.cpu.readGpr place.entry.inst.rt)) (writeFloat64 place.entry.inst.rd value)
          _ none :=
        writeFloat64_emits (by exact full) List.mem_cons_self _
      exact writes.follows_next rfl rfl
  | false =>
      have writes : Emits start place (before.know value
          (before.guest.cpu.readGpr place.entry.inst.rt))
          (writeFloat32 place.entry.inst.rd value false) _ none :=
        writeFloat32_emits (by exact full) (by exact nofun) List.mem_cons_self _
      exact writes.follows_next rfl rfl

theorem moveFromFloatControl_follows :
    Follows start place before moveFromFloatControl
      (Interpreter.writeGpr place.entry.inst.rt
        (before.guest.cpu.readFloatControl place.entry.inst.rd) before.guest) := by
  refine Emits.theInstruction ?_
  have low : ValueType.s32.cast (before.guest.cpu.readField .fcr31) =
      before.guest.cpu.fcr31.signExtend 64 := by
    simp [ValueType.cast, ValueType.isSigned, ValueType.size, AccessSize.bits, AccessSize.bytes,
      CpuState.readField]
  split
  · rename_i is
    rw [is]
    refine (Emits.number _).bind fun value => ?_
    exact (Emits.setGpr List.mem_cons_self).follows_next rfl rfl
  · rename_i is
    rw [is]
    refine (Emits.loadState (by simp)).bind fun fcr31 => ?_
    refine (Emits.cast List.mem_cons_self).bind fun value => ?_
    rw [low]
    exact (Emits.setGpr List.mem_cons_self).follows_next rfl rfl
  · rename_i revision status
    have nothing : before.guest.cpu.readFloatControl place.entry.inst.rd = 0 := by
      unfold CpuState.readFloatControl
      split <;> simp_all
    rw [nothing]
    refine (Emits.number _).bind fun value => ?_
    exact (Emits.setGpr List.mem_cons_self).follows_next rfl rfl

theorem moveToFloatControl_follows :
    Follows start place before moveToFloatControl
      (Interpreter.changeCpu (·.writeFloatControl place.entry.inst.rd
        (before.guest.cpu.readGpr place.entry.inst.rt)) before.guest) := by
  refine Emits.theInstruction ?_
  split
  · rename_i control
    refine (Emits.gpr _).bind fun value => ?_
    refine (Emits.number _).bind fun mask => ?_
    refine (Emits.binaryPlain rfl (List.mem_cons_of_mem _ List.mem_cons_self) List.mem_cons_self
      rfl).bind fun bits => ?_
    refine (Emits.storeState List.mem_cons_self (by simp)).bind fun _ => ?_
    refine (Emits.pure ()).follows_next ?_ rfl
    simp [Stage.changeCpu, Machine.mapCpu, CpuState.writeField, CpuState.writeFloatControl, control]
  · rename_i other
    refine (Emits.pure ()).follows_next ?_ rfl
    simp [Machine.mapCpu, CpuState.writeFloatControl, other]

/-! ## Arithmetic -/

@[simp] private theorem low_cut (value : DoubleWord) :
    (FloatFormat.single.cut value).setWidth 32 = value.setWidth 32 := by
  simp [FloatFormat.cut, FloatFormat.is64Bit]

private theorem singleOf_cut (value : DoubleWord) :
    FloatingPoint.singleOf (FloatFormat.single.cut value) = FloatingPoint.singleOf value := by
  unfold FloatingPoint.singleOf
  rw [low_cut]

private theorem cut_ofSingle (value : Float32) :
    FloatFormat.single.cut (FloatingPoint.ofSingle value) = FloatingPoint.ofSingle value := by
  simp [FloatFormat.cut, FloatFormat.is64Bit, FloatingPoint.ofSingle]

private theorem cut_low (value : Word) : FloatFormat.single.cut (value.setWidth 64) =
    value.setWidth 64 := by
  simp [FloatFormat.cut, FloatFormat.is64Bit]

theorem binary_cut (op : FloatOp) {format : FloatFormat} (float : format.isFloat = true)
    (a b : DoubleWord) :
    FloatingPoint.binary op format (format.cut a) (format.cut b) =
      FloatingPoint.binary op format a b := by
  cases format with
  | single => simp only [FloatingPoint.binary, singleOf_cut]
  | double => rfl
  | word | long => cases float

theorem cut_binary (op : FloatOp) {format : FloatFormat} (float : format.isFloat = true)
    (a b : DoubleWord) :
    format.cut (FloatingPoint.binary op format a b) = FloatingPoint.binary op format a b := by
  cases format with
  | single => exact cut_ofSingle _
  | double => rfl
  | word | long => cases float

theorem unary_cut (op : FloatUnaryOp) {format : FloatFormat} (float : format.isFloat = true)
    (a : DoubleWord) :
    FloatingPoint.unary op format (format.cut a) = FloatingPoint.unary op format a := by
  cases format with
  | single => simp only [FloatingPoint.unary, singleOf_cut, low_cut]
  | double => rfl
  | word | long => cases float

theorem cut_unary (op : FloatUnaryOp) {format : FloatFormat} (float : format.isFloat = true)
    (a : DoubleWord) :
    format.cut (FloatingPoint.unary op format a) = FloatingPoint.unary op format a := by
  cases format with
  | single =>
      cases op with
      | sqrt => exact cut_ofSingle _
      | abs | neg => exact cut_low _
  | double => rfl
  | word | long => cases float

theorem convert_cut (source target : FloatFormat) (mode : RoundMode) (a : DoubleWord) :
    FloatingPoint.convert source target mode (source.cut a) =
      FloatingPoint.convert source target mode a := by
  have word : (FloatFormat.word.cut a).setWidth 32 = a.setWidth 32 := low_cut a
  cases source with
  | single => simp only [FloatingPoint.convert, singleOf_cut]
  | double | long => rfl
  | word => simp only [FloatingPoint.convert, word]

theorem cut_convert (source target : FloatFormat) (mode : RoundMode) (a : DoubleWord) :
    target.cut (FloatingPoint.convert source target mode a) =
      FloatingPoint.convert source target mode a := by
  cases target with
  | single => exact cut_ofSingle _
  | double | long => rfl
  | word => exact cut_low _

theorem compare_cut (condition : Nat) {format : FloatFormat} (float : format.isFloat = true)
    (a b : DoubleWord) :
    FloatingPoint.compare condition format (format.cut a) (format.cut b) =
      FloatingPoint.compare condition format a b := by
  cases format with
  | single => simp only [FloatingPoint.compare, singleOf_cut]
  | double => rfl
  | word | long => cases float

private theorem cut_cut (format : FloatFormat) (a : DoubleWord) :
    format.cut (format.cut a) = format.cut a := by
  cases format <;> simp [FloatFormat.cut, FloatFormat.is64Bit]

private theorem legally_follows {α : Type} {said : Except IllegalInstruction α}
    {emit : α → Emit Unit} {execute : α → Execution β Flow}
    (follows : ∀ value, said = .ok value →
      Follows start place before (emit value) (execute value before.guest)) :
    Follows start place before (legally said >>= emit)
      ((Interpreter.legally said >>= execute) before.guest) := by
  cases said with
  | ok value => exact follows value rfl
  | error reason => exact Emits.of_error nofun

private theorem arithmeticFormat_isFloat {inst : Instruction} {pc : DoubleWord}
    {format : FloatFormat} (legal : inst.arithmeticFormat pc = .ok format) :
    format.isFloat = true := by
  unfold Instruction.arithmeticFormat FloatFormat.arithmeticOfField? at legal
  split at legal
  · rename_i found
    cases legal
    exact (Option.filter_eq_some_iff.mp found).2
  · cases legal

section Arithmetic

variable (full : before.guest.cpu.control.fullFloatRegisters =
  place.configuration.fullFloatRegisters)

include full

/-- The last steps of an instruction that computes a floating point result. -/
private theorem result_follows {format : FloatFormat} {result : ValueId} {a : DoubleWord}
    {isClean : Bool} {reg : RegisterNumber} {value : CpuState → DoubleWord}
    (same : format.cut a = format.cut (value before.guest.cpu))
    (clean : isClean = true → format.cut a = a) (known : (result, a) ∈ before.known) :
    Follows start place before (writeFloat format reg result isClean)
      (Interpreter.floatResult format reg value before.guest) := by
  refine (writeFloat_emits full format clean known reg).follows_next ?_ rfl
  unfold FloatFormat.cut at same
  simp only [Stage.changeCpu, Stage.withGuest_guest, Machine.mapCpu, CpuState.writeFloat]
  cases wide : format.is64Bit with
  | true =>
      simp only [wide, if_true] at same
      rw [same]
  | false =>
      simp only [wide, Bool.false_eq_true, if_false] at same
      have low : a.setWidth 32 = (value before.guest.cpu).setWidth 32 := by
        have cut := congrArg (BitVec.setWidth 32) same
        simpa using cut
      rw [low]
      rfl

theorem floatArithmetic_follows (op : FloatOp) :
    Follows start place before (floatArithmetic op)
      ((do
        let format ← Interpreter.legally (place.entry.inst.arithmeticFormat place.entry.pc)
        Interpreter.floatResult format place.entry.inst.fd fun cpu =>
          FloatingPoint.binary op format (cpu.readFloat format place.entry.inst.fs)
            (cpu.readFloat format place.entry.inst.ft) : Execution β Flow) before.guest) := by
  refine legally_follows fun format legal => ?_
  have float := arithmeticFormat_isFloat legal
  refine Emits.theInstruction ?_
  refine (readFloat_emits full _ _).bind fun lhs => ?_
  refine (readFloat_emits (by exact full) _ _).bind fun rhs => ?_
  refine (Emits.floatBinary (List.mem_cons_of_mem _ List.mem_cons_self) List.mem_cons_self).bind
    fun result => ?_
  refine result_follows (by exact full) ?_ (fun _ => cut_binary op float _ _) List.mem_cons_self
  simp only [Stage.know_guest, ← cut_operandOf, binary_cut op float]

theorem floatUnary_follows (op : FloatUnaryOp) :
    Follows start place before (floatUnary op)
      ((do
        let format ← Interpreter.legally (place.entry.inst.arithmeticFormat place.entry.pc)
        Interpreter.floatResult format place.entry.inst.fd fun cpu =>
          FloatingPoint.unary op format (cpu.readFloat format place.entry.inst.fs)
        : Execution β Flow) before.guest) := by
  refine legally_follows fun format legal => ?_
  have float := arithmeticFormat_isFloat legal
  refine Emits.theInstruction ?_
  refine (readFloat_emits full _ _).bind fun operand => ?_
  refine (Emits.floatUnary List.mem_cons_self).bind fun result => ?_
  refine result_follows (by exact full) ?_ (fun _ => cut_unary op float _) List.mem_cons_self
  simp only [Stage.know_guest, ← cut_operandOf, unary_cut op float]

theorem floatMove_follows :
    Follows start place before floatMove
      ((do
        let format ← Interpreter.legally (place.entry.inst.arithmeticFormat place.entry.pc)
        Interpreter.floatResult format place.entry.inst.fd
          (·.readFloat format place.entry.inst.fs) : Execution β Flow) before.guest) := by
  refine legally_follows fun format legal => ?_
  refine Emits.theInstruction ?_
  refine (readFloat_emits full _ _).bind fun operand => ?_
  refine result_follows (by exact full) ?_ nofun List.mem_cons_self
  simp only [Stage.know_guest, ← cut_operandOf, cut_cut]

theorem floatConvert_follows (target : FloatFormat) (mode : RoundMode) :
    Follows start place before (floatConvert target mode)
      ((do
        let source ← Interpreter.legally
          (place.entry.inst.conversionSource place.entry.pc target)
        Interpreter.floatResult target place.entry.inst.fd fun cpu =>
          FloatingPoint.convert source target mode (cpu.readFloat source place.entry.inst.fs)
        : Execution β Flow) before.guest) := by
  refine Emits.read ?_
  refine legally_follows fun source legal => ?_
  refine (readFloat_emits full _ _).bind fun operand => ?_
  refine (Emits.floatConvert List.mem_cons_self).bind fun result => ?_
  refine result_follows (by exact full) ?_ (fun _ => cut_convert _ _ _ _) List.mem_cons_self
  simp only [Stage.know_guest, ← cut_operandOf, convert_cut]

theorem floatCompare_follows :
    Follows start place before floatCompare
      ((do
        let format ← Interpreter.legally (place.entry.inst.arithmeticFormat place.entry.pc)
        Interpreter.changeCpu fun cpu => cpu.setFloatCondition
          (FloatingPoint.compare place.entry.inst.condition.val format
            (cpu.readFloat format place.entry.inst.fs)
            (cpu.readFloat format place.entry.inst.ft)) : Execution β Flow) before.guest) := by
  refine legally_follows fun format legal => ?_
  have float := arithmeticFormat_isFloat legal
  have small : (BitVec.ofNat 8 place.entry.inst.condition.val).toNat =
      place.entry.inst.condition.val := by
    simp only [BitVec.toNat_ofNat]
    omega
  refine Emits.theInstruction ?_
  refine (readFloat_emits full _ _).bind fun lhs => ?_
  refine (readFloat_emits (by exact full) _ _).bind fun rhs => ?_
  refine (Emits.floatCompare (List.mem_cons_of_mem _ List.mem_cons_self)
    List.mem_cons_self).bind fun _ => ?_
  refine (Emits.pure ()).follows_next ?_ rfl
  simp only [Stage.changeCpu, Stage.withGuest_guest, Stage.know_guest, Machine.mapCpu, small,
    ← cut_operandOf, compare_cut _ float]

/-! ## Loads and stores -/

omit [Bus β] full in
private theorem stored_cut (size : AccessSize) (value : DoubleWord) :
    (((if size = .double then .double else .single : FloatFormat).cut value).setWidth
      size.bits).setWidth 64 = (value.setWidth size.bits).setWidth 64 := by
  cases size <;> simp [FloatFormat.cut, FloatFormat.is64Bit, AccessSize.bits, AccessSize.bytes]

omit full in
private theorem loaded_cut [LawfulBus β] (bus : β) (physical : Word) (size : AccessSize) :
    (if size = .double then .double else .single : FloatFormat).cut
        (size.widen false (Bus.read bus physical size).1) =
      size.widen false (Bus.read bus physical size).1 := by
  have widens (value : DoubleWord) : size.widen false value = value := rfl
  rw [widens, ← LawfulBus.read_fits]
  cases size <;> simp [FloatFormat.cut, FloatFormat.is64Bit, AccessSize.bits, AccessSize.bytes]

theorem loadStoreFloat_follows [LawfulBus β] (form : Form) (size : AccessSize) :
    Follows start place before (loadStoreFloat form size)
      ((if form = .floatStore then do
          accessing (Machine.store size (addressOf place before.guest)
            (before.guest.cpu.readFloat (if size = .double then .double else .single)
              place.entry.inst.rt))
          return .next
        else do
          let value ← accessing (Machine.load size false (addressOf place before.guest))
          Interpreter.floatResult (if size = .double then .double else .single)
            place.entry.inst.rt fun _ => value : Execution β Flow) before.guest) := by
  refine Emits.theInstruction ?_
  by_cases stores : form = .floatStore
  · simp only [stores, if_true]
    have reads : ∀ stage : Stage β, stage.guest = before.guest → Emits start place stage
        (readFloat (if size = .double then .double else .single) place.entry.inst.rt)
        (fun id => stage.know id (operandOf before.guest.cpu
          (if size = .double then .double else .single) place.entry.inst.rt)) none := by
      intro stage same
      rw [← same] at full ⊢
      exact readFloat_emits full _ _
    refine store_follows reads ?_
    rw [← cut_operandOf, stored_cut]
  · simp only [stores, if_false]
    refine load_follows fun stage id value known same read => ?_
    obtain ⟨bus, physical, rfl⟩ := read
    refine writeFloat_emits ?_ _ (fun _ => loaded_cut bus physical size) known _
    rw [same]
    exact full

end Arithmetic

end Emission

end MipsRecompiler
