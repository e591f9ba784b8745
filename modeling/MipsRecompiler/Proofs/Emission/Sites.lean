import MipsRecompiler.Proofs.Emission.Unit
import MipsRecompiler.Proofs.Ir.Totality

/-!
# Every way out is named

Whatever is emitted, a value that can leave the block gets a site, and a block that is finished
says where the guest continues. So the block of a unit comes to an end on every machine.
-/

set_option autoImplicit false

namespace MipsRecompiler

namespace Emission

open Ir

/-- Values that can leave have a site, and a progress that calls its exit set is right. -/
structure Sited (progress : Progress) : Prop where
  sites : ∀ entry ∈ progress.draft.block.values,
    entry.2.kind.leaves = true → entry.2.site.isSome = true
  exit : progress.exitPcSet = true →
    ∃ entry ∈ progress.draft.block.values, entry.2.kind.continues = true

/-- Emitting at a place keeps it so that every way out is named, and fails only for some
reasons. -/
structure Names (place : Place) (refuses : CompileError → Prop) {α : Type} (emit : Emit α) :
    Prop where
  sited : ∀ progress value next, emit place progress = .ok value next →
    Sited progress → Sited next
  refused : ∀ progress reason left, emit place progress = .error reason left → refuses reason

/-- Why the instruction at a place is not emitted: one of its formats cannot be used. -/
def Place.Refuses (place : Place) (reason : CompileError) : Prop :=
  reason = .illegal (.reserved place.entry.pc place.entry.inst.word) ∧
    ¬ place.entry.inst.FormatsLegal place.entry.pc place.entry.operation

variable {α τ : Type} {progress : Progress} {place : Place} {refuses : CompileError → Prop}

theorem Sited.empty : Sited .empty := by
  have none : Progress.empty.draft.block.values = [] := rfl
  constructor
  · intro entry member
    rw [none] at member
    cases member
  · intro set
    cases set

private theorem Sited.append (sited : Sited progress) {value : Value}
    (site : value.kind.leaves = true → value.site.isSome = true) :
    Sited (progress.append value) := by
  have values : (progress.append value).draft.block.values =
      progress.draft.block.values ++ [(progress.draft.block.bound, value)] := Block.values_push _ _
  constructor
  · intro entry member
    rw [values] at member
    rcases List.mem_append.mp member with old | new
    · exact sited.sites entry old
    · cases List.mem_singleton.mp new
      exact site
  · intro set
    obtain ⟨entry, member, continues⟩ := sited.exit set
    refine ⟨entry, ?_, continues⟩
    rw [values]
    exact List.mem_append_left _ member

namespace Names

private theorem of_ok {emit : Emit α} (change : Progress → Progress)
    (succeeds : ∀ progress, ∃ value, emit place progress = .ok value (change progress))
    (keeps : ∀ progress, Sited progress → Sited (change progress)) : Names place refuses emit := by
  constructor
  · intro progress value next emitted sited
    obtain ⟨_, same⟩ := succeeds progress
    cases same.symm.trans emitted
    exact keeps progress sited
  · intro progress reason left fails
    obtain ⟨_, same⟩ := succeeds progress
    cases same.symm.trans fails

theorem pure (value : α) : Names place refuses (pure value) :=
  of_ok id (fun _ => ⟨_, rfl⟩) fun _ sited => sited

theorem bind {emit : Emit α} {rest : α → Emit τ} (first : Names place refuses emit)
    (second : ∀ value, Names place refuses (rest value)) : Names place refuses (emit >>= rest) := by
  constructor
  · intro progress result next emitted before
    obtain ⟨value, middle, one, two⟩ := Emits.bind_ok emitted
    have between := first.sited progress value middle one before
    exact (second value).sited middle result next two between
  · intro progress reason left fails
    rcases Emits.bind_error fails with one | ⟨value, middle, -, two⟩
    · exact first.refused progress reason left one
    · exact (second value).refused middle reason left two

theorem read : Names place refuses (MonadReader.read : Emit Place) :=
  of_ok id (fun _ => ⟨_, rfl⟩) fun _ sited => sited

theorem atPlace {rest : Place → Emit τ} (names : Names place refuses (rest place)) :
    Names place refuses (MonadReader.read >>= rest) :=
  ⟨names.sited, names.refused⟩

theorem get : Names place refuses (MonadState.get : Emit Progress) :=
  of_ok id (fun _ => ⟨_, rfl⟩) fun _ sited => sited

theorem theInstruction : Names place refuses theInstruction :=
  read.bind fun _ => .pure _

theorem onDraft {change : Draft → α × Draft}
    (appends : ∀ progress, Sited progress →
      Sited { progress with draft := (change progress.draft).2 }) :
    Names place refuses (onDraft change) :=
  of_ok (fun progress => { progress with draft := (change progress.draft).2 })
    (fun _ => ⟨_, rfl⟩) appends

theorem push {kind : Kind} (stays : kind.leaves = false) : Names place refuses (push kind) :=
  .onDraft fun _ sited => sited.append fun leaves => by
    rw [stays] at leaves
    cases leaves

theorem constant (type : ValueType) (value : DoubleWord) :
    Names place refuses (constant type value) :=
  .onDraft fun _ sited => sited.append nofun

theorem pushRaising (kind : Kind) : Names place refuses (pushRaising kind) :=
  read.bind fun _ => .onDraft fun _ sited => sited.append fun _ => rfl

private theorem bound {draft : Draft} {floatChecked exitPcSet : Bool}
    (sited : Sited ⟨draft, floatChecked, exitPcSet⟩) (reg : GuestRegister) (id : ValueId) :
    Sited ⟨draft.bind reg id, floatChecked, exitPcSet⟩ := by
  unfold Draft.bind
  split
  · exact sited
  · exact ⟨sited.sites, sited.exit⟩

theorem bindRegister (reg : GuestRegister) (value : ValueId) :
    Names place refuses (bindRegister reg value) :=
  .onDraft fun _ sited => bound sited reg value

theorem loadRegister (reg : GuestRegister) : Names place refuses (loadRegister reg) := by
  refine .onDraft fun progress sited => ?_
  unfold Draft.loadRegister
  split
  · exact sited.append nofun
  · split
    · exact sited
    · have pushed : Sited (progress.append ⟨.loadRegister reg, none⟩) := sited.append nofun
      exact bound pushed reg _

theorem gpr (reg : RegisterNumber) : Names place refuses (gpr reg) :=
  loadRegister _

theorem setGpr (reg : RegisterNumber) (value : ValueId) : Names place refuses (setGpr reg value) :=
  bindRegister _ value

theorem binary (op : BinaryOp) (lhs rhs : ValueId) : Names place refuses (binary op lhs rhs) := by
  unfold Emission.binary
  cases traps : op.traps with
  | true => exact pushRaising _
  | false => exact push traps

theorem cast (type : ValueType) (operand : ValueId) : Names place refuses (cast type operand) :=
  push rfl

theorem check (mode : Comparison) (lhs rhs : ValueId) : Names place refuses (check mode lhs rhs) :=
  push rfl

theorem raiseIf (condition : ValueId) (cause : ExceptionCause) :
    Names place refuses (raiseIf condition cause) :=
  read.bind fun _ => (pushRaising _).bind fun _ => .pure _

theorem raise (code : ExceptionCode) : Names place refuses (raise code) :=
  (constant _ _).bind fun always => raiseIf always _

theorem pushExitPc {kind : Kind} (stays : kind.leaves = false)
    (continues : kind.continues = true) : Names place refuses (pushExitPc kind) := by
  refine of_ok (fun progress => { progress.append ⟨kind, none⟩ with exitPcSet := true })
    (fun _ => ⟨_, rfl⟩) fun progress sited => ?_
  have pushed : Sited (progress.append ⟨kind, none⟩) := sited.append fun leaves => by
    rw [stays] at leaves
    cases leaves
  refine ⟨pushed.sites, fun _ => ⟨(progress.draft.block.bound, ⟨kind, none⟩), ?_, continues⟩⟩
  have values : (progress.append ⟨kind, none⟩).draft.block.values =
      progress.draft.block.values ++ [(progress.draft.block.bound, ⟨kind, none⟩)] :=
    Block.values_push _ _
  have member : (progress.draft.block.bound, (⟨kind, none⟩ : Value)) ∈
      (progress.append ⟨kind, none⟩).draft.block.values := by
    rw [values]
    exact List.mem_append_right _ (List.mem_singleton.mpr rfl)
  exact member

theorem kindOf (id : ValueId) : Names place refuses (kindOf id) :=
  get.bind fun _ => .pure _

theorem toClass (registerClass : RegisterClass) (value : ValueId) :
    Names place refuses (toClass registerClass value) := by
  refine (kindOf value).bind fun kind => ?_
  split
  · exact .pure _
  · exact push rfl

theorem legally {result : Except IllegalInstruction α}
    (refused : ∀ reason, result = .error reason → refuses (.illegal reason)) :
    Names place refuses (legally result) := by
  cases result with
  | ok value => exact .pure value
  | error illegal =>
      constructor
      · intro progress value next emitted
        cases emitted
      · intro progress reason left fails
        cases fails
        exact refused illegal rfl

/-! ## Branches -/

theorem link (reg : RegisterNumber) : Names place refuses (link reg) :=
  (read.bind fun _ => .pure _).bind fun _ => (constant _ _).bind fun _ => setGpr _ _

theorem jump (linking : Bool) : Names place refuses (jump linking) := by
  refine read.bind fun place => (constant _ _).bind fun target => ?_
  cases linking with
  | false => exact pushExitPc rfl rfl
  | true => exact (link _).bind fun _ => pushExitPc rfl rfl

theorem jumpRegister (linking : Bool) : Names place refuses (jumpRegister linking) := by
  refine theInstruction.bind fun inst => (gpr _).bind fun target => ?_
  cases linking with
  | false => exact pushExitPc rfl rfl
  | true => exact (link _).bind fun _ => pushExitPc rfl rfl

theorem branchIf (condition : ValueId) (likely : Bool) :
    Names place refuses (branchIf condition likely) := by
  refine read.bind fun place => (read.bind fun _ => .pure _).bind fun behind =>
    (constant _ _).bind fun taken => (constant _ _).bind fun notTaken =>
      (pushExitPc rfl rfl).bind fun _ => ?_
  cases likely with
  | false => exact .pure _
  | true =>
      exact (constant _ _).bind fun _ => (binary _ _ _).bind fun _ =>
        (pushRaising _).bind fun _ => .pure _

theorem branch (mode : Comparison) (comparesTwo linking likely : Bool) :
    Names place refuses (branch mode comparesTwo linking likely) := by
  have rest (condition : ValueId) : Names place refuses (if linking then do
      Emission.link 31
      Emission.branchIf condition likely else Emission.branchIf condition likely) := by
    cases linking with
    | false => exact branchIf _ _
    | true => exact (link _).bind fun _ => branchIf _ _
  refine theInstruction.bind fun inst => (gpr _).bind fun lhs => ?_
  cases comparesTwo with
  | false => exact (constant _ _).bind fun rhs => (check _ _ _).bind rest
  | true => exact (gpr _).bind fun rhs => (check _ _ _).bind rest

theorem branchFloat (onTrue likely : Bool) : Names place refuses (branchFloat onTrue likely) :=
  (push rfl).bind fun _ => (constant _ _).bind fun _ => (binary _ _ _).bind fun _ =>
    (constant _ _).bind fun _ => (check _ _ _).bind fun _ => branchIf _ _

theorem delaySlotFetchFault (fault : Fault) : Names place refuses (delaySlotFetchFault fault) :=
  read.bind fun _ => (constant _ _).bind fun _ =>
    (onDraft fun _ sited => sited.append fun _ => rfl).bind fun _ => .pure _

/-! ## Memory -/

theorem effectiveAddress : Names place refuses effectiveAddress :=
  theInstruction.bind fun _ => (gpr _).bind fun _ => (constant _ _).bind fun _ => binary _ _ _

theorem translatedAddress (access : AccessKind) (size : AccessSize) :
    Names place refuses (translatedAddress access size) :=
  effectiveAddress.bind fun _ => pushRaising _

theorem loadStore (form : Form) (size : AccessSize) (signed : Bool) :
    Names place refuses (loadStore form size signed) := by
  refine theInstruction.bind fun inst => ?_
  split
  · exact (translatedAddress _ _).bind fun _ => (gpr _).bind fun _ =>
      (push rfl).bind fun _ => .pure _
  · exact (translatedAddress _ _).bind fun _ => (push rfl).bind fun _ => setGpr _ _

theorem loadStorePart (form : Form) (load store : Routine) :
    Names place refuses (loadStorePart form load store) := by
  refine theInstruction.bind fun inst => effectiveAddress.bind fun address =>
    (gpr _).bind fun register => ?_
  split
  · exact (pushRaising _).bind fun _ => .pure _
  · exact (pushRaising _).bind fun _ => setGpr _ _

theorem loadStoreLinked (form : Form) (size : AccessSize) :
    Names place refuses (loadStoreLinked form size) := by
  refine theInstruction.bind fun inst => effectiveAddress.bind fun address => ?_
  split
  · exact (gpr _).bind fun _ => (pushRaising _).bind fun _ => setGpr _ _
  · exact (pushRaising _).bind fun _ => setGpr _ _

/-! ## Floating point -/

theorem checkFloatUsable : Names place refuses checkFloatUsable := by
  refine get.bind fun progress => ?_
  split
  · exact .pure _
  · refine Names.bind (α := PUnit) ?_ fun _ => (push rfl).bind fun _ => (constant _ _).bind fun _ =>
      (binary _ _ _).bind fun _ => (constant _ _).bind fun _ => (check _ _ _).bind fun _ =>
        raiseIf _ _
    exact of_ok (fun progress => { progress with floatChecked := true }) (fun _ => ⟨_, rfl⟩)
      fun _ sited => ⟨sited.sites, sited.exit⟩

theorem shiftBy (op : ShiftOp) (value : ValueId) (amount : DoubleWord) :
    Names place refuses (shiftBy op value amount) :=
  (constant _ _).bind fun _ => push rfl

theorem hasFullFloats : Names place refuses hasFullFloats :=
  read.bind fun _ => .pure _

theorem readFloat32 (reg : RegisterNumber) : Names place refuses (readFloat32 reg) := by
  refine hasFullFloats.bind fun full => ?_
  split
  · exact (loadRegister _).bind fun _ => (toClass _ _).bind fun _ => (shiftBy _ _ _).bind fun _ =>
      toClass _ _
  · exact loadRegister _

theorem lowWord (value : ValueId) (isClean : Bool) :
    Names place refuses (lowWord value isClean) := by
  cases isClean with
  | false => exact cast _ _
  | true => exact .pure _

theorem writeFloat32 (reg : RegisterNumber) (value : ValueId) (isClean : Bool) :
    Names place refuses (writeFloat32 reg value isClean) := by
  refine hasFullFloats.bind fun full => ?_
  cases full with
  | true =>
      cases isClean with
      | false =>
          exact (toClass _ _).bind fun _ => (cast _ _).bind fun _ => (toClass _ _).bind fun _ =>
            bindRegister _ _
      | true => exact (toClass _ _).bind fun _ => bindRegister _ _
  | false =>
      refine (loadRegister _).bind fun _ => (toClass _ _).bind fun old =>
        (toClass _ _).bind fun value => ?_
      have rest (merged : ValueId) :
    Names place refuses (Emission.toClass .float merged >>= fun value =>
          Emission.bindRegister (.float (CpuState.evenOf reg)) value) :=
        (toClass _ _).bind fun _ => bindRegister _ _
      dsimp only
      split
      · exact (constant _ _).bind fun _ => (binary _ _ _).bind fun _ => (lowWord _ _).bind fun _ =>
          (binary _ _ _).bind rest
      · exact (cast _ _).bind fun _ => (shiftBy _ _ _).bind fun _ => (binary _ _ _).bind rest

theorem readFloat64 (reg : RegisterNumber) : Names place refuses (readFloat64 reg) :=
  (hasFullFloats.bind fun _ => .pure _).bind fun _ => loadRegister _

theorem writeFloat64 (reg : RegisterNumber) (value : ValueId) :
    Names place refuses (writeFloat64 reg value) :=
  (hasFullFloats.bind fun _ => .pure _).bind fun _ => (toClass _ _).bind fun _ => bindRegister _ _

theorem readFloat (format : FloatFormat) (reg : RegisterNumber) :
    Names place refuses (readFloat format reg) := by
  unfold Emission.readFloat
  split
  · exact readFloat64 _
  · exact readFloat32 _

theorem writeFloat (format : FloatFormat) (reg : RegisterNumber) (value : ValueId)
    (isClean : Bool) : Names place refuses (writeFloat format reg value isClean) := by
  unfold Emission.writeFloat
  split
  · exact writeFloat64 _ _
  · exact writeFloat32 _ _ _

theorem loadStoreFloat (form : Form) (size : AccessSize) :
    Names place refuses (loadStoreFloat form size) := by
  refine theInstruction.bind fun inst => ?_
  dsimp only
  by_cases store : form = .floatStore
  · rw [if_pos store]
    exact (translatedAddress _ _).bind fun _ => (readFloat _ _).bind fun _ =>
      (push rfl).bind fun _ => .pure _
  · rw [if_neg store]
    exact (translatedAddress _ _).bind fun _ => (push rfl).bind fun _ => writeFloat _ _ _ _

theorem moveFromFloat (double : Bool) : Names place refuses (moveFromFloat double) := by
  refine theInstruction.bind fun inst => ?_
  cases double with
  | true => exact (readFloat64 _).bind fun _ => (toClass _ _).bind fun _ => setGpr _ _
  | false =>
      exact (readFloat32 _).bind fun _ => (toClass _ _).bind fun _ => (cast _ _).bind fun _ =>
        setGpr _ _

theorem moveToFloat (double : Bool) : Names place refuses (moveToFloat double) := by
  refine theInstruction.bind fun inst => (gpr _).bind fun value => ?_
  cases double with
  | true => exact writeFloat64 _ _
  | false => exact writeFloat32 _ _ _

theorem moveFromFloatControl : Names place refuses moveFromFloatControl := by
  refine theInstruction.bind fun inst => ?_
  dsimp only
  split
  · exact (constant _ _).bind fun _ => setGpr _ _
  · exact (push rfl).bind fun _ => (cast _ _).bind fun _ => setGpr _ _
  · exact (constant _ _).bind fun _ => setGpr _ _

theorem moveToFloatControl : Names place refuses moveToFloatControl := by
  refine theInstruction.bind fun inst => ?_
  split
  · exact (gpr _).bind fun _ => (constant _ _).bind fun _ => (binary _ _ _).bind fun _ =>
      (push rfl).bind fun _ => .pure _
  · exact .pure _

section Formats

variable (refused : ∀ reason, place.entry.inst.arithmeticFormat place.entry.pc = .error reason →
  refuses (.illegal reason))

include refused

theorem arithmeticFormat : Names place refuses arithmeticFormat :=
  atPlace (legally refused)

theorem floatArithmetic (op : FloatOp) : Names place refuses (floatArithmetic op) :=
  (arithmeticFormat refused).bind fun _ => theInstruction.bind fun _ =>
    (readFloat _ _).bind fun _ => (readFloat _ _).bind fun _ => (push rfl).bind fun _ =>
      writeFloat _ _ _ _

theorem floatUnary (op : FloatUnaryOp) : Names place refuses (floatUnary op) :=
  (arithmeticFormat refused).bind fun _ => theInstruction.bind fun _ =>
    (readFloat _ _).bind fun _ => (push rfl).bind fun _ => writeFloat _ _ _ _

theorem floatMove : Names place refuses floatMove :=
  (arithmeticFormat refused).bind fun _ => theInstruction.bind fun _ =>
    (readFloat _ _).bind fun _ => writeFloat _ _ _ _

theorem floatCompare : Names place refuses floatCompare :=
  (arithmeticFormat refused).bind fun _ => theInstruction.bind fun _ =>
    (readFloat _ _).bind fun _ => (readFloat _ _).bind fun _ => (push rfl).bind fun _ => .pure _

end Formats

theorem floatConvert {target : FloatFormat}
    (refused : ∀ reason, place.entry.inst.conversionSource place.entry.pc target = .error reason →
      refuses (.illegal reason)) (mode : RoundMode) :
    Names place refuses (floatConvert target mode) :=
  atPlace <| (legally refused).bind fun _ => (readFloat _ _).bind fun _ =>
    (push rfl).bind fun _ => writeFloat _ _ _ _

/-! ## Instructions -/

theorem secondOperand (form : Form) : Names place refuses (secondOperand form) := by
  refine theInstruction.bind fun inst => ?_
  split <;> first | exact constant _ _ | exact gpr _

theorem arithmetic (form : Form) {compute : ValueId → ValueId → Emit ValueId}
    (computes : ∀ lhs rhs, Names place refuses (compute lhs rhs)) :
    Names place refuses (arithmetic form compute) :=
  theInstruction.bind fun _ => (gpr _).bind fun _ => (secondOperand _).bind fun _ =>
    (computes _ _).bind fun _ => setGpr _ _

theorem wordResult (op : BinaryOp) (lhs rhs : ValueId) :
    Names place refuses (wordResult op lhs rhs) :=
  (binary _ _ _).bind fun _ => cast _ _

theorem shift (form : Form) (op : ShiftOp) (width : ShiftWidth) :
    Names place refuses (shift form op width) := by
  refine theInstruction.bind fun inst => ?_
  dsimp only
  split
  · exact (constant _ _).bind fun _ => (gpr _).bind fun _ => (push rfl).bind fun _ => setGpr _ _
  · exact (gpr _).bind fun _ => (gpr _).bind fun _ => (push rfl).bind fun _ => setGpr _ _

theorem callPlain {routine : Routine} (quiet : routine.mayRaise = false) :
    Names place refuses (callPlain routine) := by
  have stays : (Kind.call routine .none).leaves = false := quiet
  exact (push stays).bind fun _ => .pure _

theorem moveToControl (double : Bool) : Names place refuses (moveToControl double) := by
  refine theInstruction.bind fun inst => (gpr _).bind fun value => (push rfl).bind fun _ => ?_
  exact of_ok (fun progress => { progress with floatChecked := false }) (fun _ => ⟨_, rfl⟩)
    fun _ sited => ⟨sited.sites, sited.exit⟩

private theorem arithmetic_refused
    (asks : place.entry.inst.FormatsLegal place.entry.pc place.entry.operation →
      ∃ format, place.entry.inst.arithmeticFormat place.entry.pc = .ok format)
    (reason : IllegalInstruction)
    (fails : place.entry.inst.arithmeticFormat place.entry.pc = .error reason) :
    place.Refuses (.illegal reason) := by
  refine ⟨by rw [Instruction.arithmeticFormat_error fails], fun legal => ?_⟩
  obtain ⟨format, is⟩ := asks legal
  cases fails.symm.trans is

private theorem conversion_refused {target : FloatFormat}
    (asks : place.entry.inst.FormatsLegal place.entry.pc place.entry.operation →
      ∃ source, place.entry.inst.conversionSource place.entry.pc target = .ok source)
    (reason : IllegalInstruction)
    (fails : place.entry.inst.conversionSource place.entry.pc target = .error reason) :
    place.Refuses (.illegal reason) := by
  refine ⟨by rw [Instruction.conversionSource_error fails], fun legal => ?_⟩
  obtain ⟨source, is⟩ := asks legal
  cases fails.symm.trans is

theorem emitOperation : Names place place.Refuses
    (emitOperation place.entry.inst place.entry.form place.entry.operation) := by
  generalize place.entry.form = form
  cases is : place.entry.operation with
  | nop => exact .pure _
  | cacheControl => exact .pure _
  | jump => exact jump _
  | jumpLink => exact jump _
  | jumpRegister => exact jumpRegister _
  | jumpRegisterLink => exact jumpRegister _
  | branch mode => exact branch _ _ _ _
  | branchLikely mode => exact branch _ _ _ _
  | branchLink mode => exact branch _ _ _ _
  | branchLinkLikely mode => exact branch _ _ _ _
  | branchFloat onTrue likely => exact branchFloat _ _
  | addTrapWord => exact arithmetic form (binary _)
  | addTrapDouble => exact arithmetic form (binary _)
  | subTrapWord => exact arithmetic form (binary _)
  | subTrapDouble => exact arithmetic form (binary _)
  | addWord => exact arithmetic form (wordResult _)
  | subWord => exact arithmetic form (wordResult _)
  | addDouble => exact arithmetic form (binary _)
  | subDouble => exact arithmetic form (binary _)
  | setLess => exact arithmetic form (check _)
  | setLessUnsigned => exact arithmetic form (check _)
  | and => exact arithmetic form (binary _)
  | or => exact arithmetic form (binary _)
  | xor => exact arithmetic form (binary _)
  | nor => exact arithmetic form fun _ _ => (binary _ _ _).bind fun _ => push rfl
  | insertUpper => exact (constant _ _).bind fun _ => setGpr _ _
  | shift op width => exact shift form op width
  | mulDiv op =>
      exact (gpr _).bind fun _ => (gpr _).bind fun _ => (push rfl).bind fun _ => .pure _
  | moveFromProduct source => exact (push rfl).bind fun _ => setGpr _ _
  | moveToProduct target => exact (gpr _).bind fun _ => (push rfl).bind fun _ => .pure _
  | memory size => exact loadStore form size true
  | memoryUnsigned size => exact loadStore form size false
  | memoryLeft size => exact loadStorePart form _ _
  | memoryRight size => exact loadStorePart form _ _
  | memoryLinked size => exact loadStoreLinked form size
  | trap mode =>
      exact (gpr _).bind fun _ => (secondOperand form).bind fun _ => (check _ _ _).bind fun _ =>
        raiseIf _ _
  | systemCall => exact raise _
  | breakpoint => exact raise _
  | moveFromControl double => exact (push rfl).bind fun _ => setGpr _ _
  | moveToControl double => exact moveToControl double
  | tlbRead => exact callPlain rfl
  | tlbWriteIndexed => exact callPlain rfl
  | tlbWriteRandom => exact callPlain rfl
  | tlbProbe => exact callPlain rfl
  | exceptionReturn => exact (push rfl).bind fun _ => pushExitPc rfl rfl
  | moveFromFloat double => exact moveFromFloat double
  | moveToFloat double => exact moveToFloat double
  | moveFromFloatControl => exact moveFromFloatControl
  | moveToFloatControl => exact moveToFloatControl
  | floatMemory size => exact loadStoreFloat form size
  | floatArithmetic op =>
      exact floatArithmetic (arithmetic_refused fun legal => by rwa [is] at legal) op
  | floatUnary op => exact floatUnary (arithmetic_refused fun legal => by rwa [is] at legal) op
  | floatMove => exact floatMove (arithmetic_refused fun legal => by rwa [is] at legal)
  | floatConvert target mode =>
      exact floatConvert (conversion_refused fun legal => by rwa [is] at legal) mode
  | floatCompare => exact floatCompare (arithmetic_refused fun legal => by rwa [is] at legal)

/-- No instruction leaves the block without saying how, and all with legal formats are emitted. -/
theorem emitInstruction : Names place place.Refuses emitInstruction := by
  refine atPlace ?_
  dsimp only
  split
  · exact checkFloatUsable.bind fun _ => emitOperation
  · exact emitOperation

end Names

/-! ## Units -/

theorem emitAll_sited {configuration : Configuration} {fault : Option Fault} {index : Nat}
    {entries : List UnitInstruction} {progress final : Progress}
    (emitted : emitAll configuration fault index entries progress = .ok () final)
    (sited : Sited progress) : Sited final := by
  induction entries generalizing index progress with
  | nil =>
      cases emitted
      exact sited
  | cons entry rest ih =>
      obtain ⟨next, first, others⟩ := emitAll_cons emitted
      have there := Names.emitInstruction.sited _ _ _ first sited
      rcases others with ⟨-, rest⟩ | ⟨missing, -, -, last⟩
      · exact ih rest there
      · have names : Names ⟨configuration, entry, index⟩ (fun _ => False)
            (delaySlotFetchFault missing) := Names.delaySlotFetchFault missing
        exact names.sited _ _ _ last there

theorem emitAll_refused {configuration : Configuration} {fault : Option Fault} {index : Nat}
    {entries : List UnitInstruction} {progress left : Progress} {reason : CompileError}
    (fails : emitAll configuration fault index entries progress = .error reason left) :
    ∃ entry ∈ entries, reason = .illegal (.reserved entry.pc entry.inst.word) ∧
      ¬ entry.inst.FormatsLegal entry.pc entry.operation := by
  induction entries generalizing index progress with
  | nil => cases fails
  | cons entry rest ih =>
      unfold emitAll at fails
      cases one : emitInstruction ⟨configuration, entry, index⟩ progress with
      | error other early =>
          rw [bindState_error one] at fails
          cases fails
          exact ⟨entry, List.mem_cons_self, Names.emitInstruction.refused _ _ _ one⟩
      | ok value next =>
          rw [bindState_ok one] at fails
          split at fails
          · rename_i missing
            -- leaving the block for the fault of a delay slot never fails
            have names : Names ⟨configuration, entry, index⟩ (fun _ => False)
              (delaySlotFetchFault missing) := Names.delaySlotFetchFault missing
            exact (names.refused _ _ _ fails).elim
          · obtain ⟨refused, member, reserved⟩ := ih fails
            exact ⟨refused, List.mem_cons_of_mem _ member, reserved⟩

private theorem Sited.flushAll {draft : Draft} {floatChecked exitPcSet : Bool}
    (sited : Sited ⟨draft, floatChecked, exitPcSet⟩)
    (entries : List (GuestRegister × ValueId)) :
    Sited ⟨entries.foldl (fun draft (reg, value) => (draft.push (.flushRegister reg value)).2)
      draft, floatChecked, exitPcSet⟩ := by
  induction entries generalizing draft with
  | nil => exact sited
  | cons entry rest ih =>
      have pushed : Sited (Progress.append ⟨draft, floatChecked, exitPcSet⟩
        ⟨.flushRegister entry.1 entry.2, none⟩) := sited.append nofun
      exact ih pushed

/-- A finished block says where the guest continues, whether its branches do or not. -/
theorem Sited.finish (sited : Sited progress) (endPc : DoubleWord) :
    (finish endPc progress).block.Total := by
  have flushed := sited.flushAll progress.draft.flushList
  unfold Emission.finish
  dsimp only
  generalize progress.draft.flushList.foldl _ progress.draft = draft at flushed
  cases said : progress.exitPcSet with
  | true =>
      rw [if_pos rfl]
      exact ⟨flushed.sites, flushed.exit said⟩
  | false =>
      rw [if_neg (by decide)]
      let number : Value := ⟨.constant .u64 (ValueType.u64.cast endPc), none⟩
      let last : Value := ⟨.setExitPc draft.block.bound, none⟩
      have longer : Sited (Progress.append _ number) := flushed.append nofun
      have whole : Sited (Progress.append _ last) := longer.append nofun
      have values : ((draft.block.push number).2.push last).2.values =
          (draft.block.push number).2.values ++ [((draft.block.push number).2.bound, last)] :=
        Block.values_push _ _
      refine ⟨whole.sites, ⟨((draft.block.push number).2.bound, last), ?_, rfl⟩⟩
      exact values ▸ List.mem_append_right _ (List.mem_singleton.mpr rfl)

end Emission

namespace CodeUnit

variable {codeUnit : CodeUnit} {configuration : Configuration}

/-- The block of a unit with instructions can always be evaluated to its end. -/
theorem emit_total {block : Ir.Block} (nonempty : codeUnit.instructions ≠ [])
    (emits : codeUnit.emit configuration = .ok block) : block.Total := by
  rw [emit, if_neg (by simpa using nonempty)] at emits
  split at emits
  · rename_i final emitted
    cases emits
    exact (Emission.emitAll_sited emitted .empty).finish codeUnit.endPc
  · cases emits

/-- A unit has a block unless the formats of an instruction cannot be used. -/
theorem emit_refused {reason : CompileError} (fails : codeUnit.emit configuration = .error reason) :
    ∃ entry ∈ codeUnit.instructions, reason = .illegal (.reserved entry.pc entry.inst.word) ∧
      ¬ entry.inst.FormatsLegal entry.pc entry.operation := by
  rw [emit] at fails
  split at fails
  · cases fails
  · split at fails
    · cases fails
    · rename_i cause left emitted
      cases fails
      exact Emission.emitAll_refused emitted

theorem emit_reserved {reason : CompileError} (fails : codeUnit.emit configuration = .error reason) :
    ∃ illegal, reason = .illegal illegal := by
  obtain ⟨entry, -, reserved, -⟩ := emit_refused fails
  exact ⟨_, reserved⟩

end CodeUnit

end MipsRecompiler
