import MipsRecompiler.Proofs.Emission.Classes

/-!
# Instructions in a context of classes

Every instruction starts and ends in the empty context: the registers are all that it leaves to
the next one. So a whole unit gives registers only values of their class, and its block writes them
back behind everything that reads them.
-/

set_option autoImplicit false

namespace MipsRecompiler.Emission

open Ir

section Instructions

variable {α : Type} {place : Place} {known before : Context} {after : α → Context}
  {current : RegisterClass}

namespace Types

/-! ## Branches -/

theorem link (reg : RegisterNumber) : Types place known (link reg) fun _ => known := by
  refine (read.bind fun _ => .pure _).bind fun _ => (constant _ _).bind fun target => ?_
  exact (setGpr reg List.mem_cons_self).forget

theorem jump (linking : Bool) : Types place [] (jump linking) fun _ => [] := by
  refine read.bind fun place => (constant _ _).bind fun target => ?_
  cases linking with
  | false => exact (pushExitPc rfl rfl).done
  | true => exact (link _).bind fun _ => (pushExitPc rfl rfl).done

theorem jumpRegister (linking : Bool) : Types place [] (jumpRegister linking) fun _ => [] := by
  refine theInstruction.bind fun inst => (gpr _).bind fun target => ?_
  cases linking with
  | false => exact (pushExitPc rfl rfl).done
  | true => exact (link _).bind fun _ => (pushExitPc rfl rfl).done

theorem branchIf (condition : ValueId) (likely : Bool) :
    Types place known (branchIf condition likely) fun _ => [] := by
  refine read.bind fun place => (read.bind fun _ => .pure _).bind fun behind =>
    (constant _ _).bind fun taken => (constant _ _).bind fun notTaken =>
      (pushExitPc rfl rfl).bind fun _ => ?_
  cases likely with
  | false => exact (pure _).done
  | true =>
      exact (constant _ _).bind fun one => (binary _ _ _).bind fun skipped =>
        (leave rfl).dropped

theorem branch (mode : Comparison) (comparesTwo linking likely : Bool) :
    Types place [] (branch mode comparesTwo linking likely) fun _ => [] := by
  have rest (known : Context) (condition : ValueId) : Types place known (if linking then do
      Emission.link 31
      Emission.branchIf condition likely else Emission.branchIf condition likely)
      fun _ => [] := by
    cases linking with
    | false => exact branchIf _ _
    | true => exact (link _).bind fun _ => branchIf _ _
  refine theInstruction.bind fun inst => (gpr _).bind fun lhs => ?_
  cases comparesTwo with
  | false => exact (constant _ _).bind fun rhs => (check _ _ _).bind fun _ => rest _ _
  | true => exact (gpr _).bind fun rhs => (check _ _ _).bind fun _ => rest _ _

theorem branchFloat (onTrue likely : Bool) :
    Types place [] (branchFloat onTrue likely) fun _ => [] :=
  (push rfl rfl rfl).bind fun _ => (constant _ _).bind fun _ => (binary _ _ _).bind fun _ =>
    (constant _ _).bind fun _ => (check _ _ _).bind fun _ => branchIf _ _

/-! ## Memory -/

theorem effectiveAddress :
    Types place known effectiveAddress fun id => (id, .general) :: known := by
  refine theInstruction.bind fun inst => (gpr _).bind fun base => ?_
  refine (constant _ _).bind fun offset => ?_
  exact (binary _ _ _).weaken fun id => List.cons_subset_cons _ fun _ member =>
    List.mem_cons_of_mem _ (List.mem_cons_of_mem _ member)

theorem translatedAddress (access : AccessKind) (size : AccessSize) :
    Types place known (translatedAddress access size) fun _ => known :=
  effectiveAddress.bind fun _ => (leave rfl).forget

theorem loadStore (form : Form) (size : AccessSize) (signed : Bool) :
    Types place [] (loadStore form size signed) fun _ => [] := by
  refine theInstruction.bind fun inst => ?_
  split
  · exact (translatedAddress _ _).bind fun _ => (gpr _).bind fun _ =>
      (effect rfl rfl).dropped
  · exact (translatedAddress _ _).bind fun _ => (push rfl rfl rfl).toGpr _

theorem loadStorePart (form : Form) {load : Routine} (result : load.hasResult = true)
    (store : Routine) : Types place [] (loadStorePart form load store) fun _ => [] := by
  refine theInstruction.bind fun inst => effectiveAddress.bind fun address =>
    (gpr _).bind fun register => ?_
  split
  · exact (leave rfl).dropped
  · have given : (Kind.call load (.two address register)).resultClass? = some .general :=
      if_pos result
    exact (pushRaising rfl given).toGpr _

theorem loadStoreLinked (form : Form) (size : AccessSize) :
    Types place [] (loadStoreLinked form size) fun _ => [] := by
  refine theInstruction.bind fun inst => effectiveAddress.bind fun address => ?_
  split
  · exact (gpr _).bind fun _ => (pushRaising rfl rfl).toGpr _
  · exact (pushRaising rfl rfl).toGpr _

/-! ## Floating point -/

theorem checkFloatUsable : Types place [] checkFloatUsable fun _ => [] := by
  refine get.bind fun progress => ?_
  split
  · exact .pure _
  · refine Types.bind (α := PUnit) (modify fun _ => rfl) fun _ => (push rfl rfl rfl).bind fun _ =>
      (constant _ _).bind fun _ => (binary _ _ _).bind fun _ => (constant _ _).bind fun _ =>
        (check _ _ _).bind fun _ => (raiseIf _ _).done

theorem shiftBy (op : ShiftOp) (value : ValueId) (amount : DoubleWord) :
    Types place known (shiftBy op value amount) fun id => (id, .general) :: known := by
  refine (constant _ _).bind fun amount => (push rfl rfl rfl).weaken fun id => ?_
  exact List.cons_subset_cons _ (List.subset_cons_self _ _)

theorem hasFullFloats : Types place known hasFullFloats fun _ => known :=
  read.bind fun _ => .pure _

theorem readFloat32 (reg : RegisterNumber) :
    Types place known (readFloat32 reg) fun id => (id, .float) :: known := by
  refine hasFullFloats.bind fun full => ?_
  split
  · refine (loadFloat _).bind fun pair => (toClass _ List.mem_cons_self).bind fun pair =>
      (shiftBy _ _ _).bind fun high => (toClass _ List.mem_cons_self).weaken fun id => ?_
    exact List.cons_subset_cons _ fun _ member => by simp [member]
  · exact loadFloat _

theorem lowWord (value : ValueId) (isClean : Bool) :
    Types place known (lowWord value isClean) fun _ => known := by
  cases isClean with
  | false => exact (cast _ _).forget
  | true => exact pure _

theorem moveTo {value : ValueId} (reg : RegisterNumber) (isKnown : (value, current) ∈ known) :
    Types place known (Emission.toClass .float value >>= Emission.bindRegister (.float reg))
      fun _ => [] :=
  (toClass .float isKnown).bind fun _ => (bindFloat _ List.mem_cons_self).done

theorem writeFloat32 {value : ValueId} (reg : RegisterNumber) (isClean : Bool)
    (isKnown : (value, current) ∈ known) :
    Types place known (writeFloat32 reg value isClean) fun _ => [] := by
  refine hasFullFloats.bind fun full => ?_
  cases full with
  | true =>
      cases isClean with
      | false =>
          exact (toClass .general isKnown).bind fun _ => (cast _ _).bind fun _ =>
            moveTo _ List.mem_cons_self
      | true => exact moveTo _ isKnown
  | false =>
      -- The register is half of a pair, whose other half is read and put back.
      have still {fact first second : ValueId × RegisterClass} (member : fact ∈ known) :
          fact ∈ first :: second :: known :=
        List.mem_cons_of_mem _ (List.mem_cons_of_mem _ member)
      refine (loadFloat _).bind fun old => (toClass .general List.mem_cons_self).bind fun old =>
        (toClass .general (still isKnown)).bind fun value => ?_
      dsimp only
      split
      · exact (constant _ _).bind fun mask => (binary _ _ _).bind fun high =>
          (lowWord _ _).bind fun low => (binary _ _ _).bind fun merged =>
            moveTo _ List.mem_cons_self
      · exact (cast _ _).bind fun low => (shiftBy _ _ _).bind fun high =>
          (binary _ _ _).bind fun merged => moveTo _ List.mem_cons_self

theorem atSlot {τ : Type} {rest : GuestRegister → Emit τ} {last : τ → Context}
    (reg : RegisterNumber)
    (types : Types place before (rest (.float
      (CpuState.doubleSlot place.configuration.fullFloatRegisters reg))) last) :
    Types place before (doubleSlot reg >>= rest) last :=
  types

theorem readFloat64 (reg : RegisterNumber) :
    Types place known (readFloat64 reg) fun id => (id, .float) :: known :=
  atSlot reg (loadFloat _)

theorem writeFloat64 {value : ValueId} (reg : RegisterNumber)
    (isKnown : (value, current) ∈ known) :
    Types place known (writeFloat64 reg value) fun _ => [] :=
  atSlot reg (moveTo _ isKnown)

theorem readFloat (format : FloatFormat) (reg : RegisterNumber) :
    Types place known (readFloat format reg) fun id => (id, .float) :: known := by
  unfold Emission.readFloat
  split
  · exact readFloat64 _
  · exact readFloat32 _

theorem writeFloat {value : ValueId} (format : FloatFormat) (reg : RegisterNumber)
    (isClean : Bool) (isKnown : (value, current) ∈ known) :
    Types place known (writeFloat format reg value isClean) fun _ => [] := by
  unfold Emission.writeFloat
  split
  · exact writeFloat64 _ isKnown
  · exact writeFloat32 _ _ isKnown

theorem loadStoreFloat (form : Form) (size : AccessSize) :
    Types place [] (loadStoreFloat form size) fun _ => [] := by
  refine theInstruction.bind fun inst => ?_
  dsimp only
  by_cases store : form = .floatStore
  · rw [if_pos store]
    exact (translatedAddress _ _).bind fun _ => (readFloat _ _).bind fun _ =>
      (effect rfl rfl).dropped
  · rw [if_neg store]
    exact (translatedAddress _ _).bind fun _ => (push rfl rfl rfl).bind fun _ =>
      writeFloat _ _ _ List.mem_cons_self

theorem moveFromFloat (double : Bool) :
    Types place [] (moveFromFloat double) fun _ => [] := by
  refine theInstruction.bind fun inst => ?_
  cases double with
  | true =>
      exact (readFloat64 _).bind fun _ => (toClass _ List.mem_cons_self).toGpr _
  | false =>
      exact (readFloat32 _).bind fun _ => (toClass _ List.mem_cons_self).bind fun _ =>
        (cast _ _).toGpr _

theorem moveToFloat (double : Bool) : Types place [] (moveToFloat double) fun _ => [] := by
  refine theInstruction.bind fun inst => (gpr _).bind fun value => ?_
  cases double with
  | true => exact writeFloat64 _ List.mem_cons_self
  | false => exact writeFloat32 _ _ List.mem_cons_self

theorem moveFromFloatControl : Types place [] moveFromFloatControl fun _ => [] := by
  refine theInstruction.bind fun inst => ?_
  dsimp only
  split
  · exact (constant _ _).toGpr _
  · exact (push rfl rfl rfl).bind fun _ => (cast _ _).toGpr _
  · exact (constant _ _).toGpr _

theorem moveToFloatControl : Types place [] moveToFloatControl fun _ => [] := by
  refine theInstruction.bind fun inst => ?_
  split
  · exact (gpr _).bind fun _ => (constant _ _).bind fun _ => (binary _ _ _).bind fun _ =>
      (effect rfl rfl).dropped
  · exact .pure _

theorem legally (result : Except IllegalInstruction α) :
    Types place known (legally result) fun _ => known := by
  cases result with
  | ok value => exact .pure value
  | error illegal => exact refuses

theorem arithmeticFormat : Types place known arithmeticFormat fun _ => known :=
  read.bind fun _ => legally _

theorem floatArithmetic (op : FloatOp) : Types place [] (floatArithmetic op) fun _ => [] :=
  arithmeticFormat.bind fun _ => theInstruction.bind fun _ => (readFloat _ _).bind fun _ =>
    (readFloat _ _).bind fun _ => (push rfl rfl rfl).bind fun _ =>
      writeFloat _ _ _ List.mem_cons_self

theorem floatUnary (op : FloatUnaryOp) : Types place [] (floatUnary op) fun _ => [] :=
  arithmeticFormat.bind fun _ => theInstruction.bind fun _ => (readFloat _ _).bind fun _ =>
    (push rfl rfl rfl).bind fun _ => writeFloat _ _ _ List.mem_cons_self

theorem floatMove : Types place [] floatMove fun _ => [] :=
  arithmeticFormat.bind fun _ => theInstruction.bind fun _ => (readFloat _ _).bind fun _ =>
    writeFloat _ _ _ List.mem_cons_self

theorem floatCompare : Types place [] floatCompare fun _ => [] :=
  arithmeticFormat.bind fun _ => theInstruction.bind fun _ => (readFloat _ _).bind fun _ =>
    (readFloat _ _).bind fun _ => (effect rfl rfl).dropped

theorem floatConvert (target : FloatFormat) (mode : RoundMode) :
    Types place [] (floatConvert target mode) fun _ => [] :=
  read.bind fun _ => (legally _).bind fun _ => (readFloat _ _).bind fun _ =>
    (push rfl rfl rfl).bind fun _ => writeFloat _ _ _ List.mem_cons_self

/-! ## Instructions -/

theorem secondOperand (form : Form) :
    Types place known (secondOperand form) fun id => (id, .general) :: known := by
  refine theInstruction.bind fun inst => ?_
  split
  · exact constant _ _
  · exact constant _ _
  · exact constant _ _
  · exact gpr _

theorem arithmeticResult (operation : Operation) (lhs rhs : ValueId) :
    Types place known (arithmeticResult operation lhs rhs) fun id => [(id, .general)] := by
  have only {emit : Emit ValueId}
      (types : Types place known emit fun id => (id, .general) :: known) :
      Types place known emit fun id => [(id, .general)] :=
    types.weaken fun _ => List.cons_subset_cons _ (List.nil_subset _)
  have second {emit : Emit ValueId} {rest : ValueId → Emit ValueId}
      (first : Types place known emit fun _ => known)
      (types : ∀ id, Types place known (rest id) fun id => (id, .general) :: known) :
      Types place known (emit >>= rest) fun id => [(id, .general)] :=
    only (first.bind types)
  have plain (op : BinaryOp) : Types place known (Emission.binary op lhs rhs) fun _ => known :=
    (binary _ _ _).forget
  cases operation with
  | addWord | subWord => exact second (plain _) fun _ => cast _ _
  | setLess | setLessUnsigned => exact only (check _ _ _)
  | nor => exact second (plain _) fun _ => push rfl rfl rfl
  | addTrapWord | addTrapDouble | subTrapWord | subTrapDouble | addDouble | subDouble | and | or
  | xor => exact only (binary _ _ _)
  | _ => exact read.bind fun _ => refuses

theorem arithmetic (form : Form) (operation : Operation) :
    Types place [] (arithmetic form (Emission.arithmeticResult operation)) fun _ => [] :=
  theInstruction.bind fun _ => (gpr _).bind fun _ => (secondOperand _).bind fun _ =>
    (arithmeticResult _ _ _).toGpr _

theorem shift (form : Form) (op : ShiftOp) (width : ShiftWidth) :
    Types place [] (shift form op width) fun _ => [] := by
  refine theInstruction.bind fun inst => ?_
  dsimp only
  split
  · exact (constant _ _).bind fun _ => (gpr _).bind fun _ => (push rfl rfl rfl).toGpr _
  · exact (gpr _).bind fun _ => (gpr _).bind fun _ => (push rfl rfl rfl).toGpr _

theorem callPlain {routine : Routine} (quiet : routine.mayRaise = false) :
    Types place [] (callPlain routine) fun _ => [] := by
  have stays : (Kind.call routine .none).leaves = false := quiet
  exact (effect stays rfl).dropped

theorem moveToControl (double : Bool) : Types place [] (moveToControl double) fun _ => [] :=
  theInstruction.bind fun _ => (gpr _).bind fun _ => (effect rfl rfl).done.bind fun _ =>
    modify fun _ => rfl

/-- The registers are all that an operation leaves to the next one. -/
theorem emitOperation (inst : Instruction) (form : Form) (operation : Operation) :
    Types place [] (emitOperation inst form operation) fun _ => [] := by
  cases operation with
  | nop => exact .pure _
  | cacheControl => exact .pure _
  | jump => exact jump _
  | jumpLink => exact jump _
  | jumpRegister => exact jumpRegister _
  | jumpRegisterLink => exact jumpRegister _
  | branch mode => exact branch _ _ _ _
  | branchLikely mode => exact branch _ _ _ _
  | branchLink mode => exact branch _ _ _ _
  | branchLinkLikely mode => exact branch _ _ _ _
  | branchFloat onTrue likely => exact branchFloat _ _
  | addTrapWord | addTrapDouble | subTrapWord | subTrapDouble | addWord | subWord | addDouble
  | subDouble | setLess | setLessUnsigned | and | or | xor | nor => exact arithmetic form _
  | insertUpper => exact (constant _ _).toGpr _
  | shift op width => exact shift form op width
  | mulDiv op => exact (gpr _).bind fun _ => (gpr _).bind fun _ => (effect rfl rfl).dropped
  | moveFromProduct source => exact (push rfl rfl rfl).toGpr _
  | moveToProduct target => exact (gpr _).bind fun _ => (effect rfl rfl).dropped
  | memory size => exact loadStore form size true
  | memoryUnsigned size => exact loadStore form size false
  | memoryLeft size => exact loadStorePart form rfl _
  | memoryRight size => exact loadStorePart form rfl _
  | memoryLinked size => exact loadStoreLinked form size
  | trap mode =>
      exact (gpr _).bind fun _ => (secondOperand form).bind fun _ => (check _ _ _).bind fun _ =>
        (raiseIf _ _).done
  | systemCall => exact raise _
  | breakpoint => exact raise _
  | moveFromControl double => exact (push rfl rfl rfl).toGpr _
  | moveToControl double => exact moveToControl double
  | tlbRead => exact callPlain rfl
  | tlbWriteIndexed => exact callPlain rfl
  | tlbWriteRandom => exact callPlain rfl
  | tlbProbe => exact callPlain rfl
  | exceptionReturn => exact (push rfl rfl rfl).bind fun _ => (pushExitPc rfl rfl).done
  | moveFromFloat double => exact moveFromFloat double
  | moveToFloat double => exact moveToFloat double
  | moveFromFloatControl => exact moveFromFloatControl
  | moveToFloatControl => exact moveToFloatControl
  | floatMemory size => exact loadStoreFloat form size
  | floatArithmetic op => exact floatArithmetic op
  | floatUnary op => exact floatUnary op
  | floatMove => exact floatMove
  | floatConvert target mode => exact floatConvert target mode
  | floatCompare => exact floatCompare

theorem emitInstruction : Types place [] emitInstruction fun _ => [] := by
  refine read.bind fun place => ?_
  dsimp only
  split
  · exact checkFloatUsable.bind fun _ => emitOperation _ _ _
  · exact emitOperation _ _ _

end Types

end Instructions

/-! ## Units -/

section Units

variable {counts : Kind → BitVec 32 → Prop} {known : Context} {progress final : Progress}
  {configuration : Configuration} {place : Place} {fault : Option Fault} {index : Nat}
  {entries : List UnitInstruction}

/-- The way out of a block whose delay slot cannot be fetched. -/
def slotExit (missing : Fault) (condition : ValueId) (pc : DoubleWord) : Kind :=
  .exitIf condition (.exception { cause := .ofFault missing, pc, delaySlot := true })

/-- The instructions that an exit may count: those up to the one that leaves, and for a delay slot
fault the slot as well. -/
structure CountsAll (counts : Kind → BitVec 32 → Prop) (fault : Option Fault) (length : Nat) :
    Prop where
  inside : ∀ index < length, ∀ kind, counts kind (BitVec.ofNat 32 (index + 1))
  slot : ∀ missing, fault = some missing → ∀ condition pc,
    counts (slotExit missing condition pc) (BitVec.ofNat 32 (length + 1))

theorem delaySlotFetchFault_typed {missing : Fault}
    (counted : ∀ condition pc,
      counts (slotExit missing condition pc) (BitVec.ofNat 32 (place.index + 2)))
    (emitted : delaySlotFetchFault missing place progress = .ok () final)
    (typed : Typed counts [] progress) : Typed counts [] final := by
  cases emitted
  have always := typed.append ⟨.constant .u64 1, none⟩ rfl nofun
  exact always.append _ rfl fun _ => ⟨_, rfl, counted _ _, rfl⟩

theorem emitAll_typed (all : CountsAll counts fault (index + entries.length))
    (emitted : emitAll configuration fault index entries progress = .ok () final)
    (typed : Typed counts [] progress) : Typed counts [] final := by
  induction entries generalizing index progress with
  | nil =>
      cases emitted
      exact typed
  | cons entry rest ih =>
      obtain ⟨next, first, others⟩ := emitAll_cons emitted
      have here : index < index + (entry :: rest).length := by simp
      have middle := Types.emitInstruction counts (all.inside index here) _ _ _ first typed
      rcases others with ⟨-, others⟩ | ⟨missing, rfl, faults, last⟩
      · -- The end of the unit stays where it is while the place moves on.
        refine ih ?_ others middle
        rwa [Nat.add_right_comm, Nat.add_assoc, ← List.length_cons]
      · exact delaySlotFetchFault_typed (all.slot missing faults) last middle

private theorem flushAll_closes (draft : Draft) (entries : List (GuestRegister × ValueId)) :
    draft.block.Closes (entries.foldl
      (fun draft (reg, value) => (draft.push (.flushRegister reg value)).2) draft).block ∧
    (entries.foldl (fun draft (reg, value) => (draft.push (.flushRegister reg value)).2)
      draft).block.flushes = draft.block.flushes ++ entries := by
  induction entries generalizing draft with
  | nil => exact ⟨.refl _, (List.append_nil _).symm⟩
  | cons entry rest ih =>
      obtain ⟨closes, flushes⟩ := ih (draft.push (.flushRegister entry.1 entry.2)).2
      constructor
      · exact (Block.Closes.push _ rfl).trans closes
      · have one : (draft.push (.flushRegister entry.1 entry.2)).2.block.flushes =
            draft.block.flushes ++ [entry] := Block.flushes_push _ _
        rw [List.foldl_cons, flushes, one, List.append_assoc]
        rfl

/-- The registers are written back at the end of a block as they would be by an exit there. -/
theorem finish_closes (typed : Typed counts known progress) (endPc : DoubleWord) :
    progress.draft.block.Closes (finish endPc progress).block ∧
      (finish endPc progress).block.flushes = progress.draft.flushList := by
  have flushed := flushAll_closes progress.draft progress.draft.flushList
  rw [typed.unflushed, List.nil_append] at flushed
  unfold finish
  dsimp only
  generalize progress.draft.flushList.foldl _ progress.draft = draft at flushed
  obtain ⟨closes, flushes⟩ := flushed
  split
  · exact ⟨closes, flushes⟩
  · let number : Value := ⟨.constant .u64 (ValueType.u64.cast endPc), none⟩
    let last : Value := ⟨.setExitPc draft.block.bound, none⟩
    have longer : draft.block.Closes (draft.block.push number).2 := .push _ rfl
    have whole : (draft.block.push number).2.Closes ((draft.block.push number).2.push last).2 :=
      .push _ rfl
    refine ⟨closes.trans (longer.trans whole), ?_⟩
    have none : ((draft.block.push number).2.push last).2.flushes = draft.block.flushes := by
      rw [Block.flushes_push, Block.flushes_push]
      simp [number, last, Kind.flush?]
    exact none.trans flushes

end Units

end MipsRecompiler.Emission
