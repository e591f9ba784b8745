import MipsRecompiler.Proofs.Emission.Economy
import MipsRecompiler.Proofs.Emission.Unit

/-!
# What instructions keep

No instruction keeps more than seven values, however many it emits. A block keeps as many for every
instruction of its unit, and one for every register.
-/

set_option autoImplicit false

namespace MipsRecompiler

namespace Emission

open Ir

section Instructions

variable {α : Type} {place : Place} {hand before : Hand} {held recent : List ValueId}
  {credit : Nat} {after : α → Hand}

namespace Spends

/-! ## Branches -/

theorem link (reg : RegisterNumber) :
    Spends place ⟨held, recent, credit + 1⟩ (link reg) fun _ => ⟨held, [], credit⟩ :=
  (read.bind fun _ => .pure _).bind fun _ => (keepResult (constant _ _)).bind fun _ =>
    (setGpr List.mem_cons_self _).weaken fun _ => .fewer (List.subset_cons_self _ _)

theorem exitTo {target : ValueId} (known : target ∈ hand.held) :
    Spends place hand (Emission.pushExitPc (.setExitPc target)) fun _ => .spent :=
  (pushExitPc rfl fun _ uses => List.mem_singleton.mp uses ▸ known).done

theorem jump (linking : Bool) : Spends place ⟨[], [], 6⟩ (jump linking) fun _ => .spent := by
  refine read.bind fun place => (keepResult (constant _ _)).bind fun target => ?_
  cases linking with
  | false => exact exitTo List.mem_cons_self
  | true => exact (link _).bind fun _ => exitTo List.mem_cons_self

theorem jumpRegister (linking : Bool) :
    Spends place ⟨[], [], 6⟩ (jumpRegister linking) fun _ => .spent := by
  refine theInstruction.bind fun inst => (keepResult (gpr _)).bind fun target => ?_
  cases linking with
  | false => exact exitTo List.mem_cons_self
  | true => exact (link _).bind fun _ => exitTo List.mem_cons_self

theorem branchIf {condition : ValueId} (known : condition ∈ held) (likely : Bool) :
    Spends place ⟨held, recent, credit + 3⟩ (branchIf condition likely) fun _ => .spent := by
  refine read.bind fun place => (read.bind fun _ => .pure _).bind fun behind =>
    (keepResult (constant _ _)).bind fun taken => (keepResult (constant _ _)).bind fun notTaken =>
      (pushExitPc rfl (by simp [Kind.operands, known])).bind fun _ => ?_
  have held := List.mem_cons_of_mem notTaken (List.mem_cons_of_mem taken known)
  cases likely with
  | false => exact (pure _).done
  | true =>
      exact (constant _ _).bind fun one => (keepResult (binary rfl (.held held) .last)).bind
        fun skipped => (exitIf List.mem_cons_self).done.bind fun _ => .pure _

theorem branch (mode : Comparison) (comparesTwo linking likely : Bool) :
    Spends place ⟨[], [], 6⟩ (branch mode comparesTwo linking likely) fun _ => .spent := by
  have rest (condition : ValueId) : Spends place ⟨[condition], [], 5⟩ (if linking then do
      Emission.link 31
      Emission.branchIf condition likely else Emission.branchIf condition likely)
      fun _ => .spent := by
    cases linking with
    | false => exact branchIf List.mem_cons_self _
    | true => exact (link _).bind fun _ => branchIf List.mem_cons_self _
  refine theInstruction.bind fun inst => (gpr _).bind fun lhs => ?_
  cases comparesTwo with
  | false =>
      exact (constant _ _).bind fun rhs => (keepResult (check .second .last _)).bind rest
  | true => exact (gpr _).bind fun rhs => (keepResult (check .second .last _)).bind rest

theorem branchFloat (onTrue likely : Bool) :
    Spends place ⟨[], [], 6⟩ (branchFloat onTrue likely) fun _ => .spent :=
  (leaf rfl).bind fun _ => (constant _ _).bind fun _ => (binary rfl .second .last).bind fun _ =>
    (constant _ _).bind fun _ => (keepResult (check .second .last _)).bind fun _ =>
      branchIf List.mem_cons_self _

theorem delaySlotFetchFault (fault : Fault) :
    Spends place ⟨[], [], 1⟩ (delaySlotFetchFault fault) fun _ => .spent := by
  refine read.bind fun place => (keepResult (constant _ _)).bind fun always => ?_
  exact (exitWith (fun _ => rfl) List.mem_cons_self).done.bind fun _ => .pure _

/-! ## Memory -/

theorem effectiveAddress : Spends place hand effectiveAddress hand.gain := by
  refine theInstruction.bind fun _ => (gpr _).bind fun base => (constant _ _).bind fun offset => ?_
  have sum : Spends place ((hand.next base).next offset) (Emission.binary .add base offset)
    ((hand.next base).next offset).next := binary rfl .second .last
  exact sum.weaken fun _ => .gain (List.Subset.refl _) (Nat.le_refl _)

theorem translatedAddress (access : AccessKind) (size : AccessSize) :
    Spends place ⟨[], [], credit + 2⟩ (translatedAddress access size)
      fun id => ⟨[id], [], credit⟩ :=
  (keepResult effectiveAddress).bind fun address => (pushRaising (by simp [Kind.operands])).weaken
    fun _ => .fewer (List.cons_subset_cons _ (List.nil_subset _))

theorem loadStore (form : Form) (size : AccessSize) (signed : Bool) :
    Spends place ⟨[], [], 6⟩ (loadStore form size signed) fun _ => .spent := by
  refine theInstruction.bind fun inst => ?_
  split
  · exact (translatedAddress _ _).bind fun _ => (gpr _).bind fun _ =>
      (two rfl (.held List.mem_cons_self) .last).done.bind fun _ => .pure _
  · exact (translatedAddress _ _).bind fun _ =>
      (keepResult (one rfl (.held List.mem_cons_self))).bind fun _ =>
        (setGpr List.mem_cons_self _).done

theorem loadStorePart (form : Form) (load store : Routine) :
    Spends place ⟨[], [], 6⟩ (loadStorePart form load store) fun _ => .spent := by
  refine theInstruction.bind fun inst => (keepResult effectiveAddress).bind fun address =>
    (keepResult (gpr _)).bind fun register => ?_
  split
  · exact (pushRaising (by simp [Kind.operands, Arguments.toList])).done.bind fun _ => .pure _
  · exact (pushRaising (by simp [Kind.operands, Arguments.toList])).bind fun _ =>
      (setGpr List.mem_cons_self _).done

theorem loadStoreLinked (form : Form) (size : AccessSize) :
    Spends place ⟨[], [], 6⟩ (loadStoreLinked form size) fun _ => .spent := by
  refine theInstruction.bind fun inst => (keepResult effectiveAddress).bind fun address => ?_
  split
  · exact (keepResult (gpr _)).bind fun _ =>
      (pushRaising (by simp [Kind.operands, Arguments.toList])).bind fun _ =>
        (setGpr List.mem_cons_self _).done
  · exact (pushRaising (by simp [Kind.operands, Arguments.toList])).bind fun _ =>
      (setGpr List.mem_cons_self _).done

/-! ## Floating point -/

theorem checkFloatUsable :
    Spends place ⟨[], [], 7⟩ checkFloatUsable fun _ => ⟨[], [], 6⟩ := by
  refine get.bind fun progress => ?_
  split
  · exact (pure _).weaken fun _ => .poorer
  · refine Spends.bind (α := PUnit) (modify fun _ => rfl) fun _ => (leaf rfl).bind fun _ =>
      (constant _ _).bind fun _ => (binary rfl .second .last).bind fun _ =>
        (constant _ _).bind fun _ => (keepResult (check .second .last _)).bind fun _ =>
          (raiseIf List.mem_cons_self _).weaken fun _ => .fewer (List.subset_cons_self _ _)

theorem shiftBy {value : ValueId} (known : hand.Reaches value) (op : ShiftOp)
    (amount : DoubleWord) : Spends place hand (shiftBy op value amount) hand.gain := by
  refine (constant _ _).bind fun amount => ?_
  have later : (hand.next amount).Knows value := by
    cases known with
    | held member => exact .held member
    | last => exact .second
  exact (two rfl later .last).weaken fun _ => .gain (List.Subset.refl _) (Nat.le_refl _)

theorem hasFullFloats : Spends place hand hasFullFloats fun _ => hand :=
  read.bind fun _ => .pure _

theorem readFloat32 (reg : RegisterNumber) : Spends place hand (readFloat32 reg) hand.gain := by
  refine hasFullFloats.bind fun full => ?_
  split
  · exact (loadFloat _).bind fun _ => (toClass .last _).bind fun _ => (shiftBy .last _ _).bind
      fun _ => (toClass .last _).weaken fun _ => .gain (List.subset_cons_self _ _) (Nat.le_refl _)
  · exact (loadRegister _).weaken fun _ => .gain (List.Subset.refl _) (Nat.le_refl _)

theorem lowWord {value : ValueId} (known : value ∈ hand.held) (isClean : Bool) :
    Spends place hand (lowWord value isClean) hand.next := by
  cases isClean with
  | false => exact cast (.held known) _
  | true => exact again (.held known)

theorem bindFloat {value : ValueId} {hand : Hand}
    (known : hand.Reaches value) (some : hand.credit ≠ 0) (reg : GuestRegister) :
    Spends place hand (Emission.toClass .float value >>= Emission.bindRegister reg)
      fun _ => .spent := by
  obtain ⟨held, recent, credit⟩ := hand
  obtain ⟨rest, rfl⟩ := Nat.exists_eq_succ_of_ne_zero some
  exact (keepResult (toClass known _)).bind fun _ => (bindRegister List.mem_cons_self _).done

theorem writeFloat32 {value : ValueId} (reg : RegisterNumber) (isClean : Bool) :
    Spends place ⟨held, value :: recent, credit + 4⟩ (writeFloat32 reg value isClean)
      fun _ => .spent := by
  refine hasFullFloats.bind fun full => ?_
  cases full with
  | true =>
      cases isClean with
      | false =>
          exact (toClass .last _).bind fun _ => (cast .last _).bind fun _ =>
            bindFloat .last (Nat.succ_ne_zero _) _
      | true => exact bindFloat .last (Nat.succ_ne_zero _) _
  | false =>
      refine keep value ((loadFloat _).bind fun old => (toClass (.held List.mem_cons_self) _).bind
        fun old => (toClass (.held (by simp)) _).bind fun value => keep value ?_)
      dsimp only
      split
      · refine keep old ((constant _ _).bind fun mask => (binary rfl (.held (by simp)) .last).bind
          fun high => (lowWord (by simp) _).bind fun low => (binary rfl .second .last).bind
            fun merged => bindFloat .last (Nat.succ_ne_zero _) _)
      · refine (cast .second _).bind fun low => keep low ((shiftBy (.held (by simp)) _ _).bind
          fun high => (binary rfl .last (.held List.mem_cons_self)).bind
            fun merged => bindFloat .last (Nat.succ_ne_zero _) _)

theorem readFloat64 (reg : RegisterNumber) : Spends place hand (readFloat64 reg) hand.gain :=
  (hasFullFloats.bind fun _ => .pure _).bind fun _ =>
    (loadRegister _).weaken fun _ => .gain (List.Subset.refl _) (Nat.le_refl _)

theorem writeFloat64 {value : ValueId} (reg : RegisterNumber) :
    Spends place ⟨held, value :: recent, credit + 1⟩ (writeFloat64 reg value) fun _ => .spent :=
  (hasFullFloats.bind fun _ => .pure _).bind fun _ => bindFloat .last (Nat.succ_ne_zero _) _

theorem readFloat (format : FloatFormat) (reg : RegisterNumber) :
    Spends place hand (readFloat format reg) hand.gain := by
  unfold Emission.readFloat
  split
  · exact readFloat64 _
  · exact readFloat32 _

theorem writeFloat {value : ValueId} (format : FloatFormat) (reg : RegisterNumber)
    (isClean : Bool) :
    Spends place ⟨held, value :: recent, credit + 4⟩ (writeFloat format reg value isClean)
      fun _ => .spent := by
  unfold Emission.writeFloat
  split
  · exact writeFloat64 _
  · exact writeFloat32 _ _

theorem loadStoreFloat (form : Form) (size : AccessSize) :
    Spends place ⟨[], [], 6⟩ (loadStoreFloat form size) fun _ => .spent := by
  refine theInstruction.bind fun inst => ?_
  dsimp only
  by_cases store : form = .floatStore
  · rw [if_pos store]
    exact (translatedAddress _ _).bind fun _ => (readFloat _ _).bind fun _ =>
      (two rfl (.held List.mem_cons_self) .last).done.bind fun _ => .pure _
  · rw [if_neg store]
    exact (translatedAddress _ _).bind fun _ => (one rfl (.held List.mem_cons_self)).bind fun _ =>
      writeFloat _ _ _

theorem moveFromFloat (double : Bool) :
    Spends place ⟨[], [], 6⟩ (moveFromFloat double) fun _ => .spent := by
  refine theInstruction.bind fun inst => ?_
  cases double with
  | true =>
      exact (readFloat64 _).bind fun _ => (keepResult (toClass .last _)).bind fun _ =>
        (setGpr List.mem_cons_self _).done
  | false =>
      exact (readFloat32 _).bind fun _ => (toClass .last _).bind fun _ =>
        (keepResult (cast .last _)).bind fun _ => (setGpr List.mem_cons_self _).done

theorem moveToFloat (double : Bool) :
    Spends place ⟨[], [], 6⟩ (moveToFloat double) fun _ => .spent := by
  refine theInstruction.bind fun inst => (gpr _).bind fun value => ?_
  cases double with
  | true => exact writeFloat64 _
  | false => exact writeFloat32 _ _

theorem moveFromFloatControl : Spends place ⟨[], [], 6⟩ moveFromFloatControl fun _ => .spent := by
  refine theInstruction.bind fun inst => ?_
  dsimp only
  split
  · exact (keepResult (constant _ _)).bind fun _ => (setGpr List.mem_cons_self _).done
  · exact (leaf rfl).bind fun _ => (keepResult (cast .last _)).bind fun _ =>
      (setGpr List.mem_cons_self _).done
  · exact (keepResult (constant _ _)).bind fun _ => (setGpr List.mem_cons_self _).done

theorem moveToFloatControl : Spends place ⟨[], [], 6⟩ moveToFloatControl fun _ => .spent := by
  refine theInstruction.bind fun inst => ?_
  split
  · exact (gpr _).bind fun _ => (constant _ _).bind fun _ => (binary rfl .second .last).bind
      fun _ => (one rfl .last).done.bind fun _ => .pure _
  · exact (pure _).done

theorem legally (result : Except IllegalInstruction α) :
    Spends place hand (legally result) fun _ => hand := by
  cases result with
  | ok value => exact .pure value
  | error illegal =>
      intro limit progress value next emitted
      cases emitted

theorem arithmeticFormat : Spends place hand arithmeticFormat fun _ => hand :=
  read.bind fun _ => legally _

theorem floatArithmetic (op : FloatOp) :
    Spends place ⟨[], [], 6⟩ (floatArithmetic op) fun _ => .spent :=
  arithmeticFormat.bind fun _ => theInstruction.bind fun _ => (keepResult (readFloat _ _)).bind
    fun _ => (readFloat _ _).bind fun _ => (two rfl (.held List.mem_cons_self) .last).bind fun _ =>
      writeFloat _ _ _

theorem floatUnary (op : FloatUnaryOp) :
    Spends place ⟨[], [], 6⟩ (floatUnary op) fun _ => .spent :=
  arithmeticFormat.bind fun _ => theInstruction.bind fun _ => (readFloat _ _).bind fun _ =>
    (one rfl .last).bind fun _ => writeFloat _ _ _

theorem floatMove : Spends place ⟨[], [], 6⟩ floatMove fun _ => .spent :=
  arithmeticFormat.bind fun _ => theInstruction.bind fun _ => (readFloat _ _).bind fun _ =>
    writeFloat _ _ _

theorem floatCompare : Spends place ⟨[], [], 6⟩ floatCompare fun _ => .spent :=
  arithmeticFormat.bind fun _ => theInstruction.bind fun _ => (keepResult (readFloat _ _)).bind
    fun _ => (readFloat _ _).bind fun _ =>
      (two rfl (.held List.mem_cons_self) .last).done.bind fun _ => .pure _

theorem floatConvert (target : FloatFormat) (mode : RoundMode) :
    Spends place ⟨[], [], 6⟩ (floatConvert target mode) fun _ => .spent :=
  read.bind fun _ => (legally _).bind fun _ => (readFloat _ _).bind fun _ =>
    (one rfl .last).bind fun _ => writeFloat _ _ _

/-! ## Instructions -/

theorem secondOperand (form : Form) : Spends place hand (secondOperand form) hand.next := by
  refine theInstruction.bind fun inst => ?_
  split <;> first | exact constant _ _ | exact gpr _

theorem arithmetic (form : Form) {compute : ValueId → ValueId → Emit ValueId}
    (computes : ∀ lhs rhs, Spends place ⟨[rhs, lhs], [], 4⟩ (compute lhs rhs)
      fun id => ⟨[id], [], 3⟩) :
    Spends place ⟨[], [], 6⟩ (arithmetic form compute) fun _ => .spent :=
  theInstruction.bind fun _ => (keepResult (gpr _)).bind fun _ =>
    (keepResult (secondOperand _)).bind fun _ => (computes _ _).bind fun _ =>
      (setGpr List.mem_cons_self _).done

theorem refuses {fails : CompileError} : Spends place before (throw fails : Emit α) after := by
  intro limit progress value next emitted
  cases emitted

theorem arithmeticResult (operation : Operation) (lhs rhs : ValueId) :
    Spends place ⟨[rhs, lhs], [], 4⟩ (arithmeticResult operation lhs rhs)
      fun id => ⟨[id], [], 3⟩ := by
  have left : lhs ∈ [rhs, lhs] := List.mem_cons_of_mem _ List.mem_cons_self
  have right : rhs ∈ [rhs, lhs] := List.mem_cons_self
  have only {emit : Emit ValueId}
      (spends : Spends place ⟨[rhs, lhs], [], 4⟩ emit fun id => ⟨[id, rhs, lhs], [], 3⟩) :
      Spends place ⟨[rhs, lhs], [], 4⟩ emit fun id => ⟨[id], [], 3⟩ :=
    spends.weaken fun _ => .fewer (List.cons_subset_cons _ (List.nil_subset _))
  have word (op : BinaryOp) (stays : op.traps = false) :
      Spends place ⟨[rhs, lhs], [], 4⟩ (Emission.wordResult op lhs rhs)
        fun id => ⟨[id, rhs, lhs], [], 3⟩ :=
    (binary stays (.held left) (.held right)).bind fun _ => keepResult (cast .last _)
  cases operation with
  | addWord | subWord => exact only (word _ rfl)
  | setLess | setLessUnsigned => exact only (keepResult (check (.held left) (.held right) _))
  | nor =>
      exact only ((binary rfl (.held left) (.held right)).bind fun _ =>
        keepResult (one rfl .last))
  | addTrapWord | addTrapDouble | subTrapWord | subTrapDouble | addDouble | subDouble | and | or
  | xor => exact only (binaryHeld left right _)
  | _ => exact read.bind fun _ => refuses

theorem shift (form : Form) (op : ShiftOp) (width : ShiftWidth) :
    Spends place ⟨[], [], 6⟩ (shift form op width) fun _ => .spent := by
  refine theInstruction.bind fun inst => ?_
  dsimp only
  split
  · exact (constant _ _).bind fun _ => (gpr _).bind fun _ =>
      (keepResult (two rfl .last .second)).bind fun _ => (setGpr List.mem_cons_self _).done
  · exact (gpr _).bind fun _ => (gpr _).bind fun _ =>
      (keepResult (two rfl .last .second)).bind fun _ => (setGpr List.mem_cons_self _).done

theorem callPlain (routine : Routine) :
    Spends place ⟨[], [], 6⟩ (callPlain routine) fun _ => .spent :=
  (leaf rfl).done.bind fun _ => .pure _

theorem moveToControl (double : Bool) :
    Spends place ⟨[], [], 6⟩ (moveToControl double) fun _ => .spent :=
  theInstruction.bind fun _ => (gpr _).bind fun _ => (one rfl .last).done.bind fun _ =>
    modify fun _ => rfl

/-- No operation keeps more than six values. -/
theorem emitOperation (inst : Instruction) (form : Form) (operation : Operation) :
    Spends place ⟨[], [], 6⟩ (emitOperation inst form operation) fun _ => .spent := by
  cases operation with
  | nop => exact (pure _).done
  | cacheControl => exact (pure _).done
  | jump => exact jump _
  | jumpLink => exact jump _
  | jumpRegister => exact jumpRegister _
  | jumpRegisterLink => exact jumpRegister _
  | branch mode => exact branch _ _ _ _
  | branchLikely mode => exact branch _ _ _ _
  | branchLink mode => exact branch _ _ _ _
  | branchLinkLikely mode => exact branch _ _ _ _
  | branchFloat onTrue likely => exact branchFloat _ _
  | addTrapWord | addTrapDouble | subTrapWord | subTrapDouble | addWord | subWord | addDouble
  | subDouble | setLess | setLessUnsigned | and | or | xor | nor =>
      exact arithmetic form (arithmeticResult _)
  | insertUpper =>
      exact (keepResult (constant _ _)).bind fun _ => (setGpr List.mem_cons_self _).done
  | shift op width => exact shift form op width
  | mulDiv op =>
      exact (gpr _).bind fun _ => (gpr _).bind fun _ => (two rfl .second .last).done.bind fun _ =>
        .pure _
  | moveFromProduct source =>
      exact (keepResult (leaf rfl)).bind fun _ => (setGpr List.mem_cons_self _).done
  | moveToProduct target =>
      exact (gpr _).bind fun _ => (one rfl .last).done.bind fun _ => .pure _
  | memory size => exact loadStore form size true
  | memoryUnsigned size => exact loadStore form size false
  | memoryLeft size => exact loadStorePart form _ _
  | memoryRight size => exact loadStorePart form _ _
  | memoryLinked size => exact loadStoreLinked form size
  | trap mode =>
      exact (gpr _).bind fun _ => (secondOperand form).bind fun _ =>
        (keepResult (check .second .last _)).bind fun _ => (raiseIf List.mem_cons_self _).done
  | systemCall => exact raise _
  | breakpoint => exact raise _
  | moveFromControl double =>
      exact (keepResult (leaf rfl)).bind fun _ => (setGpr List.mem_cons_self _).done
  | moveToControl double => exact moveToControl double
  | tlbRead => exact callPlain _
  | tlbWriteIndexed => exact callPlain _
  | tlbWriteRandom => exact callPlain _
  | tlbProbe => exact callPlain _
  | exceptionReturn => exact (keepResult (leaf rfl)).bind fun _ => exitTo List.mem_cons_self
  | moveFromFloat double => exact moveFromFloat double
  | moveToFloat double => exact moveToFloat double
  | moveFromFloatControl => exact moveFromFloatControl
  | moveToFloatControl => exact moveToFloatControl
  | floatMemory size => exact loadStoreFloat form size
  | floatArithmetic op => exact floatArithmetic op
  | floatUnary op => exact floatUnary op
  | floatMove => exact floatMove
  | floatConvert target mode => exact floatConvert target mode
  | floatCompare => exact floatCompare

/-- An instruction keeps at most seven values, one of them to check the floating point unit. -/
theorem emitInstruction : Spends place ⟨[], [], 7⟩ emitInstruction fun _ => .spent := by
  refine read.bind fun place => ?_
  dsimp only
  split
  · exact checkFloatUsable.bind fun _ => emitOperation _ _ _
  · exact (emitOperation _ _ _).strengthen .poorer

end Spends

end Instructions

/-! ## Units -/

section Units

variable {limit : Nat} {kept : List ValueId} {draft : Draft} {progress final : Progress}
  {configuration : Configuration} {fault : Option Fault} {index : Nat}
  {entries : List UnitInstruction}

theorem Keeps.richer (keeps : Keeps limit kept draft .spent) (credit : Nat) :
    Keeps (limit + credit) kept draft ⟨[], [], credit⟩ :=
  { keeps with credit := Nat.add_le_add_right keeps.credit credit }

theorem Keeps.empty : Keeps 64 [] .empty .spent where
  brief := .empty
  bound reg id found := by simp [Draft.binding?, Draft.empty] at found
  held := List.nil_subset _
  recent age id found := by cases found
  credit := by simp [unbound, Draft.empty, Hand.spent]

theorem emitAll_keeps
    (emitted : emitAll configuration fault index entries progress = .ok () final)
    (affords : ∃ kept, Keeps limit kept progress.draft .spent) :
    ∃ kept, Keeps (limit + 7 * entries.length + 1) kept final.draft .spent := by
  induction entries generalizing limit index progress with
  | nil =>
      cases emitted
      obtain ⟨kept, keeps⟩ := affords
      exact ⟨kept, (keeps.richer 1).weaken (.spent _)⟩
  | cons entry rest ih =>
      obtain ⟨next, first, others⟩ := emitAll_cons emitted
      obtain ⟨kept, keeps⟩ := affords
      have middle := Spends.emitInstruction (limit + 7) _ _ _ first ⟨kept, keeps.richer 7⟩
      rcases others with ⟨-, others⟩ | ⟨missing, rfl, -, others⟩
      · have last := ih others middle
        rwa [show limit + 7 + 7 * rest.length = limit + 7 * (entry :: rest).length by
          rw [List.length_cons]; omega] at last
      · obtain ⟨more, keeps⟩ := middle
        exact Spends.delaySlotFetchFault missing _ _ _ _ others ⟨more, keeps.richer 1⟩

private theorem flushAll_brief {entries : List (GuestRegister × ValueId)}
    (brief : draft.block.Brief kept) (known : ∀ entry ∈ entries, entry.2 ∈ kept) :
    (entries.foldl (fun draft (reg, value) => (draft.push (.flushRegister reg value)).2)
      draft).block.Brief kept := by
  induction entries generalizing draft with
  | nil => exact brief
  | cons entry rest ih =>
      refine ih (brief.push (.of_operands (by simp [Kind.operands])) fun used uses => .inl ?_)
        fun other member => known other (List.mem_cons_of_mem _ member)
      rw [Value.uses, List.append_nil] at uses
      exact List.mem_singleton.mp uses ▸ known entry List.mem_cons_self

/-- The end of a block uses only what is kept, or was just emitted. -/
theorem Keeps.finish (keeps : Keeps limit kept progress.draft .spent) (endPc : DoubleWord) :
    (finish endPc progress).block.Brief kept := by
  have flushed := flushAll_brief keeps.brief fun entry member =>
    keeps.bound entry.1 entry.2 (mem_flushList.mp member).1
  unfold Emission.finish
  dsimp only
  generalize progress.draft.flushList.foldl _ progress.draft = draft at flushed
  split
  · exact flushed
  · have few : Value.UsesFew ⟨.constant .u64 (ValueType.u64.cast endPc), none⟩ :=
      .of_operands (by simp [Kind.operands])
    have number := flushed.push few fun used uses => absurd uses List.not_mem_nil
    refine number.push (.of_operands (by simp [Kind.operands])) fun used uses => .inr ?_
    rw [Value.uses, List.append_nil] at uses
    rw [List.mem_singleton.mp uses]
    exact (Block.Near.pushed few).older (by decide)

end Units

end Emission

/-- All but a few values of a block are used at once. -/
theorem CodeUnit.emit_brief {codeUnit : CodeUnit} {configuration : Configuration}
    {block : Ir.Block} (emits : codeUnit.emit configuration = .ok block) :
    ∃ kept, block.Brief kept ∧ kept.length ≤ 65 + 7 * codeUnit.length := by
  rw [emit] at emits
  split at emits
  · cases emits
    exact ⟨[], .empty, Nat.zero_le _⟩
  · split at emits
    · rename_i final emitted
      cases emits
      obtain ⟨kept, keeps⟩ := Emission.emitAll_keeps emitted ⟨[], Emission.Keeps.empty⟩
      refine ⟨kept, keeps.finish _, ?_⟩
      have within := keeps.credit
      rw [CodeUnit.length]
      omega
    · cases emits

end MipsRecompiler
