import MipsRecompiler.Emission.Branch
import MipsRecompiler.Proofs.Emission.Values

/-!
# Values with an effect

What changes the guest beside its registers, says where it continues, or can leave the block.
-/

set_option autoImplicit false

namespace MipsRecompiler.Emission

open Ir

variable {β : Type}

/-- How a block is left if a translation fails. -/
def Place.faults {α : Type} (place : Place) (guest : Machine β) :
    Except Fault α → Option (BitVec 32 × Machine β)
  | .ok _ => none
  | .error fault => some (place.raises (.ofFault fault) guest)

/-- The stage behind a translation. The address is good for a store if it was translated for
one. -/
def Stage.aim (stage : Stage β) (access : AccessKind) (size : AccessSize) (id : ValueId)
    (result : DoubleWord) : Stage β :=
  { stage.know id result with
    targets := if access = .store then (id, size) :: stage.targets else stage.targets }

/-- The stage with one more value known, if there is a result to know. -/
def Stage.knowIf (stage : Stage β) (hasResult : Bool) (id : ValueId) (result : DoubleWord) :
    Stage β :=
  if hasResult then stage.know id result else stage

namespace Emits

variable [Bus β] {start : Machine β} {place : Place} {before : Stage β}

theorem of_raising {kind : Kind} {after : ValueId → Stage β}
    {leaves : Option (BitVec 32 × Machine β)} (admits : before.Admits kind)
    (sounds : ∀ progress : Progress,
      Sound (progress.append ⟨kind, some (place.site progress.draft)⟩) before →
      Sound (progress.append ⟨kind, some (place.site progress.draft)⟩)
        (after progress.draft.block.bound))
    (runs : ∀ (progress : Progress) state, Sound progress before →
      Shows start progress before state →
      match leaves with
      | some (retired, machine) =>
        Value.evaluate ⟨kind, some (place.site progress.draft)⟩ progress.draft.block.bound state =
          .left retired machine
      | none => ∃ reached,
        Value.evaluate ⟨kind, some (place.site progress.draft)⟩ progress.draft.block.bound state =
          .next reached ∧
        Shows start (progress.append ⟨kind, some (place.site progress.draft)⟩)
          (after progress.draft.block.bound) reached) :
    Emits start place before (pushRaising kind) after leaves :=
  of_append (fun draft => some (place.site draft)) (fun _ => rfl) admits
    (by rintro draft present ⟨⟩; rfl) sounds runs

theorem binaryPlain {op : BinaryOp} {lhs rhs : ValueId} {a b result : DoubleWord}
    (plain : op.traps = false) (left : (lhs, a) ∈ before.known) (right : (rhs, b) ∈ before.known)
    (evaluates : op.eval? a b = some result) :
    Emits start place before (Emission.binary op lhs rhs) (fun id => before.know id result)
      none := by
  simp only [Emission.binary, plain, Bool.false_eq_true, if_false]
  exact pushBinary left right evaluates

theorem binary {op : BinaryOp} {lhs rhs : ValueId} {a b : DoubleWord}
    (left : (lhs, a) ∈ before.known) (right : (rhs, b) ∈ before.known) :
    Emits start place before (Emission.binary op lhs rhs)
      (fun id => before.know id ((op.eval? a b).getD 0))
      (if op.eval? a b = none then some (place.raises (.ofCode .overflow) before.guest)
        else none) := by
  have admits : before.Admits (.binary op lhs rhs) := by
    refine .of_operands rfl rfl ?_
    simpa [Kind.operands] using ⟨⟨a, left⟩, ⟨b, right⟩⟩
  cases traps : op.traps with
  | false =>
      obtain ⟨result, evaluates⟩ : ∃ result, op.eval? a b = some result := by
        cases op <;> simp_all [BinaryOp.traps, BinaryOp.eval?]
      simp only [evaluates, reduceCtorEq, if_false, Option.getD_some]
      exact binaryPlain traps left right evaluates
  | true =>
      simp only [Emission.binary, traps, if_true]
      refine of_raising admits (fun progress sound => sound.know (.push_self _ rfl) _) ?_
      intro progress state sound shows
      have operands : Kind.compute? (.binary op lhs rhs) state.cells state.machine.cpu =
          op.eval? a b := by
        rw [Kind.compute?, shows.known _ left, shows.known _ right]
      cases evaluates : op.eval? a b with
      | some result =>
          simp only [reduceCtorEq, if_false, Option.getD_some]
          refine ⟨state.define progress.draft.block.bound result, ?_, ?_⟩
          · simp only [Value.evaluate, operands, evaluates]
          · exact shows.define _ sound (by simp) result
      | none =>
          simp only [if_true]
          simp only [Value.evaluate, operands, evaluates]
          exact shows.raiseAt sound place _

theorem translate {address : ValueId} {access : AccessKind} {size : AccessSize} {a : DoubleWord}
    (known : (address, a) ∈ before.known) :
    Emits start place before (pushRaising (.translate address access size))
      (fun id => before.aim access size id
        (match before.guest.translate a access size with
        | .ok physical => physical.setWidth 64
        | .error _ => 0))
      (place.faults before.guest (before.guest.translate a access size)) := by
  refine of_raising (.of_operands rfl rfl (by simpa [Kind.operands] using ⟨a, known⟩)) ?_ ?_
  · intro progress sound
    have defined : (progress.append ⟨.translate address access size,
        some (place.site progress.draft)⟩).draft.block.Defined progress.draft.block.bound :=
      .push_self _ rfl
    obtain ⟨formed, bound, zero, known, targets⟩ := sound.know defined _
    refine ⟨formed, bound, zero, known, fun target member => ?_⟩
    simp only [Stage.aim] at member
    split at member
    · rename_i stores
      rcases List.mem_cons.mp member with rfl | old
      · refine ⟨defined, address, ?_⟩
        rw [append_draft_block, Block.kind, Block.value_push, if_pos rfl, stores]
      · exact targets target old
    · exact targets target member
  · intro progress state sound shows
    have same : state.machine.translate (state.cells address) access size =
        before.guest.translate a access size := by
      rw [shows.known _ known, shows.machine]
      rfl
    cases translated : before.guest.translate a access size with
    | ok physical =>
        refine ⟨state.define progress.draft.block.bound (physical.setWidth 64), ?_, ?_⟩
        · simp only [Value.evaluate, Kind.compute?, same, translated]
        · obtain ⟨machine, bound, free, loaded, known, zero, usable, exitPc, exitSet⟩ :=
            shows.define ⟨.translate address access size, some (place.site progress.draft)⟩ sound
              (by simp) (physical.setWidth 64)
          exact ⟨machine, bound, free, loaded, known, zero, usable, exitPc, exitSet⟩
    | error fault =>
        simp only [Place.faults, Value.evaluate, Kind.compute?, same, translated]
        exact shows.raiseAt sound place _

/-- What a conditional exit does to the stage: nothing. -/
private theorem exitIf {condition : ValueId} {value : DoubleWord} {exit : BlockExit}
    {left : Machine β} (known : (condition, value) ∈ before.known)
    (finishes : ∀ progress state, Sound progress before → Shows start progress before state →
      (match exit with
        | .exception descriptor =>
          (state.flush progress.draft.flushList).raise descriptor
        | .branch pc =>
          (state.flush progress.draft.flushList).mapCpu fun cpu => { cpu with pc }) = left) :
    Emits start place before (pushRaising (.exitIf condition exit)) (fun _ => before)
      (if value = 0 then none else some (BitVec.ofNat 32 (place.index + 1), left)) := by
  refine of_raising (.of_operands rfl rfl (by simpa [Kind.operands] using ⟨value, known⟩))
    (fun progress sound => sound) ?_
  intro progress state sound shows
  by_cases zero : value = 0
  · rw [if_pos zero]
    refine ⟨state, ?_, ?_⟩
    · simp only [Value.evaluate, Kind.compute?, shows.known _ known, zero, if_true]
    · exact shows.append sound shows.machine ⟨rfl, rfl⟩ (fun _ _ => rfl) (by simp)
        shows.usable rfl
  · rw [if_neg zero]
    simp only [Value.evaluate, Kind.compute?, shows.known _ known, zero, if_false,
      Evaluation.leave, Place.site]
    cases exit <;> exact congrArg (Outcome.left _) (finishes progress state sound shows)

theorem raiseIf {condition : ValueId} {value : DoubleWord} {cause : ExceptionCause}
    (known : (condition, value) ∈ before.known) :
    Emits start place before (Emission.raiseIf condition cause) (fun _ => before)
      (if value = 0 then none else some (place.raises cause before.guest)) := by
  have exits : Emits start place before
      (pushRaising (.exitIf condition (.exception (place.exception cause)))) (fun _ => before)
      (if value = 0 then none else some (place.raises cause before.guest)) := by
    refine exitIf known fun progress state sound shows => ?_
    simp only [shows.flush sound]
    rfl
  refine read ?_
  by_cases zero : value = 0
  · rw [if_pos zero] at exits ⊢
    exact exits.bind fun _ => pure ()
  · rw [if_neg zero] at exits ⊢
    exact exits.bind_left fun _ => shapes_pure () (fun _ => id) fun _ => id

theorem raise (code : ExceptionCode) :
    Emits start place before (Emission.raise code) (fun _ => before)
      (some (place.raises (.ofCode code) before.guest)) := by
  refine bind (constant .u64 1) fun always => ?_
  have raises : Emits start place (before.know always (ValueType.u64.cast 1))
      (Emission.raiseIf always (.ofCode code)) _ _ := raiseIf List.mem_cons_self
  rw [if_neg (by decide)] at raises
  exact raises.of_left (fun _ => List.subset_cons_self _ _) fun _ _ => id

/-- A likely branch that is not taken leaves the block behind its delay slot. -/
theorem nullify {condition : ValueId} {value pc : DoubleWord}
    (known : (condition, value) ∈ before.known) :
    Emits start place before (pushRaising (.exitIf condition (.branch pc))) (fun _ => before)
      (if value = 0 then none
        else some (BitVec.ofNat 32 (place.index + 1),
          before.guest.mapCpu fun cpu => { cpu with pc })) := by
  refine exitIf known fun progress state sound shows => ?_
  simp only [shows.flush sound]
  rfl

/-- The exit behind a branch whose delay slot is missing. The slot counts as executed. -/
theorem delaySlotFetchFault (fault : Fault) :
    Emits start place before (Emission.delaySlotFetchFault fault) (fun _ => before)
      (some (BitVec.ofNat 32 (place.index + 2),
        before.guest.raise
          { cause := .ofFault fault, pc := place.entry.pc, delaySlot := true })) := by
  refine read ?_
  refine (constant .u64 1).bind fun always => ?_
  have exits : Emits start place (before.know always (ValueType.u64.cast 1))
      (onDraft fun draft =>
        draft.pushWithSite
          (.exitIf always (.exception
            { cause := .ofFault fault, pc := place.entry.pc, delaySlot := true }))
          { pc := place.entry.pc
            delaySlot := true
            retired := BitVec.ofNat 32 (place.index + 2)
            flush := draft.flushList })
      (fun _ => before)
      (some (BitVec.ofNat 32 (place.index + 2),
        before.guest.raise
          { cause := .ofFault fault, pc := place.entry.pc, delaySlot := true })) := by
    refine of_append (fun draft => some
        { pc := place.entry.pc
          delaySlot := true
          retired := BitVec.ofNat 32 (place.index + 2)
          flush := draft.flushList }) (fun _ => rfl)
      (.of_operands rfl rfl (by simp [Kind.operands])) (by rintro draft present ⟨⟩; rfl)
      (fun progress sound => sound.weaken
        ⟨rfl, rfl, List.subset_cons_self _ _, fun _ member => member⟩) ?_
    intro progress state sound shows
    have one : state.cells always ≠ 0 := by
      have known : state.cells always = ValueType.u64.cast 1 :=
        shows.known _ List.mem_cons_self
      rw [known]
      decide
    simp only [Value.evaluate, Kind.compute?, one, if_false, Evaluation.leave, shows.flush sound]
    rfl
  exact exits.bind_left fun _ => shapes_pure () (fun _ => id) fun _ => id

end Emits

end MipsRecompiler.Emission
