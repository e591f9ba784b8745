import MipsRecompiler.Proofs.Ir.WellFormed
import MipsRecompiler.Proofs.Ir.Evaluation
import MipsRecompiler.Proofs.Memory.Routines

/-!
# Blocks that always come to an end

Evaluating a block comes to an end if every value that can leave it says how, and some value says
where the guest continues.
-/

set_option autoImplicit false

namespace MipsRecompiler.Ir

variable {β : Type} [Bus β]

/-- A block that can always be evaluated to its end. -/
structure Block.Total (block : Block) : Prop where
  sites : block.Sited
  continues : ∃ entry ∈ block.values, entry.2.kind.continues = true

theorem Kind.Departs.leaves {kind : Kind} {state : Evaluation β} {machine : Machine β}
    {finish : ExitSite → Machine β → Machine β} (departs : kind.Departs state machine finish) :
    kind.leaves = true := by
  cases departs with
  | @overflow op lhs rhs overflows =>
      cases op <;> first | rfl | simp [BinaryOp.eval?] at overflows
  | call called => exact Machine.mayRaise_of_error called
  | translate | exception | branch => rfl

theorem Value.evaluate_ne_stuck {value : Value} (id : ValueId) (state : Evaluation β)
    (sited : value.kind.leaves = true → value.site.isSome = true) :
    value.evaluate id state ≠ .stuck := by
  rcases value.evaluate_cases id state with ⟨next, -, evaluates⟩ | ⟨_, _, departs, evaluates⟩
  · simp [evaluates]
  · obtain ⟨site, present⟩ := Option.isSome_iff_exists.mp (sited departs.leaves)
    simp [evaluates, Evaluation.leave, present]

theorem Value.leaves_of_evaluate {value : Value} {id : ValueId} {state : Evaluation β}
    {retired : BitVec 32} {machine : Machine β}
    (leaves : value.evaluate id state = .left retired machine) : value.kind.leaves = true := by
  obtain ⟨_, _, _, departs, -⟩ := Value.departs_of_evaluate leaves
  exact departs.leaves

/-- What a value said about where the guest continues is not taken back. -/
theorem Value.evaluate_exitPc {value : Value} {id : ValueId} {state next : Evaluation β}
    (evaluates : value.evaluate id state = .next next)
    (said : value.kind.continues = true ∨ state.exitPc.isSome = true) :
    next.exitPc.isSome = true := by
  obtain ⟨kind, site⟩ := value
  cases Value.proceeds_of_evaluate evaluates with
  | setExitPc | setExitPcIf => rfl
  | compute computes =>
      refine said.resolve_left fun continues => ?_
      cases kind with
      | setExitPc | setExitPcIf => cases computes
      | _ => cases continues
  | _ => exact said.resolve_left nofun

/-- Where all values that can leave say how, evaluating them comes to an end. -/
theorem ending_ne_stuck {values : List (ValueId × Value)} (state : Evaluation β)
    (sites : ∀ entry ∈ values, entry.2.kind.leaves = true → entry.2.site.isSome = true) :
    ending values state ≠ .stuck := by
  induction values generalizing state with
  | nil => simp [ending]
  | cons head rest ih =>
      obtain ⟨id, value⟩ := head
      have first := Value.evaluate_ne_stuck id state (sites _ List.mem_cons_self)
      rw [ending]
      cases evaluates : value.evaluate id state with
      | next next => exact ih next fun entry member => sites entry (List.mem_cons_of_mem _ member)
      | left retired machine => simp
      | stuck => exact absurd evaluates first

theorem ending_exitPc {values : List (ValueId × Value)} {state : Evaluation β}
    {exitPc : Option DoubleWord} {machine : Machine β}
    (ends : ending values state = .finished exitPc machine)
    (said : state.exitPc.isSome = true ∨ ∃ entry ∈ values, entry.2.kind.continues = true) :
    exitPc.isSome = true := by
  induction values generalizing state with
  | nil =>
      cases ends
      rcases said with said | ⟨_, member, -⟩
      · exact said
      · cases member
  | cons head rest ih =>
      obtain ⟨id, value⟩ := head
      rw [ending] at ends
      cases evaluates : value.evaluate id state with
      | left retired machine => simp [evaluates] at ends
      | stuck => simp [evaluates] at ends
      | next next =>
          rw [evaluates] at ends
          refine ih ends ?_
          rcases said with said | ⟨entry, member, continues⟩
          · exact .inl (Value.evaluate_exitPc evaluates (.inr said))
          · rcases List.mem_cons.mp member with rfl | later
            · exact .inl (Value.evaluate_exitPc evaluates (.inl continues))
            · exact .inr ⟨entry, later, continues⟩

namespace Block

/-- Where a block ends behind its last value, it is known where the guest continues. -/
def Continues (block : Block) : Prop :=
  ∀ {β : Type} [Bus β] (machine after : Machine β), block.ending machine ≠ .finished none after

variable {block : Block}

theorem Continues.of_mem (said : ∃ entry ∈ block.values, entry.2.kind.continues = true) :
    block.Continues := by
  intro β _ machine after ends
  cases ending_exitPc ends (.inr said)

/-- A block that says how it is left can be evaluated on every machine. -/
theorem Sited.evaluates (sited : block.Sited) (continues : block.Continues) (retired : BitVec 32)
    (machine : Machine β) : ∃ count after, block.evaluate retired machine = some (count, after) := by
  rw [evaluate_eq_ending]
  cases ends : block.ending machine with
  | finished exitPc after =>
      cases exitPc with
      | none => exact absurd ends (continues machine after)
      | some pc => exact ⟨retired, after.mapCpu fun cpu => { cpu with pc }, rfl⟩
  | left exit left after => exact ⟨left, after, rfl⟩
  | stuck => exact absurd ends (ending_ne_stuck _ sited)

end Block

end MipsRecompiler.Ir
