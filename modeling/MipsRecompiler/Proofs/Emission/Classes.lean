import MipsRecompiler.Proofs.Emission.Keeping
import MipsRecompiler.Proofs.Ir.WriteBack

/-!
# Register classes of what is emitted

A register is only ever given a value of its own class, and an exit site writes back what the
registers were given so far. Emitting is judged in a context of values with their classes, as a
program is typed in a context of variables. A context only grows with the block, since no value
that was emitted changes.
-/

set_option autoImplicit false

namespace MipsRecompiler.Emission

open Ir

/-- Values with the class of their results. -/
abbrev Context : Type :=
  List (ValueId × RegisterClass)

/-- Every register has a value of its own class, and what can leave the block counts as many
instructions as it may and writes registers back. Nothing else writes a register back yet. -/
structure Typed (counts : Kind → BitVec 32 → Prop) (known : Context) (progress : Progress) :
    Prop where
  exits : progress.draft.block.Exits counts
  bound : ∀ reg id, progress.draft.binding? reg = some id →
    progress.draft.block.HasClass id reg.registerClass
  zero : progress.draft.binding? .zero = none
  unflushed : progress.draft.block.flushes = []
  known : ∀ fact ∈ known, progress.draft.block.HasClass fact.1 fact.2

/-- Emitting at a place goes from one context to another, as long as an exit may count the
instructions up to the place. -/
def Types {α : Type} (place : Place) (before : Context) (emit : Emit α) (after : α → Context) :
    Prop :=
  ∀ counts, (∀ kind, counts kind (BitVec.ofNat 32 (place.index + 1))) →
    ∀ progress value next, emit place progress = .ok value next →
      Typed counts before progress → Typed counts (after value) next

/-! ## Registers that are written back -/

section Drafts

variable {counts : Kind → BitVec 32 → Prop} {known : Context} {progress : Progress}
  {draft : Draft} {floatChecked exitPcSet : Bool} {id : ValueId} {reg : GuestRegister}

private theorem registers_nodup : GuestRegister.all.Nodup := by
  refine (List.nodup_finRange 64).map fun one other same => ?_
  cases same
  rfl

/-- A register has at most one current value, and so is written back at most once. -/
theorem flushList_nodup (draft : Draft) : (draft.flushList.map Prod.fst).Nodup := by
  have whole : draft.bound.map Prod.fst =
      GuestRegister.all.filter fun reg => (draft.binding? reg).isSome := by
    rw [Draft.bound, List.map_filterMap, ← List.filterMap_eq_filter]
    refine List.filterMap_congr fun reg _ => ?_
    cases binding : draft.binding? reg <;> simp [Option.guard, binding]
  have once : (draft.bound.map Prod.fst).Nodup := by
    rw [whole]
    exact registers_nodup.filter _
  exact once.sublist (List.filter_sublist.map Prod.fst)

namespace Typed

theorem empty (counts : Kind → BitVec 32 → Prop) : Typed counts [] .empty where
  exits _ member := absurd member List.not_mem_nil
  bound reg id found := by simp [Progress.empty, Draft.empty, Draft.binding?] at found
  zero := by simp [Progress.empty, Draft.empty, Draft.binding?]
  unflushed := rfl
  known _ member := absurd member List.not_mem_nil

theorem weaken {less : Context} (typed : Typed counts known progress) (fewer : less ⊆ known) :
    Typed counts less progress :=
  { typed with known := fun fact member => typed.known fact (fewer member) }

theorem know (typed : Typed counts known progress) {registerClass : RegisterClass}
    (fact : progress.draft.block.HasClass id registerClass) :
    Typed counts ((id, registerClass) :: known) progress where
  exits := typed.exits
  bound := typed.bound
  zero := typed.zero
  unflushed := typed.unflushed
  known other member := by
    rcases List.mem_cons.mp member with same | old
    · rw [same]
      exact fact
    · exact typed.known other old

theorem writesBack (typed : Typed counts known progress) :
    progress.draft.block.WritesBack progress.draft.flushList where
  once := flushList_nodup progress.draft
  nonzero entry member zero := by
    have binding := (mem_flushList.mp member).1
    rw [zero, typed.zero] at binding
    cases binding
  classed entry member := typed.bound _ _ (mem_flushList.mp member).1

theorem append (typed : Typed counts known progress) (value : Value)
    (plain : value.kind.flush? = none)
    (leaves : value.kind.leaves = true → ∃ site, value.site = some site ∧
      counts value.kind site.retired ∧ site.flush = progress.draft.flushList) :
    Typed counts known (progress.append value) where
  exits := by
    refine typed.exits.push fun leaving => ?_
    obtain ⟨site, is, counted, flush⟩ := leaves leaving
    exact ⟨site, is, counted, flush ▸ typed.writesBack⟩
  bound reg id found := (typed.bound reg id found).push value
  zero := typed.zero
  unflushed := by
    rw [append_draft_block, Block.flushes_push, typed.unflushed, plain]
    rfl
  known fact member := (typed.known fact member).push value

theorem bind (typed : Typed counts known ⟨draft, floatChecked, exitPcSet⟩)
    (fact : draft.block.HasClass id reg.registerClass) :
    Typed counts known ⟨draft.bind reg id, floatChecked, exitPcSet⟩ := by
  by_cases zero : reg = .zero
  · rw [Draft.bind, if_pos zero]
    exact typed
  · have block : (draft.bind reg id).block = draft.block := by rw [Draft.bind, if_neg zero]
    constructor
    · rw [block]
      exact typed.exits
    · intro other value found
      rw [block]
      rw [binding?_bind zero] at found
      split at found
      · rename_i same
        cases found
        rw [same]
        exact fact
      · exact typed.bound other value found
    · rw [binding?_bind zero, if_neg (Ne.symm zero)]
      exact typed.zero
    · rw [block]
      exact typed.unflushed
    · rw [block]
      exact typed.known

end Typed

end Drafts

/-! ## One rule for each way to emit a value -/

section Rules

variable {α τ : Type} {place : Place} {known before : Context} {after : α → Context}
  {id : ValueId} {registerClass : RegisterClass}

@[simp] theorem registerClass_general (reg : RegisterNumber) :
    (GuestRegister.general reg).registerClass = .general := by
  have small : ¬ 32 ≤ reg.val := by omega
  simp [GuestRegister.registerClass, GuestRegister.isFloat, GuestRegister.general, small]

@[simp] theorem registerClass_float (reg : RegisterNumber) :
    (GuestRegister.float reg).registerClass = .float := by
  simp [GuestRegister.registerClass, GuestRegister.isFloat, GuestRegister.float]

namespace Types

theorem weaken {emit : Emit α} {less : α → Context} (types : Types place before emit after)
    (fewer : ∀ value, less value ⊆ after value) : Types place before emit less := by
  intro counts counted progress value next emitted typed
  exact (types counts counted progress value next emitted typed).weaken (fewer value)

theorem done {emit : Emit α} (types : Types place before emit after) :
    Types place before emit fun _ => [] :=
  types.weaken fun _ => List.nil_subset _

theorem forget {emit : Emit α} {fact : α → ValueId × RegisterClass}
    (types : Types place before emit fun value => fact value :: known) :
    Types place before emit fun _ => known :=
  types.weaken fun _ => List.subset_cons_self _ _

theorem bind {emit : Emit α} {rest : α → Emit τ} {last : τ → Context}
    (first : Types place before emit after)
    (second : ∀ value, Types place (after value) (rest value) last) :
    Types place before (emit >>= rest) last := by
  intro counts counted progress result final emitted typed
  obtain ⟨value, middle, one, two⟩ := Emits.bind_ok emitted
  have between := first counts counted progress value middle one typed
  exact second value counts counted middle result final two between

private theorem of_ok {emit : Emit α} (value : Progress → α) (change : Progress → Progress)
    (succeeds : ∀ progress, emit place progress = .ok (value progress) (change progress))
    (keeps : ∀ counts, (∀ kind, counts kind (BitVec.ofNat 32 (place.index + 1))) →
      ∀ progress, Typed counts before progress →
        Typed counts (after (value progress)) (change progress)) :
    Types place before emit after := by
  intro counts counted progress result next emitted typed
  cases (succeeds progress).symm.trans emitted
  exact keeps counts counted progress typed

theorem pure (value : α) : Types place known (pure value) fun _ => known :=
  of_ok (fun _ => value) id (fun _ => rfl) fun _ _ _ typed => typed

theorem refuses {fails : CompileError} : Types place before (throw fails : Emit α) after := by
  intro counts counted progress value next emitted
  cases emitted

theorem read : Types place known (MonadReader.read : Emit Place) fun _ => known :=
  of_ok (fun _ => place) id (fun _ => rfl) fun _ _ _ typed => typed

theorem get : Types place known (MonadState.get : Emit Progress) fun _ => known :=
  of_ok id id (fun _ => rfl) fun _ _ _ typed => typed

theorem modify {change : Progress → Progress}
    (same : ∀ progress, (change progress).draft = progress.draft) :
    Types place known (modify change : Emit PUnit) fun _ => known := by
  refine of_ok (fun _ => ⟨⟩) change (fun _ => rfl) fun _ _ progress typed => ?_
  obtain ⟨exits, bound, zero, unflushed, facts⟩ := typed
  rw [← same] at exits bound zero unflushed facts
  exact ⟨exits, bound, zero, unflushed, facts⟩

theorem onDraft {change : Draft → α × Draft}
    (keeps : ∀ counts, (∀ kind, counts kind (BitVec.ofNat 32 (place.index + 1))) →
      ∀ progress, Typed counts before progress →
        Typed counts (after (change progress.draft).1)
          { progress with draft := (change progress.draft).2 }) :
    Types place before (onDraft change) after :=
  of_ok (fun progress => (change progress.draft).1)
    (fun progress => { progress with draft := (change progress.draft).2 }) (fun _ => rfl) keeps

theorem dropped {emit : Emit α} (types : Types place before emit after) :
    Types place before (emit >>= fun _ => Pure.pure ⟨⟩ : Emit PUnit) fun _ => [] :=
  types.done.bind fun _ => .pure _

theorem theInstruction : Types place known theInstruction fun _ => known :=
  read.bind fun _ => .pure _

theorem atPlace {rest : Place → Emit τ} {last : τ → Context}
    (types : Types place before (rest place) last) :
    Types place before (MonadReader.read >>= rest) last :=
  types

theorem gives {emit : Emit ValueId} (types : Types place before emit fun _ => known)
    (result : ∀ progress id next, emit place progress = .ok id next →
      next.draft.block.HasClass id registerClass) :
    Types place before emit fun id => (id, registerClass) :: known := by
  intro counts counted progress id next emitted typed
  exact (types counts counted progress id next emitted typed).know
    (result progress id next emitted)

theorem effect {kind : Kind} (stays : kind.leaves = false) (plain : kind.flush? = none) :
    Types place known (push kind) fun _ => known := by
  refine .onDraft fun counts _ progress typed => ?_
  have longer : Typed counts known (progress.append ⟨kind, none⟩) :=
    typed.append _ plain fun leaves => by
      rw [stays] at leaves
      cases leaves
  exact longer

theorem push {kind : Kind} (stays : kind.leaves = false) (plain : kind.flush? = none)
    (result : kind.resultClass? = some registerClass) :
    Types place known (push kind) fun id => (id, registerClass) :: known := by
  refine (effect stays plain).gives fun progress id next emitted => ?_
  cases emitted
  exact .pushed progress.draft.block result

theorem constant (type : ValueType) (value : DoubleWord) :
    Types place known (constant type value) fun id => (id, .general) :: known :=
  push rfl rfl rfl

theorem leave {kind : Kind} (plain : kind.flush? = none) :
    Types place known (pushRaising kind) fun _ => known := by
  refine atPlace (.onDraft fun counts counted progress typed => ?_)
  have longer : Typed counts known
      (progress.append ⟨kind, some (place.site progress.draft)⟩) :=
    typed.append _ plain fun _ => ⟨place.site progress.draft, rfl, counted kind, rfl⟩
  exact longer

theorem pushRaising {kind : Kind} (plain : kind.flush? = none)
    (result : kind.resultClass? = some registerClass) :
    Types place known (pushRaising kind) fun id => (id, registerClass) :: known := by
  refine (leave plain).gives fun progress id next emitted => ?_
  cases emitted
  exact .pushed progress.draft.block result

theorem bindRegister {reg : GuestRegister} (isKnown : (id, reg.registerClass) ∈ known) :
    Types place known (bindRegister reg id) fun _ => known :=
  .onDraft fun _ _ _ typed => typed.bind (typed.known _ isKnown)

theorem loadRegister (reg : GuestRegister) :
    Types place known (loadRegister reg) fun id => (id, reg.registerClass) :: known := by
  refine .onDraft fun counts _ progress typed => ?_
  obtain ⟨draft, floatChecked, exitPcSet⟩ := progress
  have pushed (kind : Kind) (plain : kind.flush? = none) (stays : kind.leaves = false)
      (result : kind.resultClass? = some reg.registerClass) :
      Typed counts ((draft.block.bound, reg.registerClass) :: known)
        ⟨(draft.push kind).2, floatChecked, exitPcSet⟩ := by
    have longer := typed.append ⟨kind, none⟩ plain fun leaves => by
      rw [stays] at leaves
      cases leaves
    exact longer.know (.pushed draft.block result)
  dsimp only [Draft.loadRegister]
  split
  · rename_i zero
    exact pushed _ rfl rfl (by rw [zero]; rfl)
  · split
    · rename_i id binding
      exact typed.know (typed.bound reg id binding)
    · have loaded := pushed (.loadRegister reg) rfl rfl rfl
      exact loaded.bind (loaded.known _ List.mem_cons_self)

theorem gpr (reg : RegisterNumber) :
    Types place known (gpr reg) fun id => (id, .general) :: known := by
  rw [← registerClass_general reg]
  exact loadRegister _

theorem loadFloat (reg : RegisterNumber) :
    Types place known (Emission.loadRegister (.float reg)) fun id => (id, .float) :: known := by
  rw [← registerClass_float reg]
  exact loadRegister _

theorem setGpr (reg : RegisterNumber) (isKnown : (id, .general) ∈ known) :
    Types place known (setGpr reg id) fun _ => known :=
  bindRegister (by rwa [registerClass_general])

/-- What is computed into a general register is forgotten by the next instruction. -/
theorem toGpr {emit : Emit ValueId} (reg : RegisterNumber)
    (types : Types place before emit fun id => (id, .general) :: known) :
    Types place before (emit >>= Emission.setGpr reg) fun _ => [] :=
  types.bind fun _ => (setGpr reg List.mem_cons_self).done

theorem bindFloat (reg : RegisterNumber) (isKnown : (id, .float) ∈ known) :
    Types place known (Emission.bindRegister (.float reg) id) fun _ => known :=
  bindRegister (by rwa [registerClass_float])

theorem binary (op : BinaryOp) (lhs rhs : ValueId) :
    Types place known (binary op lhs rhs) fun id => (id, .general) :: known := by
  unfold Emission.binary
  cases traps : op.traps with
  | true => exact pushRaising rfl rfl
  | false => exact push traps rfl rfl

theorem cast (type : ValueType) (operand : ValueId) :
    Types place known (cast type operand) fun id => (id, .general) :: known :=
  push rfl rfl rfl

theorem check (mode : Comparison) (lhs rhs : ValueId) :
    Types place known (check mode lhs rhs) fun id => (id, .general) :: known :=
  push rfl rfl rfl

theorem raiseIf (condition : ValueId) (cause : ExceptionCause) :
    Types place known (raiseIf condition cause) fun _ => known :=
  read.bind fun _ => (leave rfl).bind fun _ => .pure _

theorem raise (code : ExceptionCode) : Types place known (raise code) fun _ => [] :=
  (constant _ _).bind fun always => (raiseIf always _).done

theorem pushExitPc {kind : Kind} (stays : kind.leaves = false) (plain : kind.flush? = none) :
    Types place known (pushExitPc kind) fun _ => known :=
  (effect stays plain).bind fun _ => modify fun _ => rfl

/-- A known value is in a register of the class afterwards, moved there or not. -/
theorem toClass {value : ValueId} {current : RegisterClass} (registerClass : RegisterClass)
    (isKnown : (value, current) ∈ known) :
    Types place known (toClass registerClass value) fun id => (id, registerClass) :: known := by
  intro counts counted progress id next emitted typed
  obtain ⟨kind, middle, looks, emitted⟩ := Emits.bind_ok emitted
  cases looks
  split at emitted
  · rename_i fits
    cases emitted
    exact typed.know ⟨(typed.known _ isKnown).inside, fits⟩
  · exact push rfl rfl rfl counts counted progress id next emitted typed

end Types

end Rules

end MipsRecompiler.Emission
