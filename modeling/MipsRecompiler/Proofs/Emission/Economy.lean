import Mathlib.Data.Fintype.Card
import MipsRecompiler.Emission.Block
import MipsRecompiler.Proofs.Emission.Rules
import MipsRecompiler.Proofs.Ir.Brevity

/-!
# How much is kept

Nearly all values of an instruction are used up by the next two. Those that last longer are bound to
registers, leave the block with them, or are one of a few per instruction. Emitting is judged by
how many more values it may keep.
-/

set_option autoImplicit false

namespace MipsRecompiler.Emission

open Ir

/-- The values at hand while an instruction is emitted. -/
structure Hand where
  /-- Values that are kept, and may be used at any time. -/
  held : List ValueId
  /-- Values that were just emitted, the last one first. The first two may be used. -/
  recent : List ValueId
  /-- How many more values may be kept. -/
  credit : Nat

namespace Hand

/-- The hand behind one more value. -/
def next (hand : Hand) (id : ValueId) : Hand :=
  { hand with recent := id :: hand.recent }

@[simp] theorem next_held (hand : Hand) (id : ValueId) : (hand.next id).held = hand.held := rfl

/-- The hand behind some values of which only the last is used again. -/
def gain (hand : Hand) (id : ValueId) : Hand :=
  { hand with recent := [id] }

/-- The hand behind some values that are not used again. -/
def rest (hand : Hand) : Hand :=
  { hand with recent := [] }

def spent : Hand := ⟨[], [], 0⟩

/-- A value that the next one may use. -/
inductive Knows : Hand → ValueId → Prop where
  | held {hand : Hand} {id : ValueId} : id ∈ hand.held → Knows hand id
  | last {held recent : List ValueId} {credit : Nat} {id : ValueId} :
      Knows ⟨held, id :: recent, credit⟩ id
  | second {held recent : List ValueId} {credit : Nat} {other id : ValueId} :
      Knows ⟨held, other :: id :: recent, credit⟩ id

/-- A value that has been emitted last, or is kept. -/
inductive Reaches : Hand → ValueId → Prop where
  | held {hand : Hand} {id : ValueId} : id ∈ hand.held → Reaches hand id
  | last {held recent : List ValueId} {credit : Nat} {id : ValueId} :
      Reaches ⟨held, id :: recent, credit⟩ id

theorem Reaches.knows {hand : Hand} {id : ValueId} (reaches : hand.Reaches id) :
    hand.Knows id := by
  cases reaches with
  | held member => exact .held member
  | last => exact .last

structure Within (less more : Hand) : Prop where
  held : less.held ⊆ more.held
  recent : less.recent <+: more.recent
  credit : less.credit ≤ more.credit

theorem Within.spent (hand : Hand) : Hand.spent.Within hand :=
  ⟨List.nil_subset _, List.nil_prefix, Nat.zero_le _⟩

theorem Within.rest (hand : Hand) : hand.rest.Within hand :=
  ⟨List.Subset.refl _, List.nil_prefix, Nat.le_refl _⟩

theorem Within.fewer {held more recent : List ValueId} {credit : Nat} (fewer : held ⊆ more) :
    Within ⟨held, recent, credit⟩ ⟨more, recent, credit⟩ :=
  ⟨fewer, List.prefix_rfl, Nat.le_refl _⟩

theorem Within.poorer {held recent : List ValueId} {credit : Nat} :
    Within ⟨held, recent, credit⟩ ⟨held, recent, credit + 1⟩ :=
  ⟨List.Subset.refl _, List.prefix_rfl, Nat.le_succ _⟩

theorem Within.gain {less more : Hand} {id : ValueId} (fewer : less.held ⊆ more.held)
    (poorer : less.credit ≤ more.credit) : (less.gain id).Within (more.next id) :=
  ⟨fewer, ⟨more.recent, rfl⟩, poorer⟩

end Hand

/-- How many registers have no current value. -/
def unbound (draft : Draft) : Nat :=
  (Finset.univ.filter fun reg : Fin 64 => draft.bindings[reg] = none).card

/-- A draft whose values are used at once, but for those in a list. Every value in a register is
kept, and there is room for one more for every register without. -/
structure Keeps (limit : Nat) (kept : List ValueId) (draft : Draft) (hand : Hand) : Prop where
  brief : draft.block.Brief kept
  bound : ∀ reg id, draft.binding? reg = some id → id ∈ kept
  held : hand.held ⊆ kept
  recent : ∀ age id, hand.recent[age]? = some id → id ∈ kept ∨ draft.block.Near (age + 1) id
  credit : kept.length + unbound draft + hand.credit ≤ limit

/-- Emitting keeps no more values than the hand allows. -/
def Spends {α : Type} (place : Place) (before : Hand) (emit : Emit α) (after : α → Hand) : Prop :=
  ∀ limit progress value next, emit place progress = .ok value next →
    (∃ kept, Keeps limit kept progress.draft before) →
    ∃ kept, Keeps limit kept next.draft (after value)

section Drafts

variable {limit : Nat} {kept held recent : List ValueId} {credit : Nat} {draft : Draft}
  {hand less : Hand} {id : ValueId} {reg : GuestRegister}

theorem Keeps.weaken (keeps : Keeps limit kept draft hand) (within : less.Within hand) :
    Keeps limit kept draft less where
  brief := keeps.brief
  bound := keeps.bound
  held := fun _ member => keeps.held (within.held member)
  recent age id found := by
    refine keeps.recent age id ?_
    obtain ⟨more, same⟩ := within.recent
    obtain ⟨inside, -⟩ := List.getElem?_eq_some_iff.mp found
    rw [← same, List.getElem?_append_left inside, found]
  credit := Nat.le_trans (Nat.add_le_add_left within.credit _) keeps.credit

theorem Keeps.keep (keeps : Keeps limit kept draft ⟨held, recent, credit + 1⟩) (id : ValueId) :
    Keeps limit (id :: kept) draft ⟨id :: held, recent, credit⟩ where
  brief := keeps.brief.mono (List.subset_cons_self id kept)
  bound reg id bound := List.mem_cons_of_mem _ (keeps.bound reg id bound)
  held := List.cons_subset_cons id keeps.held
  recent age id found := (keeps.recent age id found).imp_left (List.mem_cons_of_mem _)
  credit := by
    have within := keeps.credit
    simp only [List.length_cons] at within ⊢
    omega

theorem Keeps.reaches (keeps : Keeps limit kept draft hand) (reaches : hand.Reaches id) :
    id ∈ kept ∨ draft.block.Near 1 id := by
  cases reaches with
  | held member => exact .inl (keeps.held member)
  | last => exact keeps.recent 0 id rfl

theorem Keeps.knows (keeps : Keeps limit kept draft hand) (knows : hand.Knows id) :
    id ∈ kept ∨ draft.block.Near 2 id := by
  cases knows with
  | held member => exact .inl (keeps.held member)
  | last => exact (keeps.recent 0 id rfl).imp_right fun near => near.older (by decide)
  | second => exact keeps.recent 1 id rfl

theorem Keeps.aged (keeps : Keeps limit kept draft hand) {value : Value} (few : value.UsesFew)
    (age : Nat) (found : hand.recent[age]? = some id) :
    id ∈ kept ∨ (draft.block.push value).2.Near (age + 1 + 1) id :=
  (keeps.recent age id found).imp_right fun near => near.push few

theorem Keeps.push (keeps : Keeps limit kept draft hand) {kind : Kind}
    (short : kind.operands.length ≤ 2) (known : ∀ used ∈ kind.operands, hand.Knows used) :
    Keeps limit kept (draft.push kind).2 (hand.next draft.block.bound) where
  brief := keeps.brief.push (.of_operands short) fun used uses => by
    rw [Value.uses, List.append_nil] at uses
    exact keeps.knows (known used uses)
  bound := keeps.bound
  held := keeps.held
  recent age id found := by
    cases age with
    | zero =>
        cases found
        exact .inr (.pushed (.of_operands short))
    | succ age => exact keeps.aged (.of_operands short) age found
  credit := keeps.credit

theorem Keeps.uses (keeps : Keeps limit kept draft hand) {kind : Kind} {site : ExitSite}
    (flush : site.flush = draft.flushList) (known : ∀ used ∈ kind.operands, used ∈ hand.held) :
    ∀ used ∈ Value.uses ⟨kind, some site⟩, used ∈ kept := by
  intro used uses
  rcases List.mem_append.mp uses with operand | flushed
  · exact keeps.held (known used operand)
  · obtain ⟨entry, member, rfl⟩ := List.mem_map.mp flushed
    rw [flush] at member
    exact keeps.bound _ _ (mem_flushList.mp member).1

theorem Keeps.pushWithSite (keeps : Keeps limit kept draft ⟨held, recent, credit + 1⟩)
    {kind : Kind} {site : ExitSite} (flush : site.flush = draft.flushList)
    (known : ∀ used ∈ kind.operands, used ∈ held) :
    Keeps limit (draft.block.bound :: kept) (draft.pushWithSite kind site).2
      ⟨draft.block.bound :: held, [], credit⟩ where
  brief := (keeps.keep draft.block.bound).brief.pushBusy
    (fun used uses => List.mem_cons_of_mem _ (keeps.uses flush known used uses))
    fun _ => List.mem_cons_self
  bound := (keeps.keep draft.block.bound).bound
  held := (keeps.keep draft.block.bound).held
  recent age id found := by cases found
  credit := (keeps.keep draft.block.bound).credit

theorem Keeps.pushBusy (keeps : Keeps limit kept draft hand) {value : Value}
    (known : ∀ used ∈ value.uses, used ∈ kept) (none : value.kind.resultClass? = none) :
    Keeps limit kept { draft with block := (draft.block.push value).2 } hand.rest where
  brief := keeps.brief.pushBusy known fun some => by
    rw [none] at some
    cases some
  bound := keeps.bound
  held := keeps.held
  recent age id found := by cases found
  credit := keeps.credit

/-! ### Registers -/

theorem binding?_bind (nonzero : reg ≠ .zero) (other : GuestRegister) :
    (draft.bind reg id).binding? other = if other = reg then some id else draft.binding? other := by
  rw [Draft.bind, if_neg nonzero, Draft.binding?, Draft.binding?]
  simp only [Fin.getElem_fin, Vector.getElem_set]
  by_cases same : other = reg
  · simp [same]
  · have differs : reg.number.val ≠ other.number.val := fun equal =>
      same (by cases other; cases reg; simp_all [Fin.ext_iff])
    simp [same, differs]

theorem binding?_eq (draft : Draft) (number : Fin 64) :
    draft.binding? ⟨number⟩ = draft.bindings[number] := rfl

private theorem unbound_bind_subset (draft : Draft) (reg : GuestRegister) (id : ValueId) :
    (Finset.univ.filter fun other : Fin 64 => (draft.bind reg id).bindings[other] = none) ⊆
      Finset.univ.filter fun other : Fin 64 => draft.bindings[other] = none := by
  by_cases zero : reg = .zero
  · rw [Draft.bind, if_pos zero]
  · intro other member
    rw [Finset.mem_filter, ← binding?_eq, binding?_bind zero] at member
    rw [Finset.mem_filter, ← binding?_eq]
    split at member
    · exact absurd member.2 (Option.some_ne_none id)
    · exact member

theorem unbound_bind_le (draft : Draft) (reg : GuestRegister) (id : ValueId) :
    unbound (draft.bind reg id) ≤ unbound draft :=
  Finset.card_le_card (unbound_bind_subset draft reg id)

theorem unbound_bind_lt (nonzero : reg ≠ .zero) (free : draft.binding? reg = none) :
    unbound (draft.bind reg id) < unbound draft := by
  refine Finset.card_lt_card
    ((Finset.ssubset_iff_of_subset (unbound_bind_subset draft reg id)).mpr ⟨reg.number, ?_, ?_⟩)
  · exact Finset.mem_filter.mpr ⟨Finset.mem_univ _, free⟩
  · rw [Finset.mem_filter, ← binding?_eq, binding?_bind nonzero, if_pos rfl]
    exact fun member => Option.some_ne_none id member.2

private theorem Keeps.rebind (keeps : Keeps limit kept draft hand) {more : List ValueId}
    (grows : kept ⊆ more) (known : id ∈ more)
    (room : more.length + unbound (draft.bind reg id) ≤ kept.length + unbound draft) :
    Keeps limit more (draft.bind reg id) hand := by
  have block : (draft.bind reg id).block = draft.block := by
    unfold Draft.bind
    split <;> rfl
  refine ⟨block ▸ keeps.brief.mono grows, fun other value found => ?_,
    fun _ member => grows (keeps.held member),
    fun age value found => block ▸ (keeps.recent age value found).imp_left (grows ·),
    Nat.le_trans (Nat.add_le_add_right room _) keeps.credit⟩
  by_cases zero : reg = .zero
  · rw [Draft.bind, if_pos zero] at found
    exact grows (keeps.bound other value found)
  · rw [binding?_bind zero] at found
    split at found
    · cases found
      exact known
    · exact grows (keeps.bound other value found)

theorem Keeps.bind (keeps : Keeps limit kept draft hand) (known : id ∈ hand.held)
    (reg : GuestRegister) : Keeps limit kept (draft.bind reg id) hand :=
  keeps.rebind (List.Subset.refl _) (keeps.held known)
    (Nat.add_le_add_left (unbound_bind_le draft reg id) _)

/-- A register without a value may get any. It is kept in the room that there was for it. -/
theorem Keeps.bindFree (keeps : Keeps limit kept draft hand) (nonzero : reg ≠ .zero)
    (free : draft.binding? reg = none) (id : ValueId) :
    Keeps limit (id :: kept) (draft.bind reg id) hand := by
  have fewer : unbound (draft.bind reg id) < unbound draft := unbound_bind_lt nonzero free
  refine keeps.rebind (List.subset_cons_self id kept) List.mem_cons_self ?_
  rw [List.length_cons]
  omega

theorem Keeps.again (keeps : Keeps limit kept draft hand)
    (known : id ∈ kept ∨ draft.block.Near 1 id) : Keeps limit kept draft (hand.next id) :=
  { keeps with
    recent := fun age other found => by
      cases age with
      | zero =>
          cases found
          exact known
      | succ age =>
          exact (keeps.recent age other found).imp_right fun near => near.older (Nat.le_succ _) }

/-- What a register holds is at hand. It is kept, or a zero that was just emitted. -/
theorem Keeps.loadRegister (keeps : Keeps limit kept draft hand) (reg : GuestRegister) :
    ∃ more, Keeps limit more (draft.loadRegister reg).2 (hand.next (draft.loadRegister reg).1) ∧
      (reg ≠ .zero → (draft.loadRegister reg).1 ∈ more) := by
  have pushed (kind : Kind) (operands : kind.operands = []) :
      Keeps limit kept (draft.push kind).2 (hand.next draft.block.bound) :=
    keeps.push (by simp [operands]) (by simp [operands])
  rw [Draft.loadRegister]
  split
  · rename_i zero
    exact ⟨kept, pushed _ rfl, fun nonzero => absurd zero nonzero⟩
  · rename_i nonzero
    cases binding : draft.binding? reg with
    | none => exact ⟨_, (pushed _ rfl).bindFree nonzero binding _, fun _ => List.mem_cons_self⟩
    | some id =>
        have known := keeps.bound reg id binding
        exact ⟨kept, keeps.again (.inl known), fun _ => known⟩

end Drafts

/-! ## One rule for each way to emit a value -/

section Rules

variable {α τ : Type} {place : Place} {hand before : Hand} {held recent : List ValueId}
  {credit : Nat} {after : α → Hand}

namespace Spends

theorem weaken {emit : Emit α} {less : α → Hand} (spends : Spends place before emit after)
    (within : ∀ value, (less value).Within (after value)) : Spends place before emit less := by
  intro limit progress value next emitted affords
  obtain ⟨kept, keeps⟩ := spends limit progress value next emitted affords
  exact ⟨kept, keeps.weaken (within value)⟩

theorem strengthen {emit : Emit α} {more : Hand} (spends : Spends place before emit after)
    (within : before.Within more) : Spends place more emit after := by
  intro limit progress value next emitted ⟨kept, keeps⟩
  exact spends limit progress value next emitted ⟨kept, keeps.weaken within⟩

theorem done {emit : Emit α} (spends : Spends place before emit after) :
    Spends place before emit fun _ => .spent :=
  spends.weaken fun _ => .spent _

theorem bind {emit : Emit α} {next : α → Emit τ} {last : τ → Hand}
    (first : Spends place before emit after)
    (second : ∀ value, Spends place (after value) (next value) last) :
    Spends place before (emit >>= next) last := by
  intro limit progress result final emitted affords
  obtain ⟨value, middle, one, two⟩ := Emits.bind_ok emitted
  exact second value limit middle result final two (first limit progress value middle one affords)

theorem keep {emit : Emit α} (id : ValueId)
    (spends : Spends place ⟨id :: held, recent, credit⟩ emit after) :
    Spends place ⟨held, recent, credit + 1⟩ emit after := by
  intro limit progress value next emitted ⟨kept, keeps⟩
  exact spends limit progress value next emitted ⟨id :: kept, keeps.keep id⟩

/-- Credit is spent on a result, and what was emitted before it is not used again. -/
theorem keepResult {emit : Emit ValueId} {some : ValueId → List ValueId}
    (spends : Spends place before emit fun id => ⟨held, some id, credit + 1⟩) :
    Spends place before emit fun id => ⟨id :: held, [], credit⟩ := by
  intro limit progress id next emitted affords
  obtain ⟨kept, keeps⟩ := spends limit progress id next emitted affords
  exact ⟨id :: kept, (keeps.weaken (.rest _)).keep id⟩

private theorem of_ok {emit : Emit α} (value : Progress → α) (change : Progress → Progress)
    (succeeds : ∀ progress, emit place progress = .ok (value progress) (change progress))
    (keeps : ∀ limit kept progress, Keeps limit kept progress.draft before →
      ∃ more, Keeps limit more (change progress).draft (after (value progress))) :
    Spends place before emit after := by
  intro limit progress result next emitted ⟨kept, holds⟩
  cases (succeeds progress).symm.trans emitted
  exact keeps limit kept progress holds

theorem pure (value : α) : Spends place hand (pure value) fun _ => hand :=
  of_ok (fun _ => value) id (fun _ => rfl) fun _ kept _ keeps => ⟨kept, keeps⟩

theorem read : Spends place hand (MonadReader.read : Emit Place) fun _ => hand :=
  of_ok (fun _ => place) id (fun _ => rfl) fun _ kept _ keeps => ⟨kept, keeps⟩

theorem get : Spends place hand (MonadState.get : Emit Progress) fun _ => hand :=
  of_ok id id (fun _ => rfl) fun _ kept _ keeps => ⟨kept, keeps⟩

theorem modify {change : Progress → Progress}
    (same : ∀ progress, (change progress).draft = progress.draft) :
    Spends place hand (modify change : Emit PUnit) fun _ => hand :=
  of_ok (fun _ => ⟨⟩) change (fun _ => rfl) fun _ kept progress keeps =>
    ⟨kept, same progress ▸ keeps⟩

theorem onDraft {change : Draft → α × Draft}
    (keeps : ∀ limit kept draft, Keeps limit kept draft before →
      ∃ more, Keeps limit more (change draft).2 (after (change draft).1)) :
    Spends place before (onDraft change) after :=
  of_ok (fun progress => (change progress.draft).1)
    (fun progress => { progress with draft := (change progress.draft).2 }) (fun _ => rfl)
    fun limit kept progress holds => keeps limit kept progress.draft holds

theorem theInstruction : Spends place hand theInstruction fun _ => hand :=
  read.bind fun _ => .pure _

theorem push {kind : Kind} (short : kind.operands.length ≤ 2)
    (known : ∀ used ∈ kind.operands, hand.Knows used) :
    Spends place hand (push kind) hand.next :=
  .onDraft fun _ kept _ keeps => ⟨kept, keeps.push short known⟩

theorem leaf {kind : Kind} (operands : kind.operands = []) :
    Spends place hand (Emission.push kind) hand.next :=
  push (by simp [operands]) (by simp [operands])

theorem one {kind : Kind} {operand : ValueId} (operands : kind.operands = [operand])
    (known : hand.Knows operand) : Spends place hand (Emission.push kind) hand.next :=
  push (by simp [operands]) (by simpa [operands] using known)

theorem two {kind : Kind} {lhs rhs : ValueId} (operands : kind.operands = [lhs, rhs])
    (left : hand.Knows lhs) (right : hand.Knows rhs) :
    Spends place hand (Emission.push kind) hand.next :=
  push (by simp [operands]) (by simpa [operands] using ⟨left, right⟩)

theorem constant (type : ValueType) (value : DoubleWord) :
    Spends place hand (constant type value) hand.next :=
  leaf rfl

theorem busy {kind : Kind} (none : kind.resultClass? = none)
    (known : ∀ used ∈ kind.operands, used ∈ hand.held) :
    Spends place hand (Emission.push kind) fun _ => hand.rest :=
  .onDraft fun _ kept _ keeps => ⟨kept, keeps.pushBusy
    (fun used uses => keeps.held (known used (by simpa [Value.uses] using uses))) none⟩

theorem pushRaising {kind : Kind} (known : ∀ used ∈ kind.operands, used ∈ held) :
    Spends place ⟨held, recent, credit + 1⟩ (pushRaising kind) fun id => ⟨id :: held, [], credit⟩ :=
  read.bind fun _ => .onDraft fun _ _ _ keeps => ⟨_, keeps.pushWithSite rfl known⟩

theorem exitWith {condition : ValueId} {exit : BlockExit} {site : Draft → ExitSite}
    (flush : ∀ draft, (site draft).flush = draft.flushList) (known : condition ∈ hand.held) :
    Spends place hand
      (Emission.onDraft fun draft => draft.pushWithSite (.exitIf condition exit) (site draft))
      fun _ => hand.rest :=
  .onDraft fun _ kept draft keeps => ⟨kept, keeps.pushBusy
    (keeps.uses (flush draft) fun _ uses => List.mem_singleton.mp uses ▸ known) rfl⟩

theorem exitIf {condition : ValueId} {exit : BlockExit} (known : condition ∈ hand.held) :
    Spends place hand (Emission.pushRaising (.exitIf condition exit)) fun _ => hand.rest :=
  read.bind fun _ => exitWith (fun _ => rfl) known

theorem raiseIf {condition : ValueId} (known : condition ∈ hand.held) (cause : ExceptionCause) :
    Spends place hand (raiseIf condition cause) fun _ => hand.rest :=
  read.bind fun _ => (exitIf known).bind fun _ => .pure _

theorem raise (code : ExceptionCode) :
    Spends place ⟨held, recent, credit + 1⟩ (raise code) fun _ => .spent :=
  (constant _ _).bind fun always => keep always (raiseIf List.mem_cons_self _).done

theorem loadRegister (reg : GuestRegister) :
    Spends place hand (loadRegister reg) hand.next :=
  .onDraft fun _ _ _ keeps =>
    have ⟨more, loaded, _⟩ := keeps.loadRegister reg
    ⟨more, loaded⟩

/-- A floating point register is never zero by itself. -/
theorem loadFloat (reg : RegisterNumber) :
    Spends place hand (Emission.loadRegister (.float reg))
      fun id => { hand.next id with held := id :: hand.held } := by
  refine .onDraft fun _ _ draft keeps => ?_
  obtain ⟨more, loaded, known⟩ := keeps.loadRegister (.float reg)
  refine ⟨more, { loaded with held := List.cons_subset.mpr ⟨known ?_, loaded.held⟩ }⟩
  intro zero
  have number := congrArg (fun reg => reg.number.val) zero
  simp [GuestRegister.float, GuestRegister.zero, GuestRegister.general] at number

theorem gpr (reg : RegisterNumber) : Spends place hand (gpr reg) hand.next :=
  loadRegister _

theorem bindRegister {value : ValueId} (known : value ∈ hand.held) (reg : GuestRegister) :
    Spends place hand (bindRegister reg value) fun _ => hand :=
  .onDraft fun _ kept _ keeps => ⟨kept, keeps.bind known reg⟩

theorem setGpr {value : ValueId} (known : value ∈ hand.held) (reg : RegisterNumber) :
    Spends place hand (setGpr reg value) fun _ => hand :=
  bindRegister known _

theorem cast {operand : ValueId} (known : hand.Knows operand) (type : ValueType) :
    Spends place hand (cast type operand) hand.next :=
  one rfl known

theorem check {lhs rhs : ValueId} (left : hand.Knows lhs) (right : hand.Knows rhs)
    (mode : Comparison) : Spends place hand (check mode lhs rhs) hand.next :=
  two rfl left right

theorem binary {op : BinaryOp} {lhs rhs : ValueId} (stays : op.traps = false)
    (left : hand.Knows lhs) (right : hand.Knows rhs) :
    Spends place hand (binary op lhs rhs) hand.next := by
  rw [Emission.binary, stays, if_neg Bool.false_ne_true]
  exact two rfl left right

/-- The result of any operation is kept, and its operands have to be. -/
theorem binaryHeld {lhs rhs : ValueId} (left : lhs ∈ held) (right : rhs ∈ held) (op : BinaryOp) :
    Spends place ⟨held, recent, credit + 1⟩ (Emission.binary op lhs rhs)
      fun id => ⟨id :: held, [], credit⟩ := by
  cases traps : op.traps with
  | false => exact keepResult (binary traps (.held left) (.held right))
  | true =>
      rw [Emission.binary, traps, if_pos rfl]
      exact pushRaising (by simpa [Kind.operands] using ⟨left, right⟩)

theorem pushExitPc {kind : Kind} (none : kind.resultClass? = none)
    (known : ∀ used ∈ kind.operands, used ∈ hand.held) :
    Spends place hand (pushExitPc kind) fun _ => hand.rest :=
  (busy none known).bind fun _ => modify fun _ => rfl

theorem kindOf (id : ValueId) : Spends place hand (kindOf id) fun _ => hand :=
  get.bind fun _ => .pure _

theorem again {value : ValueId} (known : hand.Reaches value) :
    Spends place hand (Pure.pure value : Emit ValueId) hand.next :=
  of_ok (fun _ => value) id (fun _ => rfl) fun _ kept _ keeps =>
    ⟨kept, keeps.again (keeps.reaches known)⟩

theorem toClass {value : ValueId} (known : hand.Reaches value) (registerClass : RegisterClass) :
    Spends place hand (toClass registerClass value) hand.next := by
  refine (kindOf value).bind fun kind => ?_
  split
  · exact again known
  · exact one rfl known.knows

end Spends

end Rules

end MipsRecompiler.Emission
