import MipsRecompiler.Proofs.Ir.Folding

/-!
# Writing registers back

What an exit writes back, and what the end of a block does: every register at most once, never the
one that is always zero, and with a value of its own class. Passes that replace values by constants
and remove others change nothing about it, since neither touches a register write.
-/

set_option autoImplicit false

namespace MipsRecompiler.Ir

namespace Kind

/-- The register that a value writes back, and the value that it writes there. -/
def flush? : Kind → Option (GuestRegister × ValueId)
  | .flushRegister reg value => some (reg, value)
  | _ => none

def source? : Kind → Option GuestRegister
  | .loadRegister reg => some reg
  | _ => none

/-- Whether a value may stand behind registers that were written back: it says where the guest
continues, or writes another register back. -/
def concludes : Kind → Bool
  | .flushRegister _ _ | .constant _ _ | .setExitPc _ => true
  | _ => false

theorem eq_flushRegister {kind : Kind} {entry : GuestRegister × ValueId}
    (writes : kind.flush? = some entry) : kind = .flushRegister entry.1 entry.2 := by
  cases kind <;> cases writes
  rfl

theorem isArithmetic_of_flush? {kind : Kind} (writes : kind.flush?.isSome = true) :
    kind.isRoot = true ∧ kind.isArithmetic = false := by
  cases kind <;> cases writes
  exact ⟨rfl, rfl⟩

theorem leaves_of_concludes {kind : Kind} (ends : kind.concludes = true) : kind.leaves = false := by
  cases kind <;> first | rfl | cases ends

theorem source?_of_concludes {kind : Kind} (ends : kind.concludes = true) :
    kind.source? = none := by
  cases kind <;> first | rfl | cases ends

/-- What is computed from other values alone is kept in a general register. -/
theorem resultClass?_of_isArithmetic {kind : Kind} (arithmetic : kind.isArithmetic = true) :
    kind.resultClass? = some .general := by
  cases kind <;> first | rfl | cases arithmetic

end Kind

namespace Value.Stands

variable {first second : Value}

theorem resultClass (stands : first.Stands second) :
    second.kind.resultClass? = first.kind.resultClass? := by
  cases stands with
  | same => rfl
  | constant arithmetic fewer => exact (Kind.resultClass?_of_isArithmetic arithmetic).symm

theorem flush (stands : first.Stands second) : second.kind.flush? = first.kind.flush? := by
  cases stands with
  | same => rfl
  | constant arithmetic fewer =>
      cases is : first.kind <;> rw [is] at arithmetic <;> first | rfl | cases arithmetic

theorem concludes (stands : first.Stands second) (ends : first.kind.concludes = true) :
    second.kind.concludes = true := by
  cases stands with
  | same => exact ends
  | constant arithmetic fewer => rfl

end Value.Stands

namespace Block

/-- A value of a block whose result belongs in registers of a class. -/
structure HasClass (block : Block) (id : ValueId) (registerClass : RegisterClass) : Prop where
  inside : id < block.bound
  result : (block.kind id).resultClass? = some registerClass

/-- Registers that are written back with values of a block. -/
structure WritesBack (block : Block) (flush : List (GuestRegister × ValueId)) : Prop where
  once : (flush.map Prod.fst).Nodup
  nonzero : ∀ entry ∈ flush, entry.1 ≠ .zero
  classed : ∀ entry ∈ flush, block.HasClass entry.2 entry.1.registerClass

/-- The registers that a block writes back before it ends, in order. -/
def flushes (block : Block) : List (GuestRegister × ValueId) :=
  block.values.filterMap fun entry => entry.2.kind.flush?

/-- What can leave a block counts the instructions that it may, and writes registers back. -/
def Exits (block : Block) (counts : Kind → BitVec 32 → Prop) : Prop :=
  ∀ entry ∈ block.values, entry.2.kind.leaves = true →
    ∃ site, entry.2.site = some site ∧ counts entry.2.kind site.retired ∧
      block.WritesBack site.flush

/-- Registers are written back at the end. -/
def WritesLast (block : Block) : Prop :=
  ∀ write ∈ block.values, write.2.kind.flush?.isSome = true →
    ∀ later ∈ block.values, write.1 < later.1 → later.2.kind.concludes = true

/-- Registers are read before any of them is written back. -/
def ReadsFirst (block : Block) : Prop :=
  ∀ read ∈ block.values, ∀ write ∈ block.values,
    read.2.kind.source?.isSome = true → write.2.kind.flush?.isSome = true → read.1 < write.1

variable {block changed : Block} {id : ValueId} {value : Value} {registerClass : RegisterClass}
  {flush : List (GuestRegister × ValueId)} {counts : Kind → BitVec 32 → Prop}

theorem mem_flushes {entry : GuestRegister × ValueId} :
    entry ∈ block.flushes ↔
      ∃ id, block.isListed id = true ∧ block.kind id = .flushRegister entry.1 entry.2 := by
  simp only [flushes, List.mem_filterMap]
  constructor
  · rintro ⟨⟨id, value⟩, member, writes⟩
    obtain ⟨listed, same⟩ := mem_values.mp member
    exact ⟨id, listed, Kind.eq_flushRegister (by rw [kind, ← same]; exact writes)⟩
  · rintro ⟨id, listed, is⟩
    exact ⟨_, value_mem listed, by rw [← kind, is]; rfl⟩

/-! ## Appending -/

theorem HasClass.push (known : block.HasClass id registerClass) (value : Value) :
    (block.push value).2.HasClass id registerClass := by
  constructor
  · rw [bound_push]
    exact Nat.lt_succ_of_lt known.inside
  · rw [kind, value_push_of_lt value known.inside]
    exact known.result

theorem HasClass.pushed (block : Block) (result : value.kind.resultClass? = some registerClass) :
    (block.push value).2.HasClass block.bound registerClass := by
  constructor
  · rw [bound_push]
    exact Nat.lt_succ_self _
  · rw [kind, value_push, if_pos rfl]
    exact result

theorem WritesBack.push (writes : block.WritesBack flush) (value : Value) :
    (block.push value).2.WritesBack flush where
  once := writes.once
  nonzero := writes.nonzero
  classed entry member := (writes.classed entry member).push value

theorem flushes_push (block : Block) (value : Value) :
    (block.push value).2.flushes = block.flushes ++ value.kind.flush?.toList := by
  rw [flushes, values_push, List.filterMap_append, ← flushes]
  cases writes : value.kind.flush? <;> simp [writes]

theorem Exits.push (exits : block.Exits counts)
    (last : value.kind.leaves = true → ∃ site, value.site = some site ∧
      counts value.kind site.retired ∧ block.WritesBack site.flush) :
    (block.push value).2.Exits counts := by
  intro entry member leaves
  rw [values_push] at member
  have here : ∃ site, entry.2.site = some site ∧ counts entry.2.kind site.retired ∧
      block.WritesBack site.flush := by
    rcases List.mem_append.mp member with old | new
    · exact exits entry old leaves
    · cases List.mem_singleton.mp new
      exact last leaves
  obtain ⟨site, is, counted, writes⟩ := here
  exact ⟨site, is, counted, writes.push value⟩

theorem flush?_eq_none (unflushed : block.flushes = []) {entry : ValueId × Value}
    (member : entry ∈ block.values) : entry.2.kind.flush? = none := by
  rw [flushes, List.filterMap_eq_nil_iff] at unflushed
  exact unflushed entry member

theorem WritesLast.of_unflushed (unflushed : block.flushes = []) : block.WritesLast := by
  intro write member flush
  rw [flush?_eq_none unflushed member] at flush
  cases flush

theorem WritesLast.push (last : block.WritesLast) (ends : value.kind.concludes = true) :
    (block.push value).2.WritesLast := by
  intro write writes flush later member behind
  rw [values_push] at writes member
  rcases List.mem_append.mp member with early | late
  · rcases List.mem_append.mp writes with old | new
    · exact last write old flush later early behind
    · cases List.mem_singleton.mp new
      exact absurd behind (Nat.lt_asymm (isListed_lt_bound (mem_values.mp early).1))
  · cases List.mem_singleton.mp late
    exact ends

/-- A register that is read behind one that was written back would not be at the end. -/
theorem WritesLast.readsFirst (last : block.WritesLast) : block.ReadsFirst := by
  intro read reads write writes source flush
  rcases Nat.lt_trichotomy read.1 write.1 with before | same | behind
  · exact before
  · rw [(mem_values.mp reads).2, same, ← (mem_values.mp writes).2] at source
    obtain ⟨entry, some⟩ := Option.isSome_iff_exists.mp flush
    rw [Kind.eq_flushRegister some] at source
    cases source
  · rw [Kind.source?_of_concludes (last write writes flush read reads behind)] at source
    cases source

/-- A block to which only values were appended that may stand at the end. -/
structure Closes (block longer : Block) : Prop where
  exits : ∀ counts, block.Exits counts → longer.Exits counts
  writesLast : block.WritesLast → longer.WritesLast
  hasClass : ∀ id registerClass, block.HasClass id registerClass → longer.HasClass id registerClass

namespace Closes

variable {longer last : Block}

theorem refl (block : Block) : Closes block block :=
  ⟨fun _ => id, id, fun _ _ => id⟩

theorem trans (left : Closes block longer) (right : Closes longer last) : Closes block last where
  exits counts exits := right.exits counts (left.exits counts exits)
  writesLast last := right.writesLast (left.writesLast last)
  hasClass id registerClass known :=
    right.hasClass id registerClass (left.hasClass id registerClass known)

theorem push (block : Block) (ends : value.kind.concludes = true) :
    Closes block (block.push value).2 where
  exits counts exits := exits.push fun leaves => by
    rw [Kind.leaves_of_concludes ends] at leaves
    cases leaves
  writesLast last := last.push ends
  hasClass id registerClass known := known.push value

theorem writesBack (closes : Closes block longer) (writes : block.WritesBack flush) :
    longer.WritesBack flush where
  once := writes.once
  nonzero := writes.nonzero
  classed entry member := closes.hasClass _ _ (writes.classed entry member)

end Closes

/-! ## Replacing and removing -/

namespace Reduces

variable (reduces : Reduces block changed)

include reduces

theorem hasClass (known : block.HasClass id registerClass) (present : changed.isListed id = true) :
    changed.HasClass id registerClass where
  inside := isListed_lt_bound present
  result := ((reduces.stands id present).resultClass).trans known.result

theorem writesBack (writes : block.WritesBack flush)
    (present : ∀ entry ∈ flush, changed.isListed entry.2 = true) : changed.WritesBack flush where
  once := writes.once
  nonzero := writes.nonzero
  classed entry member := reduces.hasClass (writes.classed entry member) (present entry member)

theorem exits (ordered : block.Ordered) (exits : block.Exits counts) : changed.Exits counts := by
  intro entry member leaves
  obtain ⟨present, same⟩ := mem_values.mp member
  have old := (reduces.stands _ present).eq_of_leaves (same ▸ leaves)
  have listed := reduces.listed _ present
  rw [same, old] at leaves ⊢
  obtain ⟨site, is, counted, writes⟩ := exits _ (value_mem listed) leaves
  refine ⟨site, is, counted, reduces.writesBack writes fun flushed flushes => ?_⟩
  have uses : flushed.2 ∈ (changed.value entry.1).uses := by
    rw [old, Value.uses, is]
    exact List.mem_append_right _ (List.mem_map_of_mem flushes)
  exact ((reduces.ordered ordered).uses present uses).2.listed

theorem flushes_eq : changed.flushes = block.flushes := by
  have written (block : Block) : block.flushes = (List.range block.bound).filterMap fun id =>
      if block.isListed id then (block.kind id).flush? else none := by
    rw [flushes, values, ids, List.filterMap_map, List.filterMap_filter]
    rfl
  rw [written, written, reduces.bound]
  refine List.filterMap_congr fun id _ => ?_
  cases present : changed.isListed id with
  | true =>
      rw [if_pos rfl, if_pos (reduces.listed id present)]
      exact (reduces.stands id present).flush
  | false =>
      rw [if_neg (by decide)]
      split
      · rename_i listed
        cases writes : (block.kind id).flush? with
        | none => rfl
        | some entry =>
            obtain ⟨root, plain⟩ := Kind.isArithmetic_of_flush? (by rw [writes]; rfl)
            exact absurd (reduces.stays id listed root plain) (by simp [present])
      · rfl

theorem flushes_writesBack (ordered : block.Ordered) (writes : block.WritesBack block.flushes) :
    changed.WritesBack changed.flushes := by
  have same := reduces.flushes_eq
  rw [same]
  refine reduces.writesBack writes fun entry member => ?_
  rw [← same] at member
  obtain ⟨id, present, is⟩ := mem_flushes.mp member
  have uses : entry.2 ∈ (changed.value id).uses := by
    rw [Value.uses, ← kind, is]
    exact List.mem_append_left _ List.mem_cons_self
  exact ((reduces.ordered ordered).uses present uses).2.listed

theorem writesLast (last : block.WritesLast) : changed.WritesLast := by
  intro write writes flush later member behind
  obtain ⟨one, same⟩ := mem_values.mp writes
  obtain ⟨two, equal⟩ := mem_values.mp member
  rw [same, (reduces.stands _ one).flush] at flush
  rw [equal]
  refine (reduces.stands _ two).concludes ?_
  have early := value_mem (reduces.listed write.1 one)
  have late := value_mem (reduces.listed later.1 two)
  exact last (write.1, block.value write.1) early flush (later.1, block.value later.1) late behind

end Reduces

end Block

end MipsRecompiler.Ir
