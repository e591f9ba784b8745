import MipsRecompiler.Proofs.Allocation.Coverage
import MipsRecompiler.Proofs.Cpu.GuestRegisters
import MipsRecompiler.Proofs.HostCode.Refinement
import MipsRecompiler.Proofs.Ir.Totality

/-!
# Every block can be written

Nothing is missing when a block is written whose values all have places, and whose exits say how
the block is left.
-/

set_option autoImplicit false

namespace MipsRecompiler.HostCode

open Ir

/-! ## Pieces -/

def Complete (pieces : List Piece) : Prop :=
  ∀ piece ∈ pieces, piece.missing? = none

@[simp]
theorem complete_nil : Complete [] := by
  intro piece member
  cases member

@[simp]
theorem complete_cons {piece : Piece} {pieces : List Piece} :
    Complete (piece :: pieces) ↔ piece.missing? = none ∧ Complete pieces :=
  List.forall_mem_cons

@[simp]
theorem complete_append {pieces more : List Piece} :
    Complete (pieces ++ more) ↔ Complete pieces ∧ Complete more :=
  List.forall_mem_append

theorem Complete.join {pieces : List Piece} (complete : Complete pieces) :
    joinPieces pieces = ((joinPieces pieces).1, none) :=
  Prod.ext rfl (List.findSome?_eq_none_iff.mpr complete)

namespace Piece

@[simp]
theorem missing?_ok (bytes : List UInt8) : missing? (.ok bytes) = none := rfl

@[simp]
theorem missing?_byte (value : UInt8) : (byte value).missing? = none := rfl

@[simp]
theorem missing?_number {width : Nat} (value : BitVec width) : (number value).missing? = none := rfl

@[simp]
theorem missing?_flag (value : Bool) : (flag value).missing? = none := rfl

@[simp]
theorem missing?_coded {α : Type} [DecidableEq α] [Enumeration α] (value : α) :
    (coded value).missing? = none := rfl

@[simp]
theorem missing?_register (reg : GuestRegister) : (register reg).missing? = none := rfl

@[simp]
theorem missing?_target (operand : Operand) : (target operand).missing? = none := rfl

@[simp]
theorem missing?_stateField (field : StateField) : (stateField field).missing? = none := by
  cases field <;> rfl

@[simp]
theorem missing?_source_ok (operand : Operand) : (source (.ok operand)).missing? = none := rfl

theorem missing?_source {operand : Except CompileError Operand}
    (placed : ∃ place, operand = .ok place) : (source operand).missing? = none := by
  obtain ⟨place, rfl⟩ := placed
  rfl

end Piece

@[simp]
theorem blockExit_complete (exit : BlockExit) : Complete (Piece.blockExit exit) := by
  cases exit <;> simp [Piece.blockExit, Piece.exception]

@[simp]
theorem optionalTarget_complete (target : Option Operand) :
    Complete (Piece.optionalTarget target) := by
  cases target <;> simp [Piece.optionalTarget]

theorem site_complete {site : Site PendingFlush}
    (placed : ∀ entry ∈ site.flush, ∃ place, entry.2 = .ok place) :
    Complete (Piece.site site) := by
  have written : (Piece.flushBytes site.flush).2 = none := by
    refine List.findSome?_eq_none_iff.mpr fun piece member => ?_
    obtain ⟨entry, present, piece⟩ := List.mem_flatMap.mp member
    simp only [List.mem_cons, List.not_mem_nil, or_false] at piece
    rcases piece with rfl | rfl
    · rfl
    · exact Piece.missing?_source (placed entry present)
  rw [Piece.site]
  dsimp only
  rw [written]
  simp

/-! ## Values -/

section Lower

variable {block : Block} {allocation : Allocation} {id : ValueId}

/-- The operation of a value can be written when everything that the value uses has a place. -/
theorem complete_of_lower {op : PendingOp} (lowered : lower block allocation id = .ok (some op))
    (used : ∀ other ∈ (block.value id).uses, ∃ place, operandOf block allocation other = .ok place) :
    Complete op.pieces := by
  have source : ∀ other ∈ (block.value id).kind.operands,
      (Piece.source (operandOf block allocation other)).missing? = none :=
    fun other operand => Piece.missing?_source (used other (List.mem_append_left _ operand))
  have written : ∀ site ∈ (block.value id).site,
      Complete (Piece.site (pendingSite block allocation site)) := by
    intro site present
    refine site_complete fun entry member => ?_
    obtain ⟨⟨reg, other⟩, flushed, rfl⟩ := List.mem_map.mp member
    refine used other ?_
    rw [Value.uses, Option.mem_def.mp present]
    exact List.mem_append_right _ (List.mem_map_of_mem flushed)
  have lowers := lowers_of_lower lowered
  generalize (block.value id).kind = kind, (block.value id).site = site at lowers source written
  have optional : Complete (Piece.optionalSite (site.map (pendingSite block allocation))) := by
    cases site with
    | none => simp [Piece.optionalSite]
    | some site => simp [Piece.optionalSite, written]
  clear used lowered
  cases lowers with
  | @call _ arguments =>
      have passed :
          Complete ((pendingArguments block allocation arguments).toList.map Piece.source) := by
        cases arguments <;> simp_all [pendingArguments, Arguments.toList, Kind.operands]
      simp [HostOp.pieces, passed, optional]
  | _ => simp_all [HostOp.pieces, Kind.operands]

/-- Every listed value with a result has a place, and only constants stand in instructions. -/
def Placed (block : Block) (allocation : Allocation) : Prop :=
  ∀ id, block.Defined id → allocation.get id ≠ .none ∧
    (allocation.get id = .immediate → (block.kind id).constant?.isSome = true)

variable (placed : Placed block allocation)

include placed

theorem Placed.operand (defined : block.Defined id) :
    ∃ place, operandOf block allocation id = .ok place := by
  obtain ⟨somewhere, constant⟩ := placed id defined
  unfold operandOf
  cases got : allocation.get id with
  | none => exact absurd got somewhere
  | immediate =>
      obtain ⟨value, is⟩ := Option.isSome_iff_exists.mp (constant got)
      exact ⟨.immediate value, by simp only [is]⟩
  | register kind reg => cases kind <;> exact ⟨_, rfl⟩
  | spilled kind slot => exact ⟨_, rfl⟩

theorem Placed.target (defined : block.Defined id) (atRunTime : allocation.get id ≠ .immediate) :
    ∃ target, targetOf block allocation id = .ok target := by
  obtain ⟨place, holds⟩ := placed.operand defined
  have got := get_of_operandOf holds
  unfold targetOf
  rw [holds]
  cases place with
  | immediate value => exact absurd got.1 atRunTime
  | general reg | float reg | spill slot => exact ⟨_, rfl⟩

theorem Placed.lower (sited : block.Sited) (listed : block.isListed id = true) :
    ∃ op, lower block allocation id = .ok op := by
  have required (leaves : (block.value id).kind.leaves = true) :
      ∃ site, (block.value id).site = some site :=
    Option.isSome_iff_exists.mp (sited _ (Block.value_mem listed) leaves)
  have target (result : (block.value id).kind.resultClass?.isSome = true)
      (computed : (block.value id).kind.constant? = none) :
      ∃ target, targetOf block allocation id = .ok target := by
    refine placed.target ⟨listed, result⟩ fun immediate => ?_
    have constant := (placed id ⟨listed, result⟩).2 immediate
    rw [Block.kind, computed] at constant
    cases constant
  simp only [lower_eq_ok_iff]
  generalize site : (block.value id).site = site at required
  cases kind : (block.value id).kind <;> rw [kind] at required target
  case constant =>
    by_cases immediate : allocation.get id = .immediate
    · exact ⟨_, .skipped immediate⟩
    · obtain ⟨result, given⟩ := placed.target ⟨listed, by rw [Block.kind, kind]; rfl⟩ immediate
      exact ⟨_, .constant immediate given⟩
  case flushRegister | store | storeState | mulDiv | setExitPc | setExitPcIf | floatCompare =>
    exact ⟨_, by constructor⟩
  case exitIf =>
    obtain ⟨site, rfl⟩ := required rfl
    exact ⟨_, .exitIf⟩
  case translate =>
    obtain ⟨result, given⟩ := target rfl rfl
    obtain ⟨site, rfl⟩ := required rfl
    exact ⟨_, .translate given⟩
  case call routine arguments =>
    cases has : routine.hasResult with
    | true =>
        obtain ⟨result, given⟩ := target (by simp [Kind.resultClass?, has]) rfl
        have results : (some result).isSome = routine.hasResult := has.symm
        exact ⟨_, .call results (by simp [given])⟩
    | false =>
        have results : (none : Option Operand).isSome = routine.hasResult := has.symm
        exact ⟨_, .call results (by simp)⟩
  all_goals
    obtain ⟨result, given⟩ := target rfl rfl
    exact ⟨_, by constructor; exact given⟩

theorem Placed.encode (ordered : block.Ordered) (sited : block.Sited) (retired : BitVec 32) :
    ∃ code, encode block allocation retired = (code, none) := by
  have values : Complete (block.ids.flatMap (valuePieces block allocation)) := by
    intro piece member
    obtain ⟨id, listed, present⟩ := List.mem_flatMap.mp member
    have listed : block.isListed id = true := Block.mem_ids.mp listed
    obtain ⟨op, lowered⟩ := placed.lower sited listed
    rw [valuePieces, lowered] at present
    cases op with
    | none => cases present
    | some op =>
        refine complete_of_lower lowered (fun other uses => ?_) piece present
        exact placed.operand (ordered.uses listed uses).2
  have complete : Complete (.ok (littleEndian 2 allocation.spillSlots) ::
      block.ids.flatMap (valuePieces block allocation) ++
        HostOp.pieces (.finish retired : PendingOp)) := by
    simp [values, HostOp.pieces]
  exact ⟨_, complete.join⟩

end Lower

/-! ## What the code of a block does -/

section Backend

variable {block : Block} {platform : Platform} {allocation : Allocation}

private theorem length_le_of_nodup {entries : List (GuestRegister × ValueId)}
    (once : (entries.map Prod.fst).Nodup) : entries.length ≤ 64 := by
  have within : (entries.map Prod.fst).Subperm GuestRegister.all :=
    List.subperm_of_subset once fun reg _ => GuestRegister.mem_all reg
  simpa [GuestRegister.all] using within.length_le

/-- Code that does to every machine what evaluating a block does, with the same effects. -/
structure Implements (code : List UInt8) (block : Block) (retired : BitVec 32) : Prop where
  executes : ∀ {β : Type} [Bus β] (machine : Machine β), ∃ count after,
    block.evaluate retired machine = some (count, after) ∧
    execute code machine = (.ok count, after)
  events : ∀ {β : Type} [Bus β] (machine : Machine β),
    HostCode.events code machine = block.events machine

/-- The code of a block that has places can be written, and does what the block does. -/
theorem encode_implements (lowerable : block.Lowerable) (sited : block.Sited)
    (continues : block.Continues) (distinct : Allocation.Distinct platform)
    (allocated : Allocation.ofBlock block platform = .ok allocation) (retired : BitVec 32) :
    ∃ code, encode block allocation retired = (code, none) ∧ Implements code block retired := by
  have placed : Placed block allocation := fun id => Allocation.ofBlock_covers allocated
  obtain ⟨code, encoded⟩ := placed.encode lowerable.ordered sited retired
  have sound := Allocation.ofBlock_sound distinct allocated
  refine ⟨code, encoded, fun machine => ?_, fun machine => ?_⟩
  · obtain ⟨count, after, evaluates⟩ := sited.evaluates continues retired machine
    exact ⟨count, after, evaluates,
      (execute_of_evaluate lowerable sound encoded machine).1 count after evaluates⟩
  · exact (execute_of_evaluate lowerable sound encoded machine).2

/-- However few registers a platform has, a block that has been given places on it can be written,
and running its code does to every machine what evaluating the block does. So the code for two
platforms gives the same result. -/
theorem execute_encode (ordered : block.Ordered) (sited : block.Sited)
    (once : ∀ entry ∈ block.values, ∀ site ∈ entry.2.site, (site.flush.map Prod.fst).Nodup)
    (field : ∀ entry ∈ block.values, ∀ reg, entry.2.kind.field? = some (.control reg) → reg < 32)
    (continues : block.Continues) (retired : BitVec 32) :
    (∀ platform allocation, Allocation.Distinct platform →
      Allocation.ofBlock block platform = .ok allocation →
      ∃ code, encode block allocation retired = (code, none) ∧
        ∀ {β : Type} [Bus β] (machine : Machine β), ∃ count after,
          block.evaluate retired machine = some (count, after) ∧
          execute code machine = (.ok count, after)) ∧
    ∀ first second here there, Allocation.Distinct first → Allocation.Distinct second →
      Allocation.ofBlock block first = .ok here → Allocation.ofBlock block second = .ok there →
      ∀ {β : Type} [Bus β] (machine : Machine β),
        execute (encode block here retired).1 machine =
          execute (encode block there retired).1 machine := by
  have lowerable : block.Lowerable :=
    ⟨ordered, fun entry member site is => length_le_of_nodup (once entry member site is), field⟩
  constructor
  · intro platform allocation distinct allocated
    obtain ⟨code, encoded, implements⟩ :=
      encode_implements lowerable sited continues distinct allocated retired
    exact ⟨code, encoded, implements.executes⟩
  · intro first second here there distinct other allocated placed β _ machine
    obtain ⟨code, encoded, implements⟩ :=
      encode_implements lowerable sited continues distinct allocated retired
    obtain ⟨written, coded, same⟩ :=
      encode_implements lowerable sited continues other placed retired
    obtain ⟨count, after, evaluates, executes⟩ := implements.executes machine
    obtain ⟨retires, leaves, agrees, ends⟩ := same.executes machine
    cases evaluates.symm.trans agrees
    rw [encoded, coded, executes, ends]

/-- A block that adds three registers, and reads one of them again at its exit. -/
def summingBlock : Block :=
  let site : Ir.ExitSite :=
    { pc := 0x80001000, delaySlot := false, retired := 1
      flush := [(.general 3, 3), (.general 4, 0)] }
  ⟨#[⟨⟨.loadRegister (.general 1), none⟩, true⟩, ⟨⟨.loadRegister (.general 2), none⟩, true⟩,
    ⟨⟨.loadRegister (.general 5), none⟩, true⟩,
    ⟨⟨.binary .add 0 1, none⟩, true⟩, ⟨⟨.binary .addTrapDouble 3 2, some site⟩, true⟩,
    ⟨⟨.flushRegister (.general 3) 4, none⟩, true⟩, ⟨⟨.setExitPc 0, none⟩, true⟩]⟩

theorem summingBlock_executes :
    ∃ narrow wide, Allocation.ofBlock summingBlock Allocation.narrowPlatform = .ok narrow ∧
      narrow.spillSlots = 2 ∧
      Allocation.ofBlock summingBlock PlatformKind.x86_64.platform = .ok wide ∧
      wide.spillSlots = 0 ∧ (encode summingBlock narrow 1).2 = none ∧
      ∀ {β : Type} [Bus β] (machine : Machine β),
        execute (encode summingBlock narrow 1).1 machine =
          execute (encode summingBlock wide 1).1 machine := by
  have ordered : summingBlock.Ordered := by decide
  obtain ⟨written, same⟩ := execute_encode ordered (by decide) (by decide) (by decide)
    (Block.Continues.of_mem (by decide)) 1
  have narrow : Allocation.ofBlock summingBlock Allocation.narrowPlatform = .ok
      { placements := #[.spilled .general 0, .register .general 5, .register .general 3,
          .spilled .general 1, .register .general 5, .none, .none]
        spillSlots := 2 } := by
    decide
  have wide : Allocation.ofBlock summingBlock PlatformKind.x86_64.platform = .ok
      { placements := #[.register .general 3, .register .general 5, .register .general 12,
          .register .general 13, .register .general 5, .none, .none]
        spillSlots := 0 } := by
    decide
  obtain ⟨code, encoded, -⟩ := written _ _ Allocation.distinct_narrowPlatform narrow
  exact ⟨_, _, narrow, rfl, wide, rfl, by rw [encoded],
    same _ _ _ _ Allocation.distinct_narrowPlatform (Allocation.distinct_platform .x86_64) narrow
      wide⟩

end Backend

end MipsRecompiler.HostCode
