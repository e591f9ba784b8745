import MipsRecompiler.Proofs.Allocation.Coverage
import MipsRecompiler.Proofs.HostCode.Consumption
import MipsRecompiler.Proofs.HostCode.Refinement

/-!
# Values read back

The operations that are read from the code of a block stand for its values: one for every value in
the list but the constants in instructions, in order and with all its fields, and the end of the
block behind them.
-/

set_option autoImplicit false

namespace MipsRecompiler.HostCode

open Ir (Arguments Block BlockExit ExitSite GuestRegister Kind Routine Site ValueId)

variable {block : Block} {allocation : Allocation} {id : ValueId}

/-! ## What operations stand for -/

/-- The operand is where the allocation keeps the value. -/
inductive Locates (block : Block) (allocation : Allocation) (id : ValueId) : Operand → Prop where
  | general {reg : UInt8} (placed : allocation.get id = .register .general reg) :
      Locates block allocation id (.general reg)
  | float {reg : UInt8} (placed : allocation.get id = .register .float reg) :
      Locates block allocation id (.float reg)
  | spill {kind : Ir.RegisterClass} {slot : BitVec 16}
      (placed : allocation.get id = .spilled kind slot) : Locates block allocation id (.spill slot)
  | immediate {type : Ir.ValueType} {value : DoubleWord}
      (placed : allocation.get id = .immediate) (constant : block.kind id = .constant type value) :
      Locates block allocation id (.immediate value)

/-- The site is the one of the value, and its write-backs read as the places of what it flushes. -/
structure LocatesSite (block : Block) (allocation : Allocation) (site : ExitSite)
    (read : Site PackedFlush) : Prop where
  pc : read.pc = site.pc
  delaySlot : read.delaySlot = site.delaySlot
  retired : read.retired = site.retired
  flush : List.Forall₂
    (fun saved entry => ∃ place, entry = .ok (saved.1, place) ∧ Locates block allocation saved.2 place)
    site.flush read.flush.read

/-- The operation does what a value of this kind and with this exit site does, with the operands in
their places. The byte for the size of an access is the number of bytes: 1, 2, 4 or 8, since no
value has another size. -/
inductive Represents (block : Block) (allocation : Allocation) (id : ValueId) :
    Kind → Option ExitSite → ReadOp → Prop where
  | constant {type value target site} (stored : allocation.get id ≠ .immediate)
      (result : Locates block allocation id target) :
      Represents block allocation id (.constant type value) site (.move target (.immediate value))
  | moveClass {goal operand target source site} (result : Locates block allocation id target)
      (read : Locates block allocation operand source) :
      Represents block allocation id (.moveClass goal operand) site (.move target source)
  | loadRegister {reg target site} (result : Locates block allocation id target) :
      Represents block allocation id (.loadRegister reg) site (.loadGuest target reg)
  | flushRegister {reg operand source site} (read : Locates block allocation operand source) :
      Represents block allocation id (.flushRegister reg operand) site (.flushGuest reg source)
  | binary {op lhs rhs target left right site exit} (result : Locates block allocation id target)
      (first : Locates block allocation lhs left) (second : Locates block allocation rhs right)
      (leaves : Option.Rel (LocatesSite block allocation) site exit) :
      Represents block allocation id (.binary op lhs rhs) site (.binary op target left right exit)
  | not {operand target source site} (result : Locates block allocation id target)
      (read : Locates block allocation operand source) :
      Represents block allocation id (.not operand) site (.not target source)
  | cast {type operand target source site} (result : Locates block allocation id target)
      (read : Locates block allocation operand source) :
      Represents block allocation id (.cast type operand) site (.cast type target source)
  | shift {op width operand amount target left right site}
      (result : Locates block allocation id target) (first : Locates block allocation operand left)
      (second : Locates block allocation amount right) :
      Represents block allocation id (.shift op width operand amount) site
        (.shift op width target left right)
  | check {mode lhs rhs target left right site} (result : Locates block allocation id target)
      (first : Locates block allocation lhs left) (second : Locates block allocation rhs right) :
      Represents block allocation id (.check mode lhs rhs) site (.check mode target left right)
  | translate {address access size bytes target source site exit}
      (unit : AccessSize.ofBytes? bytes.toNat = some size)
      (result : Locates block allocation id target) (read : Locates block allocation address source)
      (leaves : LocatesSite block allocation site exit) :
      Represents block allocation id (.translate address access size) (some site)
        (.translate access bytes target source exit)
  | load {type registerClass address target source site} (result : Locates block allocation id target)
      (read : Locates block allocation address source) :
      Represents block allocation id (.load type registerClass address) site
        (.load type target source)
  | store {size bytes address operand left right site}
      (unit : AccessSize.ofBytes? bytes.toNat = some size)
      (first : Locates block allocation address left)
      (second : Locates block allocation operand right) :
      Represents block allocation id (.store size address operand) site (.store bytes left right)
  | loadState {field target site} (result : Locates block allocation id target) :
      Represents block allocation id (.loadState field) site (.loadState field target)
  | storeState {field operand source site} (read : Locates block allocation operand source) :
      Represents block allocation id (.storeState field operand) site (.storeState field source)
  | mulDiv {op lhs rhs left right site} (first : Locates block allocation lhs left)
      (second : Locates block allocation rhs right) :
      Represents block allocation id (.mulDiv op lhs rhs) site (.mulDiv op left right)
  | setExitPc {pc source site} (read : Locates block allocation pc source) :
      Represents block allocation id (.setExitPc pc) site (.setExitPc source)
  | setExitPcIf {condition whenTrue whenFalse test yes no site}
      (first : Locates block allocation condition test) (second : Locates block allocation whenTrue yes)
      (third : Locates block allocation whenFalse no) :
      Represents block allocation id (.setExitPcIf condition whenTrue whenFalse) site
        (.setExitPcIf test yes no)
  | exitIf {condition goal test site exit} (read : Locates block allocation condition test)
      (leaves : LocatesSite block allocation site exit) :
      Represents block allocation id (.exitIf condition goal) (some site) (.exitIf test goal exit)
  | call {routine code arguments target places site exit}
      (named : RoutineCode.routine? code = some routine)
      (results : target.isSome = routine.hasResult)
      (result : ∀ place ∈ target, Locates block allocation id place)
      (passed : List.Forall₂ (Locates block allocation) arguments.toList places.toList)
      (leaves : Option.Rel (LocatesSite block allocation) site exit) :
      Represents block allocation id (.call routine arguments) site (.call code target places exit)
  | floatBinary {op format lhs rhs target left right site}
      (result : Locates block allocation id target) (first : Locates block allocation lhs left)
      (second : Locates block allocation rhs right) :
      Represents block allocation id (.floatBinary op format lhs rhs) site
        (.floatBinary op format target left right)
  | floatUnary {op format operand target source site} (result : Locates block allocation id target)
      (read : Locates block allocation operand source) :
      Represents block allocation id (.floatUnary op format operand) site
        (.floatUnary op format target source)
  | floatConvert {origin goal mode operand target source site}
      (result : Locates block allocation id target) (read : Locates block allocation operand source) :
      Represents block allocation id (.floatConvert origin goal mode operand) site
        (.floatConvert origin goal mode target source)
  | floatCompare {condition format lhs rhs left right site}
      (first : Locates block allocation lhs left) (second : Locates block allocation rhs right) :
      Represents block allocation id (.floatCompare condition format lhs rhs) site
        (.floatCompare condition format left right)

/-- The value has no operation: it is a constant, and stands in the instructions that use it. -/
def isInInstructions (block : Block) (allocation : Allocation) (id : ValueId) : Bool :=
  (block.kind id).constant?.isSome && allocation.get id == .immediate

/-! ## The operation of a value -/

theorem locates_of_operandOf {place : Operand} (placed : operandOf block allocation id = .ok place) :
    Locates block allocation id place := by
  have got := get_of_operandOf placed
  cases place with
  | general reg => exact .general got
  | float reg => exact .float got
  | spill slot =>
      obtain ⟨kind, got⟩ := got
      exact .spill got
  | immediate value =>
      obtain ⟨immediate, constant⟩ := got
      cases kind : block.kind id with
      | constant type known =>
          rw [kind] at constant
          cases constant
          exact .immediate immediate kind
      | _ =>
          rw [kind] at constant
          cases constant

theorem locates_of_targetOf {place : Operand} (placed : targetOf block allocation id = .ok place) :
    Locates block allocation id place :=
  locates_of_operandOf (targetOf_eq_ok placed).1

theorem forall₂_of_map_eq_map {α γ τ : Type} {first : α → τ} {second : γ → τ} {values : List α}
    {others : List γ} (same : values.map first = others.map second) :
    List.Forall₂ (fun value other => first value = second other) values others := by
  have equal : List.Forall₂ (· = ·) (values.map first) (others.map second) := by
    rw [same]
    exact List.forall₂_refl _
  rwa [List.forall₂_map_left_iff, List.forall₂_map_right_iff] at equal

theorem locatesSite_of_reads {site : ExitSite} {read : Site PackedFlush}
    (reads : SiteReads (pendingSite block allocation site) read) :
    LocatesSite block allocation site read := by
  obtain ⟨entries, pending, back⟩ := reads.flush
  refine ⟨reads.pc, reads.delaySlot, reads.retired, ?_⟩
  rw [back, List.forall₂_map_right_iff]
  apply (forall₂_of_map_eq_map pending).imp
  rintro ⟨reg, saved⟩ ⟨other, place⟩ same
  injection same with same placed
  exact ⟨place, by rw [same], locates_of_operandOf placed⟩

theorem locatesSite_of_optional {site : Option ExitSite} {read : Option (Site PackedFlush)}
    (reads : Option.Rel SiteReads (site.map (pendingSite block allocation)) read) :
    Option.Rel (LocatesSite block allocation) site read := by
  cases site with
  | none =>
      cases reads
      exact .none
  | some site =>
      cases reads with
      | some reads => exact .some (locatesSite_of_reads reads)

theorem locates_of_pendingArguments {arguments : Arguments ValueId} {places : Arguments Operand}
    (same : (pendingArguments block allocation arguments).toList = places.toList.map .ok) :
    List.Forall₂ (Locates block allocation) arguments.toList places.toList := by
  have pending : (pendingArguments block allocation arguments).toList =
      arguments.toList.map (operandOf block allocation) := by
    cases arguments <;> rfl
  rw [pending] at same
  exact (forall₂_of_map_eq_map same).imp fun _ _ placed => locates_of_operandOf placed

theorem represents_of_lower {op : PendingOp} {read : ReadOp}
    (lowered : lower block allocation id = .ok (some op)) (reads : OpReads op read) :
    Represents block allocation id (block.kind id) (block.value id).site read := by
  have lowers := lowers_of_lower lowered
  rw [Block.kind]
  generalize (block.value id).kind = kind, (block.value id).site = site at lowers ⊢
  cases lowers with
  | constant stored placed =>
      cases reads with
      | move same =>
          cases same
          exact .constant stored (locates_of_targetOf placed)
  | moveClass placed =>
      cases reads with
      | move same => exact .moveClass (locates_of_targetOf placed) (locates_of_operandOf same)
  | loadRegister placed =>
      cases reads
      exact .loadRegister (locates_of_targetOf placed)
  | flushRegister =>
      cases reads with
      | flushGuest same => exact .flushRegister (locates_of_operandOf same)
  | binary placed =>
      cases reads with
      | binary one two exit =>
          exact .binary (locates_of_targetOf placed) (locates_of_operandOf one)
            (locates_of_operandOf two) (locatesSite_of_optional exit)
  | not placed =>
      cases reads with
      | not same => exact .not (locates_of_targetOf placed) (locates_of_operandOf same)
  | cast placed =>
      cases reads with
      | cast same => exact .cast (locates_of_targetOf placed) (locates_of_operandOf same)
  | shift placed =>
      cases reads with
      | shift one two =>
          exact .shift (locates_of_targetOf placed) (locates_of_operandOf one)
            (locates_of_operandOf two)
  | check placed =>
      cases reads with
      | check one two =>
          exact .check (locates_of_targetOf placed) (locates_of_operandOf one)
            (locates_of_operandOf two)
  | @translate address access size target site placed =>
      cases reads with
      | translate same exit =>
          exact .translate (ofBytes?_toUInt8 size) (locates_of_targetOf placed)
            (locates_of_operandOf same) (locatesSite_of_reads exit)
  | load placed =>
      cases reads with
      | load same => exact .load (locates_of_targetOf placed) (locates_of_operandOf same)
  | @store size =>
      cases reads with
      | store one two =>
          exact .store (ofBytes?_toUInt8 size) (locates_of_operandOf one)
            (locates_of_operandOf two)
  | loadState placed =>
      cases reads
      exact .loadState (locates_of_targetOf placed)
  | storeState =>
      cases reads with
      | storeState same => exact .storeState (locates_of_operandOf same)
  | mulDiv =>
      cases reads with
      | mulDiv one two => exact .mulDiv (locates_of_operandOf one) (locates_of_operandOf two)
  | setExitPc =>
      cases reads with
      | setExitPc same => exact .setExitPc (locates_of_operandOf same)
  | setExitPcIf =>
      cases reads with
      | setExitPcIf one two three =>
          exact .setExitPcIf (locates_of_operandOf one) (locates_of_operandOf two)
            (locates_of_operandOf three)
  | exitIf =>
      cases reads with
      | exitIf same exit => exact .exitIf (locates_of_operandOf same) (locatesSite_of_reads exit)
  | @call routine arguments site result has placed =>
      cases reads with
      | call same exit =>
          exact .call (RoutineCode.routine?_ofRoutine routine) has
            (fun place mine => locates_of_targetOf (placed place mine))
            (locates_of_pendingArguments same) (locatesSite_of_optional exit)
  | floatBinary placed =>
      cases reads with
      | floatBinary one two =>
          exact .floatBinary (locates_of_targetOf placed) (locates_of_operandOf one)
            (locates_of_operandOf two)
  | floatUnary placed =>
      cases reads with
      | floatUnary same =>
          exact .floatUnary (locates_of_targetOf placed) (locates_of_operandOf same)
  | floatConvert placed =>
      cases reads with
      | floatConvert same =>
          exact .floatConvert (locates_of_targetOf placed) (locates_of_operandOf same)
  | floatCompare =>
      cases reads with
      | floatCompare one two =>
          exact .floatCompare (locates_of_operandOf one) (locates_of_operandOf two)

/-! ## Whole blocks -/

theorem operation?_eq_none_iff (complete : ∃ op, lower block allocation id = .ok op) :
    operation? block allocation id = none ↔ isInInstructions block allocation id = true := by
  obtain ⟨op, lowered⟩ := complete
  simp only [operation?, lowered, isInInstructions, Bool.and_eq_true, beq_iff_eq]
  constructor
  · rintro rfl
    obtain ⟨immediate, type, value, constant⟩ := constant_of_lower lowered
    exact ⟨by rw [constant]; rfl, immediate⟩
  · rintro ⟨constant, immediate⟩
    have lowers := lowers_of_lower lowered
    rw [Block.kind] at constant
    generalize (block.value id).kind = kind, (block.value id).site = site at lowers constant
    cases lowers with
    | skipped _ => rfl
    | constant stored placed => exact absurd immediate stored
    | _ => cases constant

/-- The operations that are read for the values of a block stand for those values, in order. -/
theorem represents_of_reads {ids : List ValueId} {reads : List ReadOp}
    (complete : ∀ id ∈ ids, ∃ op, lower block allocation id = .ok op)
    (same : List.Forall₂ OpReads (ids.filterMap (operation? block allocation)) reads) :
    List.Forall₂ (fun id op => Represents block allocation id (block.kind id)
        (block.value id).site op)
      (ids.filter fun id => !isInInstructions block allocation id) reads := by
  induction ids generalizing reads with
  | nil =>
      cases same
      exact .nil
  | cons id ids ih =>
      obtain ⟨here, others⟩ := List.forall_mem_cons.mp complete
      have none_iff := operation?_eq_none_iff here
      cases has : operation? block allocation id with
      | none =>
          rw [List.filterMap_cons_none has] at same
          rw [List.filter_cons_of_neg (by simpa using none_iff.mp has)]
          exact ih others same
      | some op =>
          rw [List.filterMap_cons_some has] at same
          have written : isInInstructions block allocation id = false := by
            cases inside : isInInstructions block allocation id with
            | true => rw [none_iff.mpr inside] at has; cases has
            | false => rfl
          rw [List.filter_cons_of_pos (by simpa using written)]
          cases same with
          | cons first rest =>
              obtain ⟨lowers, lowered⟩ := here
              simp only [operation?, lowered] at has
              exact .cons (represents_of_lower (by rw [lowered, has]) first) (ih others rest)

/-- The code reads as operations that stand for the values of the block. -/
structure ReadsBack (block : Block) (allocation : Allocation) (retired : BitVec 32)
    (code : List UInt8) (ops : List ReadOp) : Prop where
  /-- Every value has its operation, in order, but the constants in instructions. -/
  values : List.Forall₂
    (fun id op => Represents block allocation id (block.kind id) (block.value id).site op)
    (block.ids.filter fun id => !isInInstructions block allocation id) ops
  /-- The operations and the end of the block take all bytes behind the number of spill slots. -/
  takes : Takes ⟨2, code.drop 2⟩ (ops ++ [.finish retired]) ⟨code.length, []⟩
  program : ∃ program, Program.read code = .ok program ∧
    program.spillSlots = allocation.spillSlots ∧
    program.items.map Item.op = (ops ++ [HostOp.finish retired]).map .ok

/-- The code ends in the middle of its header or of an operation, and reading it ends there. -/
def IsCut (ops : List ReadOp) (code : List UInt8) : Prop :=
  (∃ corrupt, Program.read code = .error corrupt) ∨
    ∃ program before corrupt, Program.read code = .ok program ∧ before <+: ops ∧
      (∀ op ∈ before, op.isFinish = false) ∧
      program.items.map Item.op = before.map .ok ++ [.error corrupt]

theorem Program.read_short {code : List UInt8} (short : code.length < 2) :
    ∃ corrupt, Program.read code = .error corrupt := by
  match code with
  | [] => exact ⟨_, rfl⟩
  | [_] => exact ⟨_, rfl⟩
  | _ :: _ :: rest =>
      simp only [List.length_cons] at short
      omega

theorem Represents.isFinish {kind : Kind} {site : Option ExitSite} {op : ReadOp}
    (represents : Represents block allocation id kind site op) : op.isFinish = false := by
  cases represents <;> rfl

theorem isFinish_of_represents {ids : List ValueId} {ops : List ReadOp}
    (values : List.Forall₂
      (fun id op => Represents block allocation id (block.kind id) (block.value id).site op)
      ids ops) : ∀ op ∈ ops, op.isFinish = false := by
  induction values with
  | nil =>
      intro op member
      cases member
  | cons first rest ih => exact List.forall_mem_cons.mpr ⟨first.isFinish, ih⟩

theorem takes_finish {retired : BitVec 32} {bytes : List UInt8}
    (joined : joinPieces (HostOp.finish retired : PendingOp).pieces = (bytes, none))
    (offset : Nat) :
    Takes ⟨offset, bytes⟩ [.finish retired] ⟨offset + bytes.length, []⟩ := by
  have fits : (HostOp.finish retired : PendingOp).Fits :=
    ⟨by simp [HostOp.field?], by simp [HostOp.site?]⟩
  obtain ⟨read, same, reads⟩ := Restores.op fits bytes joined offset []
  rw [List.append_nil] at reads
  cases same
  exact .cons reads .nil

variable {platform : Platform} {retired : BitVec 32} {code : List UInt8}

/-- Reading undoes writing. What is written for a block reads back value by value up to its last
byte, and a part of it does not read as a whole block. This is said of blocks whose values access
1, 2, 4 or 8 bytes, as `Kind` has it: what a size byte of another value would read back as is left
open. -/
theorem readsBack_of_encode (allocated : Allocation.ofBlock block platform = .ok allocation)
    (encoded : encode block allocation retired = (code, none))
    (flush : ∀ entry ∈ block.values, ∀ site ∈ entry.2.site, site.flush.length ≤ 64)
    (field : ∀ entry ∈ block.values, ∀ reg,
      entry.2.kind.field? = some (.control reg) → reg < 32) :
    ∃ ops, ReadsBack block allocation retired code ops ∧
      ∀ count < code.length, IsCut ops (code.take count) := by
  simp only [encode, List.cons_append, joinPieces_cons] at encoded
  obtain ⟨_, body, header, joined, rfl⟩ := encoded
  cases header
  obtain ⟨middle, finish, written, last, rfl⟩ := joinPieces_append.mp joined
  obtain ⟨complete, same⟩ := valuePieces_complete written
  rw [same] at written
  have slots : (BitVec.ofNat 16 allocation.spillSlots).toNat = allocation.spillSlots := by
    have limit := Allocation.ofBlock_spillSlots_le allocated
    rw [BitVec.toNat_ofNat]
    exact Nat.mod_eq_of_lt (by simp only [Allocation.maxSpillSlots] at limit; omega)
  have whole := Program.read_header (BitVec.ofNat 16 allocation.spillSlots)
  rw [slots] at whole
  have fits : ∀ op ∈ block.ids.filterMap (operation? block allocation), op.Fits := by
    intro op member
    obtain ⟨id, listed, mine⟩ := List.mem_filterMap.mp member
    obtain ⟨lowered, same⟩ := complete id listed
    simp only [operation?, same] at mine
    have member := Block.value_mem (Block.mem_ids.mp listed)
    exact (fits_of_lower (by rw [same, mine]) (flush _ member) (field _ member)).1
  obtain ⟨ops, reads, takes⟩ := takes_of_joinPieces fits written 2 finish
  have values := represents_of_reads complete reads
  have goesOn := isFinish_of_represents values
  have takes := takes.append (takes_finish last (2 + middle.length))
  have header := Reads.littleEndian_length 2 allocation.spillSlots
  refine ⟨ops, ⟨values, ?_, ⟨_, whole _, rfl, ?_⟩⟩, fun count short => ?_⟩
  · rw [List.drop_left' header, List.length_append, List.length_append, header, ← Nat.add_assoc]
    exact takes
  · exact readItems_of_takes goesOn takes (by simp only [List.length_append]; omega)
  · by_cases headed : count < 2
    · exact .inl (Program.read_short (by rw [List.length_take]; omega))
    · obtain ⟨more, rfl⟩ := Nat.exists_eq_add_of_le (Nat.le_of_not_lt headed)
      have taken : (littleEndian 2 allocation.spillSlots ++ (middle ++ finish)).take (2 + more) =
          littleEndian 2 allocation.spillSlots ++ (middle ++ finish).take more := by
        rw [List.take_append, header, Nat.add_sub_cancel_left,
          List.take_of_length_le (by rw [header]; omega)]
      rw [List.length_append, header] at short
      have missing : (middle ++ finish).drop more ≠ [] := by
        rw [Ne, List.drop_eq_nil_iff]
        omega
      rw [← List.take_append_drop more (middle ++ finish)] at takes
      obtain ⟨before, corrupt, known, items⟩ := readItems_of_cut goesOn takes rfl missing
        (Nat.lt_succ_of_le (Nat.le_add_left _ (littleEndian 2 allocation.spillSlots).length))
      rw [← List.length_append] at items
      rw [taken]
      exact .inr ⟨_, before, corrupt, whole _, known, fun op member => goesOn op (known.subset member),
        items⟩

/-- A block with two exits that write back, a routine, and a constant that needs no operation. -/
def savingBlock : Block :=
  let site : ExitSite :=
    { pc := 0x80002000, delaySlot := true, retired := 3
      flush := [(.general 2, 0), (.float 3, 1)] }
  ⟨#[⟨⟨.loadRegister (.general 1), none⟩, true⟩, ⟨⟨.constant .s32 5, none⟩, true⟩,
    ⟨⟨.binary .addTrapDouble 0 1, some site⟩, true⟩, ⟨⟨.check .eq 0 2, none⟩, true⟩,
    ⟨⟨.exitIf 3 (.branch 0x80003000), some site⟩, true⟩,
    ⟨⟨.call (.loadLeft .word) (.two 0 2), some site⟩, true⟩,
    ⟨⟨.storeState (.control 12) 5, none⟩, true⟩, ⟨⟨.setExitPc 0, none⟩, true⟩]⟩

/-- Its places on a host with registers for all of it. -/
def savingAllocation : Allocation where
  placements := #[.register .general 3, .immediate, .register .general 5, .register .general 12,
    .none, .register .general 12, .none, .none]
  spillSlots := 0

theorem savingBlock_readsBack :
    Allocation.ofBlock savingBlock PlatformKind.x86_64.platform = .ok savingAllocation ∧
      (encode savingBlock savingAllocation 7).2 = none ∧
      ∃ ops, ReadsBack savingBlock savingAllocation 7 (encode savingBlock savingAllocation 7).1 ops ∧
        ops.length = 7 ∧
        ∀ count < (encode savingBlock savingAllocation 7).1.length,
          IsCut ops ((encode savingBlock savingAllocation 7).1.take count) := by
  have allocated : Allocation.ofBlock savingBlock PlatformKind.x86_64.platform =
      .ok savingAllocation := by decide
  have written : (encode savingBlock savingAllocation 7).2 = none := by decide
  obtain ⟨ops, reads, cut⟩ :=
    readsBack_of_encode allocated (Prod.ext rfl written) (by decide) (by decide)
  have values := reads.values.length_eq
  exact ⟨allocated, written, ops, reads, values.symm.trans (by decide), cut⟩

end MipsRecompiler.HostCode
