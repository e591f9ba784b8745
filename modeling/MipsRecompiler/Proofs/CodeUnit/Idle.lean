import MipsRecompiler.Proofs.Compilation

/-!
# Idle loops

A branch or jump to itself with nothing in its delay slot. The block of such a unit computes a few
constants and continues where it started, so its code can be run on any machine, and any number of
times, without a trace.
-/

set_option autoImplicit false

namespace MipsRecompiler

open Ir (Evaluation Outcome Value ValueType)
open Emission (Emit Place Progress)

/-! ## The two instructions -/

/-- A branch that is always taken, or a jump, to its own address. -/
inductive UnitInstruction.Stays (entry : UnitInstruction) : Prop where
  | branch : entry.inst = ⟨0x1000ffff⟩ → entry.form = .branchTwo →
      entry.operation = .branch .eq → entry.Stays
  | jump : entry.operation = .jump → entry.inst.jumpTarget entry.pc = entry.pc → entry.Stays

structure UnitInstruction.DoesNothing (entry : UnitInstruction) : Prop where
  inst : entry.inst = ⟨0⟩
  form : entry.form = .shiftImmediate 0
  operation : entry.operation = .shift .left .word

theorem Instruction.branchTarget_back (pc : DoubleWord) :
    Instruction.branchTarget ⟨0x1000ffff⟩ pc = pc := by
  have back : Instruction.signedImmediate ⟨0x1000ffff⟩ <<< 2 = (-4 : DoubleWord) := by decide
  rw [Instruction.branchTarget, back, BitVec.add_assoc]
  exact BitVec.add_zero pc

private theorem legal_of_word {entry : UnitInstruction} {word : Word} {form : Form}
    {operation : Operation}
    (classifies : entry.inst.classify entry.pc = .ok (entry.form, entry.operation, entry.category))
    (is : entry.inst = ⟨word⟩)
    (decodes : ∀ pc, Instruction.legal ⟨word⟩ pc = .ok (form, operation)) :
    entry.form = form ∧ entry.operation = operation := by
  obtain ⟨legal, -⟩ := CodeUnit.classify_ok classifies
  rw [is, decodes] at legal
  cases legal
  exact ⟨rfl, rfl⟩

namespace CodeUnit

variable {β : Type} [Bus β] {tlb : Tlb} {control : SystemControl} {startPc : DoubleWord}
  {startPhysical : Word} {bus after : β} {codeUnit : CodeUnit}

/-- What an idle loop is made of, wherever it starts and whatever the bus does. -/
theorem form_idle (forms : form tlb control startPc startPhysical bus = .ok codeUnit after)
    (idle : codeUnit.isIdleLoop = true) :
    ∃ branch slot, codeUnit.instructions = [branch, slot] ∧ codeUnit.delaySlotFault = none ∧
      branch.pc = startPc ∧ branch.Stays ∧ slot.DoesNothing := by
  unfold isIdleLoop at idle
  split at idle
  case h_2 => cases idle
  case h_1 branch slot pair =>
  have classified := form_classified forms
  have lined := form_lined forms
  rw [pair] at classified lined
  obtain ⟨first, rest⟩ := List.forall_mem_cons.mp classified
  obtain ⟨second, -⟩ := List.forall_mem_cons.mp rest
  simp only [Bool.and_eq_true, Bool.or_eq_true, beq_iff_eq] at idle
  obtain ⟨empty, stays⟩ := idle
  have nothing : slot.inst = ⟨0⟩ := congrArg Instruction.mk empty
  obtain ⟨form, operation⟩ := legal_of_word second nothing fun _ => rfl
  refine ⟨branch, slot, pair, ?_, lined.2.1.trans (BitVec.add_zero _), ?_, nothing, form,
    operation⟩
  · -- Only a unit that ends with a branch can miss a delay slot, and this one ends with a shift.
    refine Option.not_isSome_iff_eq_none.mp fun missing => ?_
    obtain ⟨last, before, same, branches⟩ := form_missing forms missing
    rw [pair] at same
    cases same
    rw [(classify_ok second).2, nothing, form, operation] at branches
    cases branches
  · rcases stays with word | ⟨jumps, target⟩
    · have same : branch.inst = ⟨0x1000ffff⟩ := congrArg Instruction.mk word
      obtain ⟨form, operation⟩ := legal_of_word first same fun _ => rfl
      exact .branch same form operation
    · exact .jump jumps target

end CodeUnit

/-! ## Their values -/

namespace Emission

variable {place : Place} {progress : Progress}

private theorem then_ok {α τ : Type} {emit : Emit α} {rest : α → Emit τ} {value : α}
    {next : Progress} (emits : emit place progress = .ok value next) :
    (emit >>= rest) place progress = rest value place next := by
  simp only [bind, ReaderT.bind, EStateM.bind, emits]

private theorem push_ok (kind : Ir.Kind) :
    push kind place progress =
      .ok progress.draft.block.bound (progress.append ⟨kind, none⟩) := rfl

private theorem check_ok (mode : Comparison) (lhs rhs : Ir.ValueId) :
    check mode lhs rhs place progress =
      .ok progress.draft.block.bound (progress.append ⟨.check mode lhs rhs, none⟩) := rfl

private theorem constant_ok (type : ValueType) (value : DoubleWord) :
    constant type value place progress =
      .ok progress.draft.block.bound (progress.append ⟨.constant type (type.cast value), none⟩) :=
  rfl

private theorem theInstruction_ok :
    theInstruction place progress = .ok place.entry.inst progress := rfl

private theorem gpr_zero : gpr 0 = constant .u64 0 := rfl

private theorem setGpr_zero (id : Ir.ValueId) : setGpr 0 id = pure () := by
  funext place progress
  rfl

private theorem emitInstruction_integer (noFloat : place.entry.operation.usesFloat = false) :
    emitInstruction place progress =
      emitOperation place.entry.inst place.entry.form place.entry.operation place progress := by
  have reads : (read : Emit Place) place progress = .ok place progress := rfl
  rw [emitInstruction, then_ok reads]
  simp only [noFloat]
  rfl

def Progress.idled (progress : Progress) : Progress :=
  let amount := progress.append ⟨.constant .u8 0, none⟩
  let both := amount.append ⟨.constant .u64 0, none⟩
  both.append ⟨.shift .left .word amount.draft.block.bound progress.draft.block.bound, none⟩

def Progress.jumped (progress : Progress) (target : DoubleWord) : Progress :=
  let last := progress.append ⟨.constant .u64 (ValueType.u64.cast target), none⟩
  { last.append ⟨.setExitPc progress.draft.block.bound, none⟩ with exitPcSet := true }

def Progress.branched (progress : Progress) (taken skipped : DoubleWord) : Progress :=
  let lhs := progress.append ⟨.constant .u64 0, none⟩
  let rhs := lhs.append ⟨.constant .u64 0, none⟩
  let holds := rhs.append ⟨.check .eq progress.draft.block.bound lhs.draft.block.bound, none⟩
  let target := holds.append ⟨.constant .u64 (ValueType.u64.cast taken), none⟩
  let behind := target.append ⟨.constant .u64 (ValueType.u64.cast skipped), none⟩
  { behind.append ⟨.setExitPcIf rhs.draft.block.bound holds.draft.block.bound
      target.draft.block.bound, none⟩ with exitPcSet := true }

theorem emitInstruction_doesNothing (nothing : place.entry.DoesNothing) :
    emitInstruction place progress = .ok () progress.idled := by
  obtain ⟨inst, form, operation⟩ := nothing
  have rt : Instruction.rt ⟨0⟩ = 0 := by decide
  have rd : Instruction.rd ⟨0⟩ = 0 := by decide
  rw [emitInstruction_integer (by rw [operation]; rfl), form, operation]
  simp only [emitOperation]
  unfold shift
  rw [then_ok theInstruction_ok, inst, rt, rd, gpr_zero]
  dsimp only
  rw [then_ok (constant_ok _ _), then_ok (constant_ok _ _), then_ok (push_ok _), setGpr_zero]
  rfl

theorem emitInstruction_jump (jumps : place.entry.operation = .jump) :
    emitInstruction place progress =
      .ok () (progress.jumped (place.entry.inst.jumpTarget place.entry.pc)) := by
  rw [emitInstruction_integer (by rw [jumps]; rfl), jumps]
  rfl

theorem emitInstruction_branch (inst : place.entry.inst = ⟨0x1000ffff⟩)
    (form : place.entry.form = .branchTwo) (operation : place.entry.operation = .branch .eq) :
    emitInstruction place progress =
      .ok () (progress.branched (place.entry.inst.branchTarget place.entry.pc)
        (place.entry.pc + 8)) := by
  have rs : Instruction.rs ⟨0x1000ffff⟩ = 0 := by decide
  have rt : Instruction.rt ⟨0x1000ffff⟩ = 0 := by decide
  rw [emitInstruction_integer (by rw [operation]; rfl), form, operation]
  simp only [emitOperation, decide_true]
  unfold branch
  rw [then_ok theInstruction_ok, inst, rs, rt, gpr_zero, then_ok (constant_ok _ _), if_pos rfl,
    then_ok (constant_ok _ _)]
  dsimp only
  rw [then_ok (check_ok _ _ _), ← inst]
  rfl

/-! ## What they come to -/

variable {γ : Type} [Bus γ] {start : Machine γ} {exit : Option DoubleWord}

def Knows (cells : Ir.ValueId → DoubleWord) (known : List (Ir.ValueId × DoubleWord)) : Prop :=
  ∀ fact ∈ known, cells fact.1 = fact.2

/-- What was emitted leaves the machine alone and says where the guest continues. Some results are
known, and no register was given another value. -/
structure Rests (start : Machine γ) (progress : Progress) (known : List (Ir.ValueId × DoubleWord))
    (exit : Option DoubleWord) : Prop where
  unbound : ∀ reg, progress.draft.binding? reg = none
  exitSet : progress.exitPcSet = exit.isSome
  older : ∀ fact ∈ known, fact.1 < progress.draft.block.bound
  runs : ∃ cells, progress.run start = .next { cells, exitPc := exit, machine := start } ∧
    Knows cells known

namespace Rests

variable {known : List (Ir.ValueId × DoubleWord)}

theorem empty (start : Machine γ) : Rests start .empty [] none where
  unbound _ := by simp [Progress.empty, Ir.Draft.binding?, Ir.Draft.empty]
  exitSet := rfl
  older := nofun
  runs := ⟨fun _ => 0, rfl, nofun⟩

theorem compute (rests : Rests start progress known exit) (value : Value) (result : DoubleWord)
    (computes : ∀ cells cpu, Knows cells known → value.kind.compute? cells cpu = some result) :
    Rests start (progress.append value) ((progress.draft.block.bound, result) :: known) exit where
  unbound := rests.unbound
  exitSet := rests.exitSet
  older := by
    have next : progress.draft.block.bound < (progress.append value).draft.block.bound := by
      rw [append_draft_block, Ir.Block.bound_push]
      exact Nat.lt_succ_self _
    exact List.forall_mem_cons.mpr ⟨next, fun fact member => (rests.older fact member).trans next⟩
  runs := by
    obtain ⟨cells, reaches, knows⟩ := rests.runs
    refine ⟨_, (run_append _ _ _).trans ?_, List.forall_mem_cons.mpr
      ⟨Evaluation.define_cells_self ⟨cells, exit, start⟩ _ result, fun fact member => ?_⟩⟩
    · rw [reaches]
      simp only [Outcome.andThen, Value.evaluate, computes cells start.cpu knows]
      rfl
    · rw [Evaluation.define_cells_of_ne _ _ (Nat.ne_of_lt (rests.older fact member))]
      exact knows fact member

theorem leadTo (rests : Rests start progress known exit) (value : Value) (target : DoubleWord)
    (leads : ∀ state : Evaluation γ, Knows state.cells known →
      value.evaluate progress.draft.block.bound state =
        .next { state with exitPc := some target }) :
    Rests start { progress.append value with exitPcSet := true } known (some target) where
  unbound := rests.unbound
  exitSet := rfl
  older fact member := by
    have older := rests.older fact member
    exact older.trans_le (by simp)
  runs := by
    obtain ⟨cells, reaches, knows⟩ := rests.runs
    refine ⟨cells, (run_append _ _ _).trans ?_, knows⟩
    rw [reaches]
    exact leads ⟨cells, exit, start⟩ knows

theorem idled (rests : Rests start progress known exit) :
    ∃ more, Rests start progress.idled more exit := by
  have amount := rests.compute ⟨.constant .u8 0, none⟩ 0 fun _ _ _ => rfl
  have both := amount.compute ⟨.constant .u64 0, none⟩ 0 fun _ _ _ => rfl
  refine ⟨_, both.compute _ 0 fun cells _ knows => ?_⟩
  have zero := knows _ List.mem_cons_self
  have none := knows _ (List.mem_cons_of_mem _ List.mem_cons_self)
  simp only at zero none
  rw [Ir.Kind.compute?, zero, none]
  rfl

private theorem cast_u64 (value : DoubleWord) : ValueType.u64.cast value = value := by
  simp [ValueType.cast, ValueType.isSigned, ValueType.size, AccessSize.bits, AccessSize.bytes]

theorem jumped (rests : Rests start progress known exit) (target : DoubleWord) :
    ∃ more, Rests start (progress.jumped target) more (some target) := by
  have last := rests.compute ⟨.constant .u64 (ValueType.u64.cast target), none⟩ target
    fun _ _ _ => congrArg some (cast_u64 target)
  refine ⟨_, last.leadTo _ target fun state knows => ?_⟩
  have is := knows _ List.mem_cons_self
  simp only at is
  rw [Value.evaluate]
  simp only [Ir.Kind.compute?, is]

theorem branched (rests : Rests start progress known exit) (taken skipped : DoubleWord) :
    ∃ more, Rests start (progress.branched taken skipped) more (some taken) := by
  have lhs := rests.compute ⟨.constant .u64 0, none⟩ 0 fun _ _ _ => rfl
  have rhs := lhs.compute ⟨.constant .u64 0, none⟩ 0 fun _ _ _ => rfl
  have holds := rhs.compute
    ⟨.check .eq progress.draft.block.bound (progress.append _).draft.block.bound, none⟩ 1 (by
      intro cells _ knows
      have two := knows _ List.mem_cons_self
      have one := knows _ (List.mem_cons_of_mem _ List.mem_cons_self)
      simp only at one two
      rw [Ir.Kind.compute?, one, two]
      rfl)
  have target := holds.compute ⟨.constant .u64 (ValueType.u64.cast taken), none⟩ taken
    fun _ _ _ => congrArg some (cast_u64 taken)
  have behind := target.compute ⟨.constant .u64 (ValueType.u64.cast skipped), none⟩ skipped
    fun _ _ _ => congrArg some (cast_u64 skipped)
  -- Nothing that was emitted since has changed what the comparison gave.
  refine ⟨_, behind.leadTo _ taken fun state knows => ?_⟩
  have is := knows _ (List.mem_cons_of_mem _ List.mem_cons_self)
  have one := knows _ (List.mem_cons_of_mem _ (List.mem_cons_of_mem _ List.mem_cons_self))
  simp only at is one
  rw [Value.evaluate]
  simp only [Ir.Kind.compute?, one]
  rw [if_pos (by decide : (1 : DoubleWord) ≠ 0), is]

theorem empty_flushList (rests : Rests start progress known exit) :
    progress.draft.flushList = [] := by
  refine List.eq_nil_iff_forall_not_mem.mpr fun entry member => ?_
  have binding := (mem_flushList.mp member).1
  rw [rests.unbound] at binding
  cases binding

/-- A block that rests continues where it said, and nothing else happens to the machine. -/
theorem evaluate {target endPc : DoubleWord} (rests : Rests start progress known (some target))
    (retired : BitVec 32) :
    (finish endPc progress).block.evaluate retired start =
      some (retired, start.mapCpu fun cpu => { cpu with pc := target }) := by
  have finished : finish endPc progress = progress.draft := by
    simp only [finish, rests.empty_flushList, List.foldl_nil, rests.exitSet, Option.isSome_some,
      if_true]
  obtain ⟨cells, reaches, -⟩ := rests.runs
  rw [Progress.run] at reaches
  simp only [finished, Ir.Block.evaluate, reaches, Option.map_some]

end Rests

theorem Rests.emitted {known : List (Ir.ValueId × DoubleWord)} {next : Progress}
    (rests : Rests start progress known exit) (stays : place.entry.Stays)
    (emits : emitInstruction place progress = .ok () next) :
    ∃ more, Rests start next more (some place.entry.pc) := by
  cases stays with
  | branch inst form operation =>
      rw [emitInstruction_branch inst form operation, inst, Instruction.branchTarget_back] at emits
      cases emits
      exact rests.branched _ _
  | jump jumps target =>
      rw [emitInstruction_jump jumps, target] at emits
      cases emits
      exact rests.jumped _

end Emission

/-! ## Running an idle loop -/

namespace CodeUnit

variable {β γ : Type} [Bus β] [Bus γ] {tlb : Tlb} {control : SystemControl} {startPc : DoubleWord}
  {startPhysical : Word} {bus after : β} {codeUnit : CodeUnit} {configuration : Configuration}

/-- The block of an idle loop counts its two instructions and leaves a machine as it was. -/
theorem idle_evaluates (forms : form tlb control startPc startPhysical bus = .ok codeUnit after)
    (idle : codeUnit.isIdleLoop = true) {block : Ir.Block}
    (emits : codeUnit.emit configuration = .ok block) {machine : Machine γ}
    (stands : machine.cpu.pc = startPc) : block.evaluate 2 machine = some (2, machine) := by
  obtain ⟨branch, slot, pair, fault, starts, stays, nothing⟩ := form_idle forms idle
  obtain ⟨final, emitted, rfl⟩ := emit_ok (by rw [pair]; exact List.cons_ne_nil _ _) emits
  rw [pair, fault] at emitted
  obtain ⟨middle, first, ⟨-, rest⟩ | ⟨_, -, missing, -⟩⟩ := Emission.emitAll_cons emitted
  · obtain ⟨last, second, ⟨-, nil⟩ | ⟨_, -, missing, -⟩⟩ := Emission.emitAll_cons rest
    · cases nil
      obtain ⟨known, rests⟩ := (Emission.Rests.empty machine).emitted stays first
      rw [Emission.emitInstruction_doesNothing nothing] at second
      cases second
      obtain ⟨more, rested⟩ := rests.idled
      rw [rested.evaluate, starts, ← stands]
      rfl
    · cases missing
  · cases missing

/-- Running the code of an idle loop leaves every machine as it was that stands at its start. -/
theorem idle_executes (forms : form tlb control startPc startPhysical bus = .ok codeUnit after)
    {kind : PlatformKind} {compilation : Compilation}
    (compiles : codeUnit.compile configuration kind.platform = .ok compilation)
    (idle : codeUnit.isIdleLoop = true) {machine : Machine γ} (stands : machine.cpu.pc = startPc) :
    HostCode.execute compilation.code machine = (.ok 2, machine) := by
  obtain ⟨block, emits, refines⟩ := compile_refines (β := γ) compiles
  obtain ⟨branch, slot, pair, -⟩ := form_idle forms idle
  have counts : BitVec.ofNat 32 codeUnit.length = 2 := by rw [length, pair]; rfl
  rw [counts] at refines
  exact (refines (form_wellFormed forms emits) machine).1 _ _
    (idle_evaluates forms idle emits stands)

end CodeUnit

/-- Runs code a number of times. Gives what each run came to, and the machine afterwards. -/
def HostCode.executeTimes {γ : Type} [Bus γ] (code : List UInt8) :
    Nat → Machine γ → List (Except CorruptBlock (BitVec 32)) × Machine γ
  | 0, machine => ([], machine)
  | times + 1, machine =>
    let (outcome, next) := execute code machine
    let (outcomes, last) := executeTimes code times next
    (outcome :: outcomes, last)

theorem HostCode.executeTimes_rests {γ : Type} [Bus γ] {code : List UInt8} {machine : Machine γ}
    {retired : BitVec 32} (rests : execute code machine = (.ok retired, machine)) (times : Nat) :
    executeTimes code times machine = (List.replicate times (.ok retired), machine) := by
  induction times with
  | zero => rfl
  | succ times ih =>
      rw [executeTimes, rests]
      simp only [ih, List.replicate_succ]

end MipsRecompiler
