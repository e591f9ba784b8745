import MipsRecompiler.CodeUnit.Formation
import MipsRecompiler.Proofs.Interpreter.Outcomes
import MipsRecompiler.Proofs.Memory.Pages
import Mathlib.Logic.Relation

/-!
# The shape of units

A unit is a chain of instructions on one page. Only its last instruction can end the unit for its
own sake, and only a branch has a delay slot behind it, which may be missing.
-/

set_option autoImplicit false

namespace MipsRecompiler

variable {β : Type} [Bus β]

/-- What some reads leave of a bus. -/
def Bus.Reads : β → β → Prop :=
  Relation.ReflTransGen fun before after => ∃ physical size, after = (Bus.read before physical size).2

/-- The instruction was fetched from a bus, and what it says is what its word means. -/
structure UnitInstruction.Fetched (entry : UnitInstruction) (bus : β) (pc : DoubleWord)
    (physical : Word) (delaySlot : Bool) : Prop where
  word : (Bus.fetch bus entry.physical).1 = entry.inst.word
  legal : entry.inst.legal entry.pc = .ok (entry.form, entry.operation)
  category : entry.category = entry.inst.categoryOf entry.form entry.operation
  pc : entry.pc = pc
  physical : entry.physical = physical
  delaySlot : entry.delaySlot = delaySlot

theorem UnitInstruction.Fetched.isBranch {entry : UnitInstruction} {bus : β} {pc : DoubleWord}
    {physical : Word} {delaySlot : Bool} (fetched : entry.Fetched bus pc physical delaySlot) :
    entry.category.isBranch = entry.operation.isBranch := by
  rw [fetched.category, Instruction.categoryOf_isBranch]

theorem UnitInstruction.Fetched.classify {entry : UnitInstruction} {bus : β} {pc : DoubleWord}
    {physical : Word} {delaySlot : Bool} (fetched : entry.Fetched bus pc physical delaySlot) :
    entry.inst.classify entry.pc = .ok (entry.form, entry.operation, entry.category) := by
  rw [Instruction.classify, fetched.legal, fetched.category]
  rfl

namespace CodeUnit

theorem endPc_succ {width : Nat} (address : BitVec width) (count : Nat) :
    address + BitVec.ofNat width (4 * (count + 1)) =
      address + 4 + BitVec.ofNat width (4 * count) := by
  rw [Nat.mul_succ, BitVec.ofNat_add, BitVec.add_assoc, BitVec.add_comm 4]
  rfl

theorem endPc_add_four {width : Nat} (address : BitVec width) (count : Nat) :
    address + BitVec.ofNat width (4 * (count + 1)) =
      address + BitVec.ofNat width (4 * count) + 4 := by
  rw [Nat.mul_succ, BitVec.ofNat_add, ← BitVec.add_assoc]
  rfl

/-- Where the instruction behind another one is fetched. Only at the end of a page, its address
has to be translated again. -/
def behind (tlb : Tlb) (control : SystemControl) (pc : DoubleWord) (physical : Word) :
    Except Fault Word :=
  if (physical + 4).toNat % pageSize ≠ 0 then .ok (physical + 4)
  else tlb.resolve control (pc + 4) .fetch

/-- Instructions that can be a unit, from an address on, and why a delay slot is missing. -/
inductive Chain (tlb : Tlb) (control : SystemControl) (bus : β) :
    DoubleWord → Word → List UnitInstruction → Option Fault → Prop where
  | last {pc : DoubleWord} {physical : Word} {entry : UnitInstruction} :
      entry.Fetched bus pc physical false → entry.category.isBranch = false →
      Chain tlb control bus pc physical [entry] none
  | next {pc : DoubleWord} {physical : Word} {entry : UnitInstruction}
      {rest : List UnitInstruction} {fault : Option Fault} :
      entry.Fetched bus pc physical false → entry.category.isBranch = false →
      entry.category ≠ .blockEnder → (physical + 4).toNat % pageSize ≠ 0 →
      Chain tlb control bus (pc + 4) (physical + 4) rest fault →
      Chain tlb control bus pc physical (entry :: rest) fault
  | slot {pc : DoubleWord} {physical target : Word} {branch slot : UnitInstruction} :
      branch.Fetched bus pc physical false → branch.category.isBranch = true →
      behind tlb control pc physical = .ok target →
      slot.Fetched bus (pc + 4) target true → slot.category.isBranch = false →
      Chain tlb control bus pc physical [branch, slot] none
  | fault {pc : DoubleWord} {physical : Word} {branch : UnitInstruction} {fault : Fault} :
      branch.Fetched bus pc physical false → branch.category.isBranch = true →
      behind tlb control pc physical = .error fault →
      Chain tlb control bus pc physical [branch] (some fault)

namespace Chain

variable {tlb : Tlb} {control : SystemControl} {bus : β} {pc : DoubleWord} {physical : Word}
  {entries : List UnitInstruction} {fault : Option Fault}

theorem nonempty (chain : Chain tlb control bus pc physical entries fault) : entries ≠ [] := by
  cases chain <;> simp

theorem fetched (chain : Chain tlb control bus pc physical entries fault) :
    ∀ entry ∈ entries, ∃ pc physical delaySlot, entry.Fetched bus pc physical delaySlot := by
  induction chain with
  | last first => exact List.forall_mem_singleton.mpr ⟨_, _, _, first⟩
  | next first _ _ _ _ ih => exact List.forall_mem_cons.mpr ⟨⟨_, _, _, first⟩, ih⟩
  | slot first _ _ second =>
      exact List.forall_mem_cons.mpr
        ⟨⟨_, _, _, first⟩, List.forall_mem_singleton.mpr ⟨_, _, _, second⟩⟩
  | fault first => exact List.forall_mem_singleton.mpr ⟨_, _, _, first⟩

theorem legal (chain : Chain tlb control bus pc physical entries fault) :
    ∀ entry ∈ entries, entry.inst.legal entry.pc = .ok (entry.form, entry.operation) := by
  intro entry member
  obtain ⟨_, _, _, fetched⟩ := chain.fetched entry member
  exact fetched.legal

end Chain

/-! ## Straight lines and what ends them -/

/-- Instructions that follow each other on one page, with one more word of the page behind each of
them, and none that ends a unit. -/
inductive StraightLine (bus : β) : DoubleWord → Word → List UnitInstruction → Prop where
  | nil {pc : DoubleWord} {physical : Word} : StraightLine bus pc physical []
  | cons {pc : DoubleWord} {physical : Word} {entry : UnitInstruction}
      {rest : List UnitInstruction} :
      entry.Fetched bus pc physical false → entry.category.isBranch = false →
      entry.category ≠ .blockEnder → (physical + 4).toNat % pageSize ≠ 0 →
      StraightLine bus (pc + 4) (physical + 4) rest →
      StraightLine bus pc physical (entry :: rest)

/-- The instructions that end a unit, why a delay slot is missing, and the page that one was
pulled from. -/
inductive Ending (tlb : Tlb) (control : SystemControl) (bus : β) (pc : DoubleWord)
    (physical : Word) : List UnitInstruction → Option Fault → Option Nat → Prop where
  | plain {entry : UnitInstruction} :
      entry.Fetched bus pc physical false → entry.category.isBranch = false →
      entry.category = .blockEnder ∨ (physical + 4).toNat % pageSize = 0 →
      Ending tlb control bus pc physical [entry] none none
  | slot {target : Word} {branch slot : UnitInstruction} :
      branch.Fetched bus pc physical false → branch.category.isBranch = true →
      behind tlb control pc physical = .ok target →
      slot.Fetched bus (pc + 4) target true → slot.category.isBranch = false →
      Ending tlb control bus pc physical [branch, slot] none
        (if (physical + 4).toNat % pageSize = 0 then some (pageOf target) else none)
  | missing {branch : UnitInstruction} {fault : Fault} :
      branch.Fetched bus pc physical false → branch.category.isBranch = true →
      behind tlb control pc physical = .error fault →
      Ending tlb control bus pc physical [branch] (some fault) none

/-- A whole unit from an address on: a straight line, and what ends it. -/
structure Outline (tlb : Tlb) (control : SystemControl) (bus : β) (pc : DoubleWord)
    (physical : Word) (front rest : List UnitInstruction) (fault : Option Fault)
    (pulled : Option Nat) : Prop where
  line : StraightLine bus pc physical front
  ending : Ending tlb control bus (pc + BitVec.ofNat 64 (4 * front.length))
    (physical + BitVec.ofNat 32 (4 * front.length)) rest fault pulled

section Outline

variable {tlb : Tlb} {control : SystemControl} {bus : β} {pc : DoubleWord} {physical : Word}
  {entry : UnitInstruction} {front rest : List UnitInstruction} {fault : Option Fault}
  {pulled : Option Nat}

theorem Ending.outline (ending : Ending tlb control bus pc physical rest fault pulled) :
    Outline tlb control bus pc physical [] rest fault pulled := by
  constructor
  · exact .nil
  · simpa using ending

theorem Outline.cons (fetched : entry.Fetched bus pc physical false)
    (plain : entry.category.isBranch = false) (inside : entry.category ≠ .blockEnder)
    (samePage : (physical + 4).toNat % pageSize ≠ 0)
    (outline : Outline tlb control bus (pc + 4) (physical + 4) front rest fault pulled) :
    Outline tlb control bus pc physical (entry :: front) rest fault pulled := by
  constructor
  · exact .cons fetched plain inside samePage outline.line
  · rw [List.length_cons, endPc_succ, endPc_succ]
    exact outline.ending

theorem Ending.chain (ending : Ending tlb control bus pc physical rest fault pulled) :
    Chain tlb control bus pc physical rest fault := by
  cases ending with
  | plain fetched plain _ => exact .last fetched plain
  | slot fetched branch found slot plain => exact .slot fetched branch found slot plain
  | missing fetched branch missing => exact .fault fetched branch missing

theorem Outline.chain (outline : Outline tlb control bus pc physical front rest fault pulled) :
    Chain tlb control bus pc physical (front ++ rest) fault := by
  obtain ⟨line, ending⟩ := outline
  induction line with
  | nil => exact Ending.chain (by simpa using ending)
  | cons fetched plain inside samePage _ ih =>
      rw [List.length_cons, endPc_succ, endPc_succ] at ending
      exact .next fetched plain inside samePage (ih ending)

theorem Ending.length_le (ending : Ending tlb control bus pc physical rest fault pulled) :
    1 ≤ rest.length ∧ rest.length ≤ 2 := by
  cases ending <;> simp

theorem toNat_add_four (physical : Word) (aligned : physical.toNat % 4 = 0) :
    (physical + 4).toNat % pageSize = (physical.toNat % pageSize + 4) % pageSize ∧
      (physical + 4).toNat % 4 = 0 := by
  have four : (4 : Word).toNat = 4 := rfl
  rw [BitVec.toNat_add, four]
  simp only [pageSize]
  omega

/-- A straight line ends on the page that it starts on. -/
theorem StraightLine.room (line : StraightLine bus pc physical front)
    (aligned : physical.toNat % 4 = 0) :
    physical.toNat % pageSize + 4 * front.length < pageSize := by
  induction line with
  | nil => exact Nat.mod_lt _ (by decide)
  | cons _ _ _ samePage _ ih =>
      obtain ⟨offset, nextAligned⟩ := toNat_add_four _ aligned
      have rest := ih nextAligned
      rw [List.length_cons]
      simp only [pageSize] at *
      omega

theorem Outline.length_le (outline : Outline tlb control bus pc physical front rest fault pulled)
    (aligned : physical.toNat % 4 = 0) : (front ++ rest).length ≤ maxLength := by
  have room := outline.line.room aligned
  have ending := outline.ending.length_le
  rw [List.length_append]
  simp only [pageSize, maxLength] at *
  omega

end Outline

section Collect

variable {tlb : Tlb} {control : SystemControl} {bus after : β} {startPc : DoubleWord}
  {startPhysical : Word} {codeUnit : CodeUnit} {collected : Collected} {remaining : Nat}

/-! ## One pass of the loop -/

theorem classify_ok {inst : Instruction} {pc : DoubleWord} {form : Form} {operation : Operation}
    {category : Category} (classifies : inst.classify pc = .ok (form, operation, category)) :
    inst.legal pc = .ok (form, operation) ∧ category = inst.categoryOf form operation := by
  unfold Instruction.classify at classifies
  cases legal : inst.legal pc with
  | error reason => simp [legal, bind, Except.bind] at classifies
  | ok pair =>
      obtain ⟨one, two⟩ := pair
      simp only [legal, bind, Except.bind, pure, Except.pure, Except.ok.injEq,
        Prod.mk.injEq] at classifies
      obtain ⟨rfl, rfl, rfl⟩ := classifies
      exact ⟨rfl, rfl⟩

def Collected.read (collected : Collected) (word : Word) :
    Except IllegalInstruction UnitInstruction :=
  match Instruction.classify ⟨word⟩ collected.pc with
  | .error reason => .error reason
  | .ok (form, operation, category) =>
    .ok { pc := collected.pc, physical := collected.physical, inst := ⟨word⟩, form, operation
          category, delaySlot := collected.inDelaySlot }

def Collected.push (collected : Collected) (entry : UnitInstruction) : Collected :=
  { collected with
    reversed := entry :: collected.reversed
    reversedWords := collected.physical :: collected.reversedWords
    pc := collected.pc + 4
    physical := collected.physical + 4
    inDelaySlot := entry.category.isBranch }

def Collected.pushBranch (collected : Collected) (branch : UnitInstruction) (target : Word) :
    Collected :=
  { collected.push branch with
    physical := target
    pulledPage :=
      if (collected.physical + 4).toNat % pageSize = 0 then some (pageOf target)
      else collected.pulledPage }

def Collected.start (startPc : DoubleWord) (startPhysical : Word) : Collected :=
  { reversed := [], reversedWords := [], pc := startPc, physical := startPhysical
    inDelaySlot := false, pulledPage := none }

inductive Turn where
  | ends (collected : Collected) (fault : Option Fault)
  | continues (collected : Collected)

/-- How collecting goes on behind an instruction. -/
def Collected.turn (tlb : Tlb) (control : SystemControl) (collected : Collected)
    (entry : UnitInstruction) : Except CompileError Turn :=
  if collected.inDelaySlot && entry.category.isBranch then
    .error (.branchInDelaySlot collected.pc)
  else if collected.inDelaySlot || entry.category = .blockEnder then
    .ok (.ends (collected.push entry) none)
  else if (collected.physical + 4).toNat % pageSize ≠ 0 then
    .ok (.continues (collected.push entry))
  else if !entry.category.isBranch then .ok (.ends (collected.push entry) none)
  else
    match tlb.resolve control (collected.pc + 4) .fetch with
    | .ok physical =>
      .ok (.continues
        { collected.push entry with physical, pulledPage := some (pageOf physical) })
    | .error fault => .ok (.ends (collected.push entry) (some fault))

section Turn

variable {entry : UnitInstruction}

theorem Collected.turn_samePage (outside : collected.inDelaySlot = false)
    (inside : entry.category ≠ .blockEnder)
    (samePage : (collected.physical + 4).toNat % pageSize ≠ 0) :
    collected.turn tlb control entry = .ok (.continues (collected.push entry)) := by
  simp only [Collected.turn, outside, Bool.false_and, Bool.false_eq_true, if_false,
    Bool.false_or, decide_eq_true_eq]
  rw [if_neg inside, if_pos samePage]

theorem Collected.turn_plain (outside : collected.inDelaySlot = false)
    (plain : entry.category.isBranch = false)
    (last : entry.category = .blockEnder ∨ (collected.physical + 4).toNat % pageSize = 0) :
    collected.turn tlb control entry = .ok (.ends (collected.push entry) none) := by
  simp only [Collected.turn, outside, plain, Bool.false_and, Bool.false_eq_true, if_false,
    Bool.false_or, decide_eq_true_eq, Bool.not_false, if_true]
  by_cases ender : entry.category = .blockEnder
  · rw [if_pos ender]
  · rw [if_neg ender, if_neg (fun samePage => samePage (last.resolve_left ender))]

theorem Collected.turn_branch (outside : collected.inDelaySlot = false)
    (branch : entry.category.isBranch = true) :
    collected.turn tlb control entry =
      match behind tlb control collected.pc collected.physical with
      | .ok target => .ok (.continues (collected.pushBranch entry target))
      | .error fault => .ok (.ends (collected.push entry) (some fault)) := by
  have inside : entry.category ≠ .blockEnder := by
    intro ender
    rw [ender] at branch
    cases branch
  by_cases pageEnd : (collected.physical + 4).toNat % pageSize = 0
  · rw [behind, if_neg (fun samePage => samePage pageEnd)]
    simp only [Collected.turn, Collected.pushBranch, outside, branch, inside, pageEnd, ne_eq,
      not_true_eq_false, Bool.false_and, Bool.false_or, Bool.false_eq_true, Bool.not_true,
      decide_false, if_true, if_false]
  · rw [behind, if_pos pageEnd, Collected.turn_samePage outside inside pageEnd]
    simp only [Collected.pushBranch, pageEnd, if_false]
    rfl

theorem Collected.turn_slot (inSlot : collected.inDelaySlot = true) :
    collected.turn tlb control entry =
      if entry.category.isBranch then .error (.branchInDelaySlot collected.pc)
      else .ok (.ends (collected.push entry) none) := by
  simp [Collected.turn, inSlot]

end Turn

/-- The loop of `collect`, with anything else behind it. -/
def collectOr (atLimit : Collected → EStateM CompileError β CodeUnit) (tlb : Tlb)
    (control : SystemControl) (done : Collected → Option Fault → CodeUnit) :
    Nat → Collected → EStateM CompileError β CodeUnit
  | 0, collected => atLimit collected
  | remaining + 1, collected => do
    let word ← modifyGet fun bus => Bus.fetch bus collected.physical
    match collected.read word with
    | .error reason => throw (.illegal reason)
    | .ok entry =>
      match collected.turn tlb control entry with
      | .error reason => throw reason
      | .ok (.ends last fault) => return done last fault
      | .ok (.continues next) => collectOr atLimit tlb control done remaining next

/-- Drops a branch that was collected without its delay slot. -/
def dropBranch (done : Collected → Option Fault → CodeUnit) (collected : Collected) :
    EStateM CompileError β CodeUnit :=
  if collected.inDelaySlot then
    return done
      { collected with
        reversed := collected.reversed.drop 1
        reversedWords := collected.reversedWords.drop 1 } none
  else return done collected none

theorem collect_eq (done : Collected → Option Fault → CodeUnit) (remaining : Nat)
    (collected : Collected) :
    collect tlb control done remaining collected =
      collectOr (β := β) (dropBranch done) tlb control done remaining collected := by
  induction remaining generalizing collected with
  | zero => rfl
  | succ remaining ih =>
      simp only [collect, collectOr, Collected.read]
      congr 1
      funext word
      cases Instruction.classify ⟨word⟩ collected.pc with
      | error reason => rfl
      | ok meaning =>
          obtain ⟨form, operation, category⟩ := meaning
          simp only [Collected.turn]
          split
          · rfl
          · split
            · rfl
            · split
              · exact ih _
              · split
                · rfl
                · cases tlb.resolve control (collected.pc + 4) .fetch with
                  | ok physical => exact ih _
                  | error fault => rfl

theorem Collected.read_ok {word : Word} {entry : UnitInstruction}
    (reads : collected.read word = .ok entry) :
    entry.inst = ⟨word⟩ ∧
      entry.inst.classify entry.pc = .ok (entry.form, entry.operation, entry.category) ∧
      entry.pc = collected.pc ∧ entry.physical = collected.physical ∧
      entry.delaySlot = collected.inDelaySlot := by
  unfold Collected.read at reads
  split at reads
  · cases reads
  · rename_i classifies
    cases reads
    exact ⟨rfl, classifies, rfl, rfl, rfl⟩

theorem Collected.read_error {word : Word} {reason : IllegalInstruction}
    (fails : collected.read word = .error reason) :
    Instruction.legal ⟨word⟩ collected.pc = .error reason := by
  unfold Collected.read Instruction.classify at fails
  cases legal : Instruction.legal ⟨word⟩ collected.pc with
  | error other =>
      rw [legal] at fails
      cases fails
      rfl
  | ok meaning =>
      rw [legal] at fails
      cases fails

theorem Collected.fetched_read {entry : UnitInstruction}
    (reads : collected.read (Bus.fetch bus collected.physical).1 = .ok entry) :
    entry.Fetched bus collected.pc collected.physical collected.inDelaySlot := by
  obtain ⟨inst, classifies, pc, physical, delaySlot⟩ := Collected.read_ok reads
  obtain ⟨legal, is⟩ := classify_ok classifies
  refine ⟨?_, legal, is, pc, physical, delaySlot⟩
  rw [physical, inst]

theorem Collected.read_fetched {entry : UnitInstruction}
    (fetched : entry.Fetched bus collected.pc collected.physical collected.inDelaySlot) :
    collected.read (Bus.fetch bus collected.physical).1 = .ok entry := by
  have classifies := fetched.classify
  obtain ⟨word, _, _, pc, physical, slot⟩ := fetched
  rw [pc] at classifies
  rw [physical] at word
  rw [Collected.read, word, classifies, ← pc, ← physical, ← slot]

theorem collectOr_succ (atLimit : Collected → EStateM CompileError β CodeUnit)
    (done : Collected → Option Fault → CodeUnit) (remaining : Nat) :
    collectOr atLimit tlb control done (remaining + 1) collected bus =
      match collected.read (Bus.fetch bus collected.physical).1 with
      | .error reason => .error (.illegal reason) (Bus.fetch bus collected.physical).2
      | .ok entry =>
        match collected.turn tlb control entry with
        | .error reason => .error reason (Bus.fetch bus collected.physical).2
        | .ok (.ends last fault) => .ok (done last fault) (Bus.fetch bus collected.physical).2
        | .ok (.continues next) =>
          collectOr atLimit tlb control done remaining next
            (Bus.fetch bus collected.physical).2 := by
  simp only [collectOr, bind, EStateM.bind, modifyState]
  cases collected.read (Bus.fetch bus collected.physical).1 with
  | error reason => rfl
  | ok entry =>
      dsimp only
      cases collected.turn tlb control entry with
      | error reason => rfl
      | ok turn => cases turn <;> rfl

theorem fetch_bus [QuietBus β] (bus : β) (physical : Word) : (Bus.fetch bus physical).2 = bus :=
  QuietBus.read_bus _ _ _

section Fetched

variable [QuietBus β] {atLimit : Collected → EStateM CompileError β CodeUnit}
  {done : Collected → Option Fault → CodeUnit} {entry : UnitInstruction}

theorem collectOr_continues {next : Collected}
    (fetched : entry.Fetched bus collected.pc collected.physical collected.inDelaySlot)
    (turns : collected.turn tlb control entry = .ok (.continues next)) :
    collectOr atLimit tlb control done (remaining + 1) collected bus =
      collectOr atLimit tlb control done remaining next bus := by
  rw [collectOr_succ, Collected.read_fetched fetched, fetch_bus]
  dsimp only
  rw [turns]

theorem collectOr_fails {reason : CompileError}
    (fetched : entry.Fetched bus collected.pc collected.physical collected.inDelaySlot)
    (turns : collected.turn tlb control entry = .error reason) :
    collectOr atLimit tlb control done (remaining + 1) collected bus = .error reason bus := by
  rw [collectOr_succ, Collected.read_fetched fetched, fetch_bus]
  dsimp only
  rw [turns]

end Fetched

/-- Collecting ends before the limit, so that nothing behind the loop matters. If it gives a unit,
the unit has some property. -/
def Settles (tlb : Tlb) (control : SystemControl) (bus : β)
    (done : Collected → Option Fault → CodeUnit) (remaining : Nat) (collected : Collected)
    (holds : CodeUnit → Prop) : Prop :=
  ∃ result : EStateM.Result CompileError β CodeUnit,
    (∀ atLimit, collectOr atLimit tlb control done remaining collected bus = result) ∧
    ∀ codeUnit after, result = .ok codeUnit after → holds codeUnit

section Settles

variable {done : Collected → Option Fault → CodeUnit} {holds : CodeUnit → Prop}

theorem Settles.pass [QuietBus β]
    (turns : ∀ entry : UnitInstruction,
      entry.Fetched bus collected.pc collected.physical collected.inDelaySlot →
      match collected.turn tlb control entry with
      | .error _ => True
      | .ok (.ends last fault) => holds (done last fault)
      | .ok (.continues next) => Settles tlb control bus done remaining next holds) :
    Settles tlb control bus done (remaining + 1) collected holds := by
  unfold Settles
  simp only [collectOr_succ, fetch_bus]
  cases reads : collected.read (Bus.fetch bus collected.physical).1 with
  | error reason => exact ⟨_, fun _ => rfl, nofun⟩
  | ok entry =>
      have turned := turns entry (Collected.fetched_read reads)
      dsimp only
      cases leads : collected.turn tlb control entry with
      | error reason => exact ⟨_, fun _ => rfl, nofun⟩
      | ok turn =>
          rw [leads] at turned
          cases turn with
          | continues next => exact turned
          | ends last fault =>
              refine ⟨_, fun _ => rfl, ?_⟩
              rintro _ _ ⟨⟩
              exact turned

theorem Settles.slot [QuietBus β] (inSlot : collected.inDelaySlot = true)
    (ends : ∀ slot : UnitInstruction, slot.Fetched bus collected.pc collected.physical true →
      slot.category.isBranch = false → holds (done (collected.push slot) none)) :
    Settles tlb control bus done (remaining + 1) collected holds := by
  apply Settles.pass
  intro slot fetched
  rw [inSlot] at fetched
  rw [Collected.turn_slot inSlot]
  cases branch : slot.category.isBranch with
  | true => trivial
  | false => exact ends slot fetched branch

theorem Settles.weaken {weaker : CodeUnit → Prop}
    (settles : Settles tlb control bus done remaining collected holds)
    (implies : ∀ codeUnit, holds codeUnit → weaker codeUnit) :
    Settles tlb control bus done remaining collected weaker := by
  obtain ⟨result, same, ok⟩ := settles
  exact ⟨result, same, fun codeUnit after is => implies codeUnit (ok codeUnit after is)⟩

end Settles

/-- A unit that what was collected and the rest of a whole unit make up. -/
def Completed (tlb : Tlb) (control : SystemControl) (bus : β) (collected : Collected)
    (codeUnit : CodeUnit) : Prop :=
  ∃ front rest, Outline tlb control bus collected.pc collected.physical front rest
      codeUnit.delaySlotFault codeUnit.pulledPage ∧
    codeUnit.instructions = collected.reversed.reverse ++ (front ++ rest)

/-- Collecting from an instruction on that is in no delay slot completes a unit. The limit is
never met, because a page and a delay slot fit below it. -/
private theorem collect_settles [QuietBus β] (outside : collected.inDelaySlot = false)
    (unpulled : collected.pulledPage = none) (aligned : collected.physical.toNat % 4 = 0)
    (room : 4100 ≤ 4 * remaining + collected.physical.toNat % pageSize) :
    Settles tlb control bus (finish startPc startPhysical) remaining collected
      (Completed tlb control bus collected) := by
  induction remaining generalizing collected with
  | zero =>
      have := Nat.mod_lt collected.physical.toNat (show 0 < pageSize by decide)
      simp only [pageSize] at *
      omega
  | succ remaining ih =>
      obtain ⟨offset, nextAligned⟩ := toNat_add_four _ aligned
      obtain ⟨fewer, rfl⟩ : ∃ fewer, remaining = fewer + 1 := by
        have := Nat.mod_lt collected.physical.toNat (show 0 < pageSize by decide)
        refine Nat.exists_eq_add_of_le' ?_
        simp only [pageSize] at *
        omega
      apply Settles.pass
      intro entry fetched
      rw [outside] at fetched
      have single {fault : Option Fault}
          (ending : Ending tlb control bus collected.pc collected.physical [entry] fault none) :
          Completed tlb control bus collected
            (finish startPc startPhysical (collected.push entry) fault) := by
        refine ⟨[], [entry], ?_, by simp [finish, Collected.push]⟩
        simpa [finish, Collected.push, unpulled] using ending.outline
      cases branch : entry.category.isBranch with
      | true =>
          rw [Collected.turn_branch outside branch]
          cases found : behind tlb control collected.pc collected.physical with
          | error fault => exact single (.missing fetched branch found)
          | ok target =>
              apply Settles.slot branch
              intro slot slotFetched plain
              have ending := Ending.slot fetched branch found slotFetched plain
              refine ⟨[], [entry, slot], ?_, ?_⟩
              · simpa [finish, Collected.push, Collected.pushBranch, unpulled] using ending.outline
              · simp [finish, Collected.push, Collected.pushBranch]
      | false =>
          by_cases last : entry.category = .blockEnder ∨
              (collected.physical + 4).toNat % pageSize = 0
          · rw [Collected.turn_plain outside branch last]
            exact single (.plain fetched branch last)
          · obtain ⟨inside, samePage⟩ := not_or.mp last
            have nextRoom : 4100 ≤ 4 * (fewer + 1) + (collected.physical + 4).toNat % pageSize := by
              simp only [pageSize] at *
              omega
            have settles := @ih (collected.push entry) branch unpulled nextAligned nextRoom
            rw [Collected.turn_samePage outside inside samePage]
            refine settles.weaken ?_
            rintro codeUnit ⟨front, rest, outline, instructions⟩
            refine ⟨entry :: front, rest, outline.cons fetched branch inside samePage, ?_⟩
            rw [instructions]
            simp [Collected.push]

/-! ## Whatever the bus does -/

def Collected.Classified (collected : Collected) : Prop :=
  ∀ entry ∈ collected.reversed,
    entry.inst.classify entry.pc = .ok (entry.form, entry.operation, entry.category)

def Collected.Watched (collected : Collected) : Prop :=
  collected.reversedWords = collected.reversed.map UnitInstruction.physical

/-- Instructions that follow each other from an address on, the last one first. -/
def Lined (startPc : DoubleWord) : List UnitInstruction → Prop
  | [] => True
  | entry :: before =>
    entry.pc = startPc + BitVec.ofNat 64 (4 * before.length) ∧ Lined startPc before

theorem Lined.drop_one {reversed : List UnitInstruction} (lined : Lined startPc reversed) :
    Lined startPc (reversed.drop 1) := by
  cases reversed with
  | nil => exact lined
  | cons entry before => exact lined.2

/-- An instruction was collected, and the word that it was fetched from. -/
private structure Collected.Extends (next collected : Collected) (entry : UnitInstruction) :
    Prop where
  reversed : next.reversed = entry :: collected.reversed
  words : next.reversedWords = collected.physical :: collected.reversedWords

/-- A pass adds its instruction, or finds a branch where none can stand. Only a branch ends
collecting with a fault. -/
private def Collected.Adds (collected : Collected) (entry : UnitInstruction) :
    Except CompileError Turn → Prop
  | .error reason => reason = .branchInDelaySlot collected.pc
  | .ok (.ends last fault) => last.Extends collected entry ∧
      (fault.isSome = true → entry.category.isBranch = true)
  | .ok (.continues next) => next.Extends collected entry ∧ next.pc = collected.pc + 4

private theorem Collected.turn_adds (tlb : Tlb) (control : SystemControl) (collected : Collected)
    (entry : UnitInstruction) : collected.Adds entry (collected.turn tlb control entry) := by
  unfold Collected.turn
  split
  · rfl
  · split
    · exact ⟨⟨rfl, rfl⟩, nofun⟩
    · split
      · exact ⟨⟨rfl, rfl⟩, rfl⟩
      · split
        · exact ⟨⟨rfl, rfl⟩, nofun⟩
        · rename_i branch
          cases tlb.resolve control (collected.pc + 4) .fetch with
          | ok physical => exact ⟨⟨rfl, rfl⟩, rfl⟩
          | error fault => exact ⟨⟨rfl, rfl⟩, fun _ => by simpa using branch⟩

/-- What was collected, with its words: instructions that can be executed and follow each other. -/
private structure Collected.Records (collected : Collected) (startPc : DoubleWord) : Prop where
  classified : collected.Classified
  watched : collected.Watched
  lined : Lined startPc collected.reversed

private theorem Collected.Records.extend {next : Collected} {word : Word} {entry : UnitInstruction}
    (records : collected.Records startPc)
    (stands : collected.pc = startPc + BitVec.ofNat 64 (4 * collected.reversed.length))
    (read : collected.read word = .ok entry) (adds : next.Extends collected entry) :
    next.Records startPc := by
  obtain ⟨-, classifies, pc, physical, -⟩ := Collected.read_ok read
  have watched : next.Watched := by
    rw [Collected.Watched, adds.words, adds.reversed, List.map_cons, physical, records.watched]
  refine ⟨?_, watched, ?_⟩
  · rw [Collected.Classified, adds.reversed]
    exact List.forall_mem_cons.mpr ⟨classifies, records.classified⟩
  · rw [adds.reversed]
    exact ⟨pc.trans stands, records.lined⟩

/-- At the limit, a branch without its delay slot is dropped again, with its word. -/
private theorem Collected.Records.drop {last : Collected} (records : collected.Records startPc)
    (reversed : last.reversed = collected.reversed.drop 1)
    (words : last.reversedWords = collected.reversedWords.drop 1) : last.Records startPc where
  classified entry member := by
    rw [reversed] at member
    exact records.classified entry (List.mem_of_mem_drop member)
  watched := by rw [Collected.Watched, words, reversed, records.watched, List.map_drop]
  lined := by
    rw [reversed]
    exact records.lined.drop_one

/-- What a unit was made from: a number of instructions at most, with a branch as the last one if
a delay slot is missing. -/
private structure Collected.Makes (last : Collected) (startPc : DoubleWord) (most : Nat)
    (fault : Option Fault) : Prop where
  records : last.Records startPc
  few : last.reversed.length ≤ most
  /-- At the limit one instruction may be dropped again. -/
  nonempty : 2 ≤ most → last.reversed ≠ []
  branch : fault.isSome = true → ∃ branch before,
    last.reversed = branch :: before ∧ branch.category.isBranch = true

/-- A unit was made, or an instruction stands where it cannot. The bus has some property. -/
private def Frames (holds : β → Prop) (startPc : DoubleWord)
    (done : Collected → Option Fault → CodeUnit) (most : Nat) :
    EStateM.Result CompileError β CodeUnit → Prop
  | .ok codeUnit after => holds after ∧
      ∃ last fault, last.Makes startPc most fault ∧ codeUnit = done last fault
  | .error reason after => holds after ∧
      ((∃ illegal, reason = .illegal illegal) ∨ ∃ pc, reason = .branchInDelaySlot pc)

private theorem collect_frames {holds : β → Prop}
    (reads : ∀ bus physical size, holds bus → holds (Bus.read bus physical size).2)
    (done : Collected → Option Fault → CodeUnit) {bus : β} (initial : holds bus)
    (records : collected.Records startPc)
    (stands : collected.pc = startPc + BitVec.ofNat 64 (4 * collected.reversed.length)) :
    Frames holds startPc done (collected.reversed.length + remaining)
      (collect tlb control done remaining collected bus) := by
  rw [collect_eq]
  induction remaining generalizing collected bus with
  | zero =>
      cases inSlot : collected.inDelaySlot with
      | false =>
          simp only [collectOr, dropBranch, inSlot]
          refine ⟨initial, _, none, ⟨records, Nat.le_refl _, fun many => ?_, nofun⟩, rfl⟩
          exact List.ne_nil_of_length_pos (Nat.lt_of_lt_of_le Nat.zero_lt_two many)
      | true =>
          simp only [collectOr, dropBranch, inSlot]
          refine ⟨initial, _, none, ⟨records.drop rfl rfl, ?_, fun many => ?_, nofun⟩, rfl⟩
          · exact (List.drop_sublist 1 collected.reversed).length_le
          · apply List.ne_nil_of_length_pos
            rw [List.length_drop]
            exact Nat.sub_pos_of_lt many
  | succ remaining ih =>
      have kept : holds (Bus.fetch bus collected.physical).2 := reads _ _ _ initial
      rw [collectOr_succ]
      cases read : collected.read (Bus.fetch bus collected.physical).1 with
      | error illegal => exact ⟨kept, .inl ⟨illegal, rfl⟩⟩
      | ok entry =>
          have adds := collected.turn_adds tlb control entry
          dsimp only
          cases turns : collected.turn tlb control entry with
          | error reason =>
              rw [turns] at adds
              exact ⟨kept, .inr ⟨collected.pc, adds⟩⟩
          | ok turn =>
              rw [turns] at adds
              cases turn with
              | ends last fault =>
                  obtain ⟨adds, branch⟩ := adds
                  refine ⟨kept, last, fault,
                    ⟨records.extend stands read adds, ?_, fun _ => ?_, ?_⟩, rfl⟩
                  · rw [adds.reversed, List.length_cons]
                    omega
                  · rw [adds.reversed]
                    exact List.cons_ne_nil entry collected.reversed
                  · exact fun missing => ⟨entry, _, adds.reversed, branch missing⟩
              | continues next =>
                  obtain ⟨adds, later⟩ := adds
                  have rest := ih kept (records.extend stands read adds) (by
                    rw [later, stands, adds.reversed, List.length_cons, endPc_add_four])
                  rwa [adds.reversed, List.length_cons, Nat.add_right_comm] at rest

private theorem form_frames {holds : β → Prop}
    (reads : ∀ bus physical size, holds bus → holds (Bus.read bus physical size).2)
    (initial : holds bus) : Frames holds startPc (finish startPc startPhysical) maxLength
      (form tlb control startPc startPhysical bus) := by
  have nothing : (Collected.start startPc startPhysical).Classified := by
    intro entry member
    cases member
  rw [form, ← Nat.zero_add maxLength]
  exact collect_frames reads _ initial ⟨nothing, rfl, trivial⟩ (BitVec.add_zero startPc).symm

private theorem form_makes
    (forms : form tlb control startPc startPhysical bus = .ok codeUnit after) :
    ∃ last fault, Collected.Makes last startPc maxLength fault ∧
      codeUnit = finish startPc startPhysical last fault := by
  have frame : Frames (fun _ => True) _ _ _ (form tlb control startPc startPhysical bus) :=
    form_frames (fun _ _ _ _ => trivial) trivial
  rw [forms] at frame
  exact frame.2

/-- A unit starts where it was asked for, whatever the bus does. -/
theorem form_starts (forms : form tlb control startPc startPhysical bus = .ok codeUnit after) :
    codeUnit.startPc = startPc ∧ codeUnit.startPhysical = startPhysical := by
  obtain ⟨last, fault, -, rfl⟩ := form_makes forms
  exact ⟨rfl, rfl⟩

/-- The words that are watched for a unit are those of its instructions, in order. -/
theorem form_sourceWords
    (forms : form tlb control startPc startPhysical bus = .ok codeUnit after) :
    codeUnit.sourceWords = codeUnit.instructions.map UnitInstruction.physical := by
  obtain ⟨last, fault, makes, rfl⟩ := form_makes forms
  exact (congrArg List.reverse makes.records.watched).trans List.map_reverse.symm

theorem form_classified (forms : form tlb control startPc startPhysical bus = .ok codeUnit after) :
    ∀ entry ∈ codeUnit.instructions,
      entry.inst.classify entry.pc = .ok (entry.form, entry.operation, entry.category) := by
  obtain ⟨last, fault, makes, rfl⟩ := form_makes forms
  intro entry member
  exact makes.records.classified entry (List.mem_reverse.mp member)

/-- A unit has no more instructions than fit, whatever the bus does. -/
theorem form_length_le (forms : form tlb control startPc startPhysical bus = .ok codeUnit after) :
    codeUnit.length ≤ maxLength := by
  obtain ⟨last, fault, makes, rfl⟩ := form_makes forms
  rw [CodeUnit.length, finish, List.length_reverse]
  exact makes.few

theorem form_nonempty (forms : form tlb control startPc startPhysical bus = .ok codeUnit after) :
    codeUnit.instructions ≠ [] := by
  obtain ⟨last, fault, makes, rfl⟩ := form_makes forms
  exact List.reverse_ne_nil_iff.mpr (makes.nonempty (by decide))

theorem form_lined (forms : form tlb control startPc startPhysical bus = .ok codeUnit after) :
    Lined startPc codeUnit.instructions.reverse := by
  obtain ⟨last, fault, makes, rfl⟩ := form_makes forms
  rw [finish, List.reverse_reverse]
  exact makes.records.lined

/-- A delay slot is only missing behind a branch, whatever the bus does. -/
theorem form_missing (forms : form tlb control startPc startPhysical bus = .ok codeUnit after)
    (missing : codeUnit.delaySlotFault.isSome = true) :
    ∃ branch before, codeUnit.instructions.reverse = branch :: before ∧
      branch.category.isBranch = true := by
  obtain ⟨last, fault, makes, rfl⟩ := form_makes forms
  rw [finish, List.reverse_reverse]
  exact makes.branch missing

/-- Forming a unit only reads, and so it does where it fails. -/
theorem form_reads {result : EStateM.Result CompileError β CodeUnit}
    (forms : form tlb control startPc startPhysical bus = result) :
    match result with
    | .ok _ after | .error _ after => Bus.Reads bus after := by
  have frame : Frames (Bus.Reads bus) startPc (finish startPc startPhysical) maxLength
      (form tlb control startPc startPhysical bus) :=
    form_frames (fun _ physical size reads => reads.tail ⟨physical, size, rfl⟩) .refl
  rw [forms] at frame
  cases result with
  | ok codeUnit after => exact frame.1
  | error reason after => exact frame.1

private theorem form_quiet [QuietBus β] (tlb : Tlb) (control : SystemControl)
    (startPc : DoubleWord) (startPhysical : Word) (bus : β) :
    Frames (· = bus) startPc (finish startPc startPhysical) maxLength
      (form tlb control startPc startPhysical bus) := by
  refine form_frames (fun read physical size same => ?_) rfl
  rw [QuietBus.read_bus, same]

theorem form_ok [QuietBus β]
    (forms : form tlb control startPc startPhysical bus = .ok codeUnit after) :
    after = bus ∧ codeUnit.startPc = startPc ∧ codeUnit.startPhysical = startPhysical := by
  have frame := form_quiet tlb control startPc startPhysical bus
  rw [forms] at frame
  exact ⟨frame.1, form_starts forms⟩

theorem form_error [QuietBus β] {reason : CompileError}
    (fails : form tlb control startPc startPhysical bus = .error reason after) :
    after = bus ∧
      ((∃ illegal, reason = .illegal illegal) ∨ ∃ pc, reason = .branchInDelaySlot pc) := by
  have frame := form_quiet tlb control startPc startPhysical bus
  rw [fails] at frame
  exact frame

/-- Forming a unit never gets to the code behind the loop, and gives a whole unit if it gives
one. -/
theorem form_settles [QuietBus β] (tlb : Tlb) (control : SystemControl) (bus : β)
    (startPc : DoubleWord) (startPhysical : Word) (aligned : startPhysical.toNat % 4 = 0) :
    Settles tlb control bus (finish startPc startPhysical) maxLength
      (.start startPc startPhysical)
      fun codeUnit => ∃ front rest, codeUnit.instructions = front ++ rest ∧
        Outline tlb control bus startPc startPhysical front rest codeUnit.delaySlotFault
          codeUnit.pulledPage := by
  have room : 4100 ≤ 4 * maxLength + startPhysical.toNat % pageSize := by
    simp only [maxLength]
    omega
  refine Settles.weaken (collect_settles rfl rfl aligned room) ?_
  rintro codeUnit ⟨front, rest, outline, instructions⟩
  exact ⟨front, rest, instructions, outline⟩

theorem form_eq (tlb : Tlb) (control : SystemControl) (startPc : DoubleWord)
    (startPhysical : Word) :
    form (β := β) tlb control startPc startPhysical =
      collectOr (dropBranch (finish startPc startPhysical)) tlb control
        (finish startPc startPhysical) maxLength (.start startPc startPhysical) := by
  rw [← collect_eq]
  rfl

theorem form_outline [QuietBus β] (aligned : startPhysical.toNat % 4 = 0)
    (forms : form tlb control startPc startPhysical bus = .ok codeUnit after) :
    ∃ front rest, codeUnit.instructions = front ++ rest ∧
      Outline tlb control bus startPc startPhysical front rest codeUnit.delaySlotFault
        codeUnit.pulledPage := by
  obtain ⟨result, settles, whole⟩ := form_settles tlb control bus startPc startPhysical aligned
  refine whole codeUnit after ?_
  rw [← settles (dropBranch _), ← form_eq, forms]

/-- A unit is a chain from the address that it is formed at. -/
theorem form_chain [QuietBus β] (aligned : startPhysical.toNat % 4 = 0)
    (forms : form tlb control startPc startPhysical bus = .ok codeUnit after) :
    Chain tlb control bus startPc startPhysical codeUnit.instructions codeUnit.delaySlotFault ∧
      codeUnit.length ≤ maxLength := by
  obtain ⟨front, rest, instructions, outline⟩ := form_outline aligned forms
  rw [CodeUnit.length, instructions]
  exact ⟨outline.chain, outline.length_le aligned⟩

end Collect

end CodeUnit

end MipsRecompiler
