import MipsRecompiler.Proofs.Compilation
import MipsRecompiler.Proofs.Emission.Sites

/-!
# Words that cannot be executed

What a word means is looked up in one table, but whether its formats can be used is only checked
when it is performed, or when values are emitted for it. Both engines come to the same answer, so a
unit that was compiled has no word that the interpreter refuses.
-/

set_option autoImplicit false

namespace MipsRecompiler

open Interpreter (executeWord Completes)

variable {β : Type} [Bus β] {word : Word} {pc : DoubleWord} {reason : IllegalInstruction}

/-- Why an instruction cannot be executed at an address: it means nothing that is supported, or its
operation cannot be used with its formats. -/
inductive Instruction.Illegal (inst : Instruction) (pc : DoubleWord) :
    IllegalInstruction → Prop where
  | meaning {reason : IllegalInstruction} :
      inst.legal pc = .error reason → Illegal inst pc reason
  | formats {form : Form} {operation : Operation} :
      inst.legal pc = .ok (form, operation) → ¬ inst.FormatsLegal pc operation →
      Illegal inst pc (.reserved pc inst.word)

theorem Instruction.Illegal.names {inst : Instruction} (illegal : inst.Illegal pc reason) :
    reason = .reserved pc inst.word ∨ ∃ name, reason = .unimplemented pc inst.word name := by
  cases illegal with
  | meaning fails =>
      unfold Instruction.legal at fails
      split at fails
      · cases fails
      · rename_i name _
        cases fails
        exact .inr ⟨name, rfl⟩
      · cases fails
        exact .inl rfl
  | formats => exact .inl rfl

theorem Instruction.illegal_or_legal (inst : Instruction) (pc : DoubleWord) :
    (∃ reason, inst.Illegal pc reason) ∨
      ∃ form operation, inst.legal pc = .ok (form, operation) ∧ inst.FormatsLegal pc operation := by
  cases legal : inst.legal pc with
  | error reason => exact .inl ⟨reason, .meaning legal⟩
  | ok pair =>
      obtain ⟨form, operation⟩ := pair
      by_cases formats : inst.FormatsLegal pc operation
      · exact .inr ⟨form, operation, rfl, formats⟩
      · exact .inl ⟨_, .formats legal formats⟩

/-! ## The interpreter -/

section Interpreter

variable {guest after : Machine β}

theorem executeWord_illegal (usable : guest.cpu.control.floatUsable = true)
    (illegal : Instruction.Illegal ⟨word⟩ pc reason) :
    executeWord word pc guest = .error (.illegal reason) guest := by
  cases illegal with
  | meaning fails =>
      rw [executeWord, fails]
      rfl
  | formats legal formats =>
      rw [executeWord, legal]
      exact Interpreter.perform_reserved usable formats

theorem executeWord_legal {form : Form} {operation : Operation}
    (legal : Instruction.legal ⟨word⟩ pc = .ok (form, operation))
    (formats : Instruction.FormatsLegal ⟨word⟩ pc operation) (guest : Machine β) :
    Completes (fun _ _ => True) (executeWord word pc guest) := by
  rw [executeWord, legal]
  exact Interpreter.perform_legal formats guest

/-- Where the floating point unit is usable, exactly the illegal words are refused. -/
theorem executeWord_error_iff (usable : guest.cpu.control.floatUsable = true) :
    (∃ after, executeWord word pc guest = .error (.illegal reason) after) ↔
      Instruction.Illegal ⟨word⟩ pc reason := by
  constructor
  · rintro ⟨after, refuses⟩
    obtain ⟨other, illegal⟩ | ⟨form, operation, legal, formats⟩ :=
      Instruction.illegal_or_legal ⟨word⟩ pc
    · cases (executeWord_illegal usable illegal).symm.trans refuses
      exact illegal
    · have completes := executeWord_legal legal formats guest
      rw [refuses] at completes
      exact completes.elim
  · intro illegal
    exact ⟨guest, executeWord_illegal usable illegal⟩

theorem step_error_iff [QuietBus β] {physical : Word} {error : InterpreterError}
    (usable : guest.cpu.control.floatUsable = true)
    (translates : guest.translate guest.cpu.pc .fetch .word = .ok physical) :
    (Interpreter.step ⟨guest, none⟩).1 = .error error ↔
      ∃ reason, error = .illegal reason ∧
        Instruction.Illegal ⟨(Bus.fetch guest.bus physical).1⟩ guest.cpu.pc reason := by
  have fetches := Interpreter.fetchAndPerform_word translates
  constructor
  · intro fails
    obtain ⟨reason, illegal⟩ | ⟨form, operation, legal, formats⟩ :=
      Instruction.illegal_or_legal ⟨(Bus.fetch guest.bus physical).1⟩ guest.cpu.pc
    · rw [executeWord_illegal usable illegal] at fetches
      rw [Interpreter.step_illegal fetches] at fails
      cases fails
      exact ⟨reason, rfl, illegal⟩
    · have completes := executeWord_legal legal formats guest
      rw [← fetches] at completes
      obtain accepts | ⟨inSlot, -⟩ := Interpreter.step_completes completes
      · cases accepts.symm.trans fails
      · cases inSlot
  · rintro ⟨reason, rfl, illegal⟩
    rw [executeWord_illegal usable illegal] at fetches
    rw [Interpreter.step_illegal fetches]

/-- A word that is legal at its address makes a step fail only if it is a branch in a delay
slot. -/
theorem step_legal [QuietBus β] {physical : Word} {inst : Instruction} {form : Form}
    {operation : Operation} (legal : inst.legal guest.cpu.pc = .ok (form, operation))
    (formats : inst.FormatsLegal guest.cpu.pc operation)
    (translates : guest.translate guest.cpu.pc .fetch .word = .ok physical)
    (word : (Bus.fetch guest.bus physical).1 = inst.word) (delayTarget : Option DoubleWord) :
    (Interpreter.step ⟨guest, delayTarget⟩).1 = .ok () ∨
      delayTarget.isSome = true ∧ operation.isBranch = true ∧
        (Interpreter.step ⟨guest, delayTarget⟩).1 = .error (.branchInDelaySlot guest.cpu.pc) := by
  have performs : Interpreter.fetchAndPerform guest.cpu.pc guest =
      Interpreter.perform inst guest.cpu.pc form operation guest := by
    rw [Interpreter.fetchAndPerform_word translates, word, executeWord, legal]
    rfl
  have completes : Completes _ (Interpreter.perform inst guest.cpu.pc form operation guest) :=
    Interpreter.perform_legal formats guest
  rw [← performs] at completes
  obtain accepts | ⟨inSlot, ⟨target, taken, likely, after, branches⟩, fails⟩ :=
    Interpreter.step_completes completes
  · exact .inl accepts
  · refine .inr ⟨inSlot, ?_, fails⟩
    cases branch : operation.isBranch with
    | true => rfl
    | false =>
        have straight : Interpreter.Straight
            (Interpreter.perform inst guest.cpu.pc form operation guest) :=
          Interpreter.perform_straight branch formats guest
        rw [← performs, branches] at straight
        exact absurd rfl (straight target taken likely)

end Interpreter

/-! ## The recompiler -/

namespace Emission

theorem emitAll_formatsLegal {configuration : Configuration} {fault : Option Fault} {index : Nat}
    {entries : List UnitInstruction} {progress final : Progress}
    (emitted : emitAll configuration fault index entries progress = .ok () final) :
    ∀ entry ∈ entries, entry.inst.FormatsLegal entry.pc entry.operation := by
  induction entries generalizing index progress with
  | nil => exact List.forall_mem_nil _
  | cons entry rest ih =>
      obtain ⟨next, first, others⟩ := emitAll_cons emitted
      refine List.forall_mem_cons.mpr ⟨emitInstruction_formatsLegal first, ?_⟩
      rcases others with ⟨-, others⟩ | ⟨_, rfl, -, -⟩
      · exact ih others
      · exact List.forall_mem_nil _

end Emission

namespace CodeUnit

variable {configuration : Configuration} {physical : Word} {fault : Option Fault}

theorem emit_formatsLegal {codeUnit : CodeUnit} {block : Ir.Block}
    (emits : codeUnit.emit configuration = .ok block) :
    ∀ entry ∈ codeUnit.instructions, entry.inst.FormatsLegal entry.pc entry.operation := by
  rw [emit] at emits
  split at emits
  · rename_i empty
    rw [List.isEmpty_iff.mp empty]
    exact List.forall_mem_nil _
  · split at emits
    · rename_i emitted
      exact Emission.emitAll_formatsLegal emitted
    · cases emits

theorem emit_single_error_iff {codeUnit : CodeUnit} {entry : UnitInstruction}
    (single : codeUnit.instructions = [entry]) {cause : CompileError} :
    codeUnit.emit configuration = .error cause ↔
      cause = .illegal (.reserved entry.pc entry.inst.word) ∧
        ¬ entry.inst.FormatsLegal entry.pc entry.operation := by
  have refused {other : CompileError} (fails : codeUnit.emit configuration = .error other) :
      other = .illegal (.reserved entry.pc entry.inst.word) ∧
        ¬ entry.inst.FormatsLegal entry.pc entry.operation := by
    obtain ⟨one, member, is⟩ := emit_refused fails
    rw [single] at member
    rw [List.mem_singleton.mp member] at is
    exact is
  constructor
  · exact refused
  · rintro ⟨rfl, illegal⟩
    cases emits : codeUnit.emit configuration with
    | error other => rw [(refused emits).1]
    | ok block =>
        have member : entry ∈ codeUnit.instructions := by
          rw [single]
          exact List.mem_singleton_self entry
        exact absurd (emit_formatsLegal emits entry member) illegal

/-- Translates the unit that consists of one word. -/
def translateWord (configuration : Configuration) (pc : DoubleWord) (physical : Word)
    (delaySlotFault : Option Fault) (word : Word) : Except CompileError Ir.Block :=
  match (Collected.start pc physical).read word with
  | .error reason => .error (.illegal reason)
  | .ok entry =>
    let codeUnit := finish pc physical ((Collected.start pc physical).push entry) delaySlotFault
    codeUnit.emit configuration

theorem translateWord_error_iff {cause : CompileError} :
    translateWord configuration pc physical fault word = .error cause ↔
      ∃ reason, cause = .illegal reason ∧ Instruction.Illegal ⟨word⟩ pc reason := by
  rw [translateWord]
  cases read : (Collected.start pc physical).read word with
  | error reason =>
      have fails := Collected.read_error read
      constructor
      · rintro ⟨⟩
        exact ⟨reason, rfl, .meaning fails⟩
      · rintro ⟨other, rfl, illegal⟩
        cases illegal with
        | meaning otherFails =>
            cases fails.symm.trans otherFails
            rfl
        | formats legal => cases fails.symm.trans legal
  | ok entry =>
      obtain ⟨inst, classifies, atPc, -⟩ := Collected.read_ok read
      obtain ⟨legal, -⟩ := classify_ok classifies
      have here : entry.pc = pc := atPc
      dsimp only
      rw [emit_single_error_iff rfl, inst, here]
      rw [inst, here] at legal
      constructor
      · rintro ⟨rfl, formats⟩
        exact ⟨_, rfl, .formats legal formats⟩
      · rintro ⟨reason, rfl, illegal⟩
        cases illegal with
        | meaning fails => cases legal.symm.trans fails
        | formats otherLegal formats =>
            cases legal.symm.trans otherLegal
            exact ⟨rfl, formats⟩

/-- A word is translated unless it is illegal. -/
theorem translateWord_ok_iff :
    (∃ block, translateWord configuration pc physical fault word = .ok block) ↔
      ¬ ∃ reason, Instruction.Illegal ⟨word⟩ pc reason := by
  cases translates : translateWord configuration pc physical fault word with
  | error cause =>
      obtain ⟨reason, -, illegal⟩ := translateWord_error_iff.mp translates
      simp only [reduceCtorEq, exists_false, false_iff, not_not]
      exact ⟨reason, illegal⟩
  | ok block =>
      refine ⟨?_, fun _ => ⟨block, rfl⟩⟩
      rintro - ⟨reason, illegal⟩
      cases translates.symm.trans (translateWord_error_iff.mpr ⟨reason, rfl, illegal⟩)

end CodeUnit

/-! ## Both engines -/

open CodeUnit (translateWord)

/-- Both engines reject the same words for the same reasons, which name the word and where it
stands. So no word of a unit that was compiled stops the interpreter, but for a branch that it is
made to execute in a delay slot. -/
theorem engines_reject_alike [QuietBus β] :
    (∀ (configuration : Configuration) (pc : DoubleWord) (physical : Word)
      (delaySlotFault : Option Fault) (word : Word) (guest : Machine β),
      guest.cpu.control.floatUsable = true →
      let translated := translateWord configuration pc physical delaySlotFault word
      (∀ reason, translated = .error (.illegal reason) ↔
        ∃ after, executeWord word pc guest = .error (.illegal reason) after) ∧
      ((∃ block, translated = .ok block) ↔
        ¬ ∃ reason after, executeWord word pc guest = .error (.illegal reason) after) ∧
      (∀ cause, translated = .error cause → cause = .illegal (.reserved pc word) ∨
        ∃ name, cause = .illegal (.unimplemented pc word name)) ∧
      ∀ fetched, guest.cpu.pc = pc → guest.translate pc .fetch .word = .ok fetched →
        (Bus.fetch guest.bus fetched).1 = word →
        ∀ error, (Interpreter.step ⟨guest, none⟩).1 = .error error ↔
          ∃ reason, error = .illegal reason ∧ translated = .error (.illegal reason)) ∧
    ∀ (tlb : Tlb) (control : SystemControl) (bus after : β) (startPc : DoubleWord)
      (startPhysical : Word) (codeUnit : CodeUnit) (configuration : Configuration)
      (platform : Platform) (compilation : Compilation),
      CodeUnit.form tlb control startPc startPhysical bus = .ok codeUnit after →
      codeUnit.compile configuration platform = .ok compilation →
      ∀ entry ∈ codeUnit.instructions,
        ∀ (guest : Machine β) (delayTarget : Option DoubleWord) (fetched : Word),
          guest.cpu.pc = entry.pc → guest.translate entry.pc .fetch .word = .ok fetched →
          (Bus.fetch guest.bus fetched).1 = entry.inst.word →
          (Interpreter.step ⟨guest, delayTarget⟩).1 = .ok () ∨
            delayTarget.isSome = true ∧ entry.category.isBranch = true ∧
              (Interpreter.step ⟨guest, delayTarget⟩).1 = .error (.branchInDelaySlot entry.pc) := by
  constructor
  · intro configuration pc physical fault word guest usable translated
    have illegal (reason : IllegalInstruction) : translated = .error (.illegal reason) ↔
        Instruction.Illegal ⟨word⟩ pc reason := by
      refine CodeUnit.translateWord_error_iff.trans ⟨?_, fun illegal => ⟨reason, rfl, illegal⟩⟩
      rintro ⟨_, ⟨⟩, illegal⟩
      exact illegal
    refine ⟨fun reason => ?_, ?_, fun cause fails => ?_, ?_⟩
    · exact (illegal reason).trans (executeWord_error_iff usable).symm
    · simp only [executeWord_error_iff usable]
      exact CodeUnit.translateWord_ok_iff
    · obtain ⟨reason, rfl, illegal⟩ := CodeUnit.translateWord_error_iff.mp fails
      obtain reserved | ⟨name, unimplemented⟩ := illegal.names
      · exact .inl (congrArg _ reserved)
      · exact .inr ⟨name, congrArg _ unimplemented⟩
    · intro fetched atPc translates fetches error
      subst atPc fetches
      simp only [illegal]
      exact step_error_iff usable translates
  · intro tlb control bus after startPc startPhysical codeUnit configuration platform compilation
      forms compiles entry member guest delayTarget fetched atPc translates fetches
    obtain ⟨legal, category⟩ := CodeUnit.classify_ok (CodeUnit.form_classified forms entry member)
    obtain ⟨-, emitted, emits, -⟩ := CodeUnit.compile_ok compiles
    have formats := CodeUnit.emit_formatsLegal emits entry member
    rw [← atPc] at legal formats translates ⊢
    rw [category, Instruction.categoryOf_isBranch]
    exact step_legal legal formats translates fetches delayTarget

/-- Whether the unit of the guest that stores is compiled, and has its store at the program
counter. -/
private def storingStarts : Bool :=
  match CodeUnit.form storingGuest.tlb storingGuest.cpu.control storingGuest.cpu.pc 0
    storingGuest.bus with
  | .error _ _ => false
  | .ok codeUnit _ =>
    match codeUnit.compile (.current storingGuest.cpu.control) PlatformKind.x86_64.platform with
    | .error _ => false
    | .ok _ => decide (∃ entry ∈ codeUnit.instructions,
        storingGuest.cpu.pc = entry.pc ∧ entry.inst.word = 0xac080040)

/-- The guest that stores executes its store. An addition of integers by the floating point unit
would be refused in its place. -/
theorem storingGuest_rejects :
    QuietBus Ram ∧ storingGuest.cpu.control.floatUsable = true ∧
    (∃ after, executeWord 0x46800000 storingGuest.cpu.pc storingGuest =
      .error (.illegal (.reserved storingGuest.cpu.pc 0x46800000)) after) ∧
    ∃ codeUnit after compilation,
      CodeUnit.form storingGuest.tlb storingGuest.cpu.control storingGuest.cpu.pc 0
        storingGuest.bus = .ok codeUnit after ∧
      codeUnit.compile (.current storingGuest.cpu.control) PlatformKind.x86_64.platform =
        .ok compilation ∧
      (Interpreter.step ⟨storingGuest, none⟩).1 = .ok () := by
  refine ⟨inferInstance, by decide, ?_, ?_⟩
  · have rejects := (engines_reject_alike.1 .clear storingGuest.cpu.pc 0 none 0x46800000
      storingGuest (by decide)).1 (.reserved storingGuest.cpu.pc 0x46800000)
    exact rejects.mp rfl
  · have computes : storingStarts = true := by decide +kernel
    unfold storingStarts at computes
    cases forms : CodeUnit.form storingGuest.tlb storingGuest.cpu.control storingGuest.cpu.pc 0
        storingGuest.bus with
    | error reason after =>
        rw [forms] at computes
        cases computes
    | ok codeUnit after =>
        rw [forms] at computes
        dsimp only at computes
        cases compiles : codeUnit.compile (.current storingGuest.cpu.control)
            PlatformKind.x86_64.platform with
        | error reason =>
            rw [compiles] at computes
            cases computes
        | ok compilation =>
            rw [compiles] at computes
            obtain ⟨entry, member, atPc, word⟩ := of_decide_eq_true computes
            refine ⟨codeUnit, after, compilation, rfl, compiles, ?_⟩
            have translates : storingGuest.translate entry.pc .fetch .word = .ok 0 := by
              rw [← atPc]
              rfl
            have fetches : (Bus.fetch storingGuest.bus 0).1 = entry.inst.word := by
              rw [word]
              decide +kernel
            obtain accepts | ⟨inSlot, -⟩ := engines_reject_alike.2 _ _ _ _ _ _ codeUnit _ _
              compilation forms compiles entry member storingGuest none 0 atPc translates fetches
            · exact accepts
            · cases inSlot

end MipsRecompiler
