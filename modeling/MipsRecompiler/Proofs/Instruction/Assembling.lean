import MipsRecompiler.Proofs.Instruction.Mnemonics
import MipsRecompiler.Proofs.Interpreter.Stepping

/-!
# Assembled instructions are decoded

Every encoder writes words that the decoder finds under its mnemonic, with all operands in their
fields. Absolute jumps that are assembled for an address go there.
-/

set_option autoImplicit false

namespace MipsRecompiler

/-- What stands in these fields are the operands, each cut to the width of its field. -/
def Instruction.Holds (inst : Instruction) (fields : List Field) (operands : List DoubleWord) :
    Prop :=
  ∀ entry ∈ fields.zip operands, inst.field entry.1 = (entry.1.place.cut entry.2).toNat

namespace Encoder

open OperandPlace

variable {encoder : Encoder} {operands : List DoubleWord}

/-- The operands have places of their own in the word, where nothing else is written. -/
structure Tidy (encoder : Encoder) : Prop where
  inside : ∀ place ∈ encoder.operands, place.Inside
  apart : encoder.operands.Pairwise Apart
  blank : ∀ place ∈ encoder.operands, place.read encoder.base = 0#_

instance (encoder : Encoder) : Decidable encoder.Tidy :=
  decidable_of_iff
    ((∀ place ∈ encoder.operands, place.Inside) ∧ encoder.operands.Pairwise Apart ∧
      ∀ place ∈ encoder.operands, place.read encoder.base = 0#_)
    ⟨fun ⟨inside, apart, blank⟩ => ⟨inside, apart, blank⟩,
      fun ⟨inside, apart, blank⟩ => ⟨inside, apart, blank⟩⟩

theorem all_tidy : ∀ encoder ∈ all, encoder.Tidy := by
  decide +kernel

def written (encoder : Encoder) (operands : List DoubleWord) : Instruction :=
  ⟨fill encoder.base (encoder.operands.zip operands)⟩

theorem encode?_written (count : operands.length = encoder.operands.length) :
    encoder.encode? operands = some (encoder.written operands).word :=
  if_pos count

theorem read_written_apart {place : OperandPlace}
    (clear : ∀ other ∈ encoder.operands, place.Apart other) :
    place.read (encoder.written operands).word = place.read encoder.base :=
  read_fill_apart encoder.base fun _ member => clear _ (List.of_mem_zip member).1

theorem Tidy.read_written (tidy : encoder.Tidy)
    (count : operands.length = encoder.operands.length) :
    ∀ entry ∈ encoder.operands.zip operands,
      entry.1.read (encoder.written operands).word = entry.1.cut entry.2 := by
  have places : (encoder.operands.zip operands).map Prod.fst = encoder.operands :=
    List.map_fst_zip (Nat.le_of_eq count.symm)
  have apart := tidy.apart
  rw [← places, List.pairwise_map] at apart
  exact read_fill (fun entry member => tidy.inside _ (List.of_mem_zip member).1) apart
    fun entry member => tidy.blank _ (List.of_mem_zip member).1

theorem Tidy.holds {fields : List Field} (tidy : encoder.Tidy)
    (places : encoder.operands = fields.map Field.place)
    (count : operands.length = encoder.operands.length) :
    (encoder.written operands).Holds fields operands := by
  intro entry member
  have placed : (entry.1.place, entry.2) ∈ encoder.operands.zip operands := by
    rw [places, List.zip_map_left]
    exact List.mem_map_of_mem member
  rw [Instruction.field_eq, tidy.read_written count _ placed]

end Encoder

/-- An instruction is what a mnemonic and its operands say: it is decoded as the mnemonic, the
fields of its layout hold the operands and nothing else, and what it is decoded to shows these
fields and stands for the word. -/
structure Mnemonic.Describes (mnemonic : Mnemonic) (operands : List DoubleWord)
    (inst : Instruction) : Prop where
  decodes : inst.decode = .operation mnemonic.name mnemonic.form mnemonic.operation
  given : inst.Holds mnemonic.arguments operands
  others : ∀ field ∈ mnemonic.form.fields, field ∉ mnemonic.arguments → field.IsOperand →
    inst.field field = mnemonic.fixed field
  viewed : inst.view = mnemonic.form.view inst.word
  shown : inst.view.fields = mnemonic.form.fields.map inst.field
  whole : inst.view.word = inst.word

theorem Mnemonic.Fits.describes {mnemonic : Mnemonic} {encoder : Encoder}
    {operands : List DoubleWord} (fits : mnemonic.Fits encoder) (tidy : encoder.Tidy)
    (count : operands.length = encoder.operands.length) :
    mnemonic.Describes operands (encoder.written operands) := by
  have decodes : (encoder.written operands).decode = _ :=
    (Instruction.decode_of_deciding fun place member =>
      Encoder.read_written_apart (fits.clear place member)).trans fits.decodes
  have viewed := Instruction.view_of_decode decodes
  refine ⟨decodes, tidy.holds fits.operands count, ?_, viewed, ?_, Instruction.word_view _⟩
  · intro field listed ungiven operand
    obtain ⟨clear, fixed⟩ := fits.others field listed ungiven operand
    rw [Instruction.field_eq, Encoder.read_written_apart clear, ← fixed, Instruction.field_eq]
  · rw [viewed, Form.fields_view]

/-! ## Absolute jumps -/

private theorem region_bit : ∀ bit < 64,
    (0x0fffffff : DoubleWord).getLsbD bit = decide (bit < 28) := by
  decide +kernel

private theorem aligned_bit {target : DoubleWord} (aligned : target % 4 = 0) {bit : Nat}
    (low : bit < 2) : target.getLsbD bit = false := by
  have rest : target.toNat % 2 ^ 2 = 0 := congrArg BitVec.toNat aligned
  have same := Nat.testBit_mod_two_pow target.toNat 2 bit
  rw [rest, decide_eq_true low, Bool.true_and, Nat.zero_testBit] at same
  exact same.symm

/-- A jump goes where it was assembled for, within the region of its delay slot. -/
theorem Instruction.jumpTarget_eq {inst : Instruction} {pc target : DoubleWord}
    (aligned : target % 4 = 0) (near : target >>> 28 = (pc + 4) >>> 28)
    (holds : OperandPlace.target.read inst.word = OperandPlace.target.cut target) :
    inst.jumpTarget pc = target := by
  have kept : inst.word.extractLsb' 0 26 = (target >>> 2).setWidth 26 := holds
  refine BitVec.eq_of_getLsbD_eq fun bit below => ?_
  rw [jumpTarget, kept, BitVec.getLsbD_or, BitVec.getLsbD_and, BitVec.getLsbD_not,
    region_bit bit below, BitVec.getLsbD_shiftLeft, BitVec.zeroExtend, BitVec.getLsbD_setWidth,
    BitVec.getLsbD_setWidth, BitVec.getLsbD_ushiftRight]
  -- The two lowest bits are zero, the word holds those up to bit 27, the delay slot has the rest.
  rcases Nat.lt_or_ge bit 28 with inside | upper
  · by_cases low : bit < 2
    · simp [aligned_bit aligned low, low, inside]
    · have back : 2 + (bit - 2) = bit := by omega
      have fits : bit - 2 < 26 := by omega
      have fits' : bit - 2 < 64 := by omega
      simp only [inside, below, low, back, fits, fits', decide_true, decide_false, Bool.not_true,
        Bool.not_false, Bool.and_false, Bool.false_or, Bool.true_and]
  · have back : 28 + (bit - 28) = bit := by omega
    have same := congrArg (·.getLsbD (bit - 28)) near
    simp only [BitVec.getLsbD_ushiftRight, back] at same
    have beyond : ¬ bit - 2 < 26 := by omega
    have region : ¬ bit < 28 := by omega
    simp only [below, region, beyond, decide_true, decide_false, Bool.not_false, Bool.and_true,
      Bool.false_and, Bool.and_false, Bool.or_false]
    exact same.symm

namespace Interpreter

/-- The guest in the delay slot of a jump. The word of the jump was fetched from an address, and
the jump links or does not. -/
def slotOf {β : Type} [Bus β] (linking : Bool) (guest : Machine β) (physical : Word) :
    Machine β :=
  let fetched := { guest with bus := (Bus.fetch guest.bus physical).2 }
  if linking then fetched.mapCpu (·.writeGpr 31 (guest.cpu.pc + 8)) else fetched

/-- Executing the word at this address goes to a target, behind the instruction in the delay
slot. -/
def GoesTo (β : Type) [Bus β] (linking : Bool) (word : Word) (pc target : DoubleWord) : Prop :=
  ∀ (guest : Machine β) (physical : Word), guest.cpu.pc = pc →
    guest.translate pc .fetch .word = .ok physical → (Bus.fetch guest.bus physical).1 = word →
    let slot := continueAt (slotOf linking guest physical) (pc + 4) (some target)
    step ⟨guest, none⟩ = (.ok (), slot) ∧
      ∀ after, fetchAndPerform (pc + 4) slot.machine = .ok .next after →
        step slot = (.ok (), continueAt after target none)

theorem goesTo_of_decode {β : Type} [Bus β] {linking : Bool} {inst : Instruction} {name : String}
    (decodes : inst.decode = .operation name .jump (if linking then .jumpLink else .jump))
    (pc : DoubleWord) : GoesTo β linking inst.word pc (inst.jumpTarget pc) := by
  rintro guest physical rfl translates word
  have performs : fetchAndPerform guest.cpu.pc guest =
      .ok (.branch (inst.jumpTarget guest.cpu.pc) true false) (slotOf linking guest physical) := by
    rw [fetchAndPerform_fetched translates, word, executeWord, Instruction.legal, decodes]
    cases linking <;> rfl
  exact ⟨step_branch performs, fun after slot => step_next slot⟩

end Interpreter

namespace Encoder

/-- A jump that is assembled is decoded as one, and keeps the address. -/
theorem written_jump {encoder : Encoder} {linking : Bool} (member : encoder ∈ all)
    (named : encoder.name = if linking then "jal" else "j") (target : DoubleWord) :
    [target].length = encoder.operands.length ∧
      (∃ name, (encoder.written [target]).decode =
        .operation name .jump (if linking then .jumpLink else .jump)) ∧
      OperandPlace.target.read (encoder.written [target]).word =
        OperandPlace.target.cut target := by
  have ordinary : encoder.name ∉ Mnemonic.shapes.map Prod.fst := by
    rw [named]
    cases linking <;> decide
  obtain ⟨mnemonic, listed, fits⟩ := Mnemonic.exists_fits member ordinary
  obtain ⟨arguments, form, operation⟩ :=
    Mnemonic.jump_listed mnemonic listed linking (fits.name.trans named)
  have operands : encoder.operands = [OperandPlace.target] := by
    rw [fits.operands, arguments]
    rfl
  have count : [target].length = encoder.operands.length := by
    rw [operands]
    rfl
  have given : (OperandPlace.target, target) ∈ encoder.operands.zip [target] := by
    rw [operands]
    exact List.mem_singleton_self _
  have decodes := (fits.describes (all_tidy encoder member) count).decodes
  rw [form, operation] at decodes
  exact ⟨count, ⟨_, decodes⟩, (all_tidy encoder member).read_written count _ given⟩

/-- Assembled words are decoded. An encoder that has a mnemonic writes what the mnemonic says;
the others write the fields of their shape. A jump that is assembled for an aligned address in the
region of its delay slot goes there. -/
theorem encode_decodes :
    (∀ encoder ∈ all, encoder.name ∉ Mnemonic.shapes.map Prod.fst →
      ∃ mnemonic ∈ Mnemonic.all, mnemonic.encoder = encoder.name ∧
        ∀ operands, operands.length = encoder.operands.length →
          ∃ word, encoder.encode? operands = some word ∧ mnemonic.Describes operands ⟨word⟩) ∧
    (∀ encoder ∈ all, ∀ shape ∈ Mnemonic.shapes, encoder.name = shape.1 →
      ∀ operands, operands.length = encoder.operands.length →
        ∃ word, encoder.encode? operands = some word ∧
          Instruction.Holds ⟨word⟩ shape.2 operands ∧
          (.opcode ∉ shape.2 → Instruction.field ⟨word⟩ .opcode = 0) ∧
          (Instruction.view ⟨word⟩).word = word ∧ ∀ form : Form, (form.view word).word = word) ∧
    (∀ encoder ∈ all, ∀ linking : Bool, encoder.name = (if linking then "jal" else "j") →
      ∀ pc target : DoubleWord, target % 4 = 0 → target >>> 28 = (pc + 4) >>> 28 →
        ∃ word, encoder.encode? [target] = some word ∧
          Instruction.jumpTarget ⟨word⟩ pc = target ∧
          ∀ (β : Type) [Bus β], Interpreter.GoesTo β linking word pc target) := by
  refine ⟨?_, ?_, ?_⟩
  · intro encoder member named
    obtain ⟨mnemonic, listed, fits⟩ := Mnemonic.exists_fits member named
    exact ⟨mnemonic, listed, fits.name, fun operands count =>
      ⟨_, encode?_written count, fits.describes (all_tidy encoder member) count⟩⟩
  · intro encoder member shape listed named operands count
    obtain ⟨places, blank, clear⟩ := Mnemonic.shapes_fit encoder member shape listed named
    refine ⟨_, encode?_written count, (all_tidy encoder member).holds places count, ?_,
      Instruction.word_view _, fun form => form.word_view _⟩
    intro absent
    rw [Instruction.field_eq]
    exact congrArg BitVec.toNat ((read_written_apart (clear absent)).trans (by rw [blank]))
  · intro encoder member linking named pc target aligned near
    obtain ⟨count, ⟨name, decodes⟩, kept⟩ := written_jump member named target
    have goes := Instruction.jumpTarget_eq aligned near kept
    refine ⟨_, encode?_written count, goes, fun β _ => ?_⟩
    have executes := Interpreter.goesTo_of_decode (β := β) decodes pc
    rwa [goes] at executes

def jumpingGuest : Machine Ram :=
  { cpu := { CpuState.reset with pc := 0xffffffff80000008 }
    tlb := .reset
    bus := (Ram.ofSize 64).write 8 .word 0x08000008 }

private def slotPasses : Bool :=
  let slot := Interpreter.continueAt (Interpreter.slotOf false jumpingGuest 8) 0xffffffff8000000c
    (some 0xffffffff80000020)
  match Interpreter.fetchAndPerform 0xffffffff8000000c slot.machine with
  | .ok .next _ => true
  | _ => false

theorem store_and_jump_decode :
    (∃ mnemonic ∈ Mnemonic.all, mnemonic.encoder = "sw" ∧
      mnemonic.Describes [31, 29, 0x14] ⟨0xafbf0014⟩) ∧
    Instruction.Holds ⟨0xafbf0014⟩ [.opcode, .rs, .rt, .immediate] [0x2b, 29, 31, 0x14] ∧
    ∃ after, Interpreter.Steps 2 ⟨jumpingGuest, none⟩
      (Interpreter.continueAt after 0xffffffff80000020 none) := by
  obtain ⟨mnemonics, shapes, jumps⟩ := encode_decodes
  refine ⟨?_, ?_, ?_⟩
  · obtain ⟨mnemonic, listed, named, describes⟩ := mnemonics
      ⟨"sw", 0xac000000, [.rt, .rs, .immediate]⟩ (by decide +kernel) (by decide +kernel)
    obtain ⟨word, written, described⟩ := describes [31, 29, 0x14] rfl
    obtain rfl : 0xafbf0014 = word := Option.some.inj written
    exact ⟨mnemonic, listed, named, described⟩
  · obtain ⟨word, written, holds, -⟩ := shapes
      ⟨"itype", 0, [.opcode, .rs, .rt, .immediate]⟩ (by decide +kernel)
      ("itype", [.opcode, .rs, .rt, .immediate]) (by decide +kernel) rfl
      [0x2b, 29, 31, 0x14] rfl
    obtain rfl : 0xafbf0014 = word := Option.some.inj written
    exact holds
  · obtain ⟨word, written, -, goes⟩ := jumps ⟨"j", 0x08000000, [.target]⟩ (by decide +kernel) false
      rfl 0xffffffff80000008 0xffffffff80000020 (by decide) (by decide)
    obtain rfl : 0x08000008 = word := Option.some.inj written
    obtain ⟨first, second⟩ := goes Ram jumpingGuest 8 rfl (by decide +kernel) (by decide +kernel)
    have passes : slotPasses = true := by decide +kernel
    unfold slotPasses at passes
    dsimp only at passes
    split at passes
    · rename_i performs
      exact ⟨_, .more first (.one (second _ performs))⟩
    · cases passes

end Encoder

end MipsRecompiler
