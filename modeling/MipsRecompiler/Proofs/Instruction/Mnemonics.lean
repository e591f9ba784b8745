import MipsRecompiler.Proofs.Instruction.Places

/-!
# What mnemonics mean

A dictionary of the mnemonics that can be assembled: the operation of each, and the fields that
its operands go to. It is written down without the words of the encoders or the tables of the
decoder, and both are held against it.
-/

set_option autoImplicit false

namespace MipsRecompiler

/-- Whether a field is there for operands: it is neither the operation code nor the function
code. -/
def Field.IsOperand (field : Field) : Prop :=
  field ≠ .opcode ∧ field ≠ .funct

instance : DecidablePred Field.IsOperand := fun _ => inferInstanceAs (Decidable (_ ∧ _))

/-- What an encoder writes, told by its mnemonic. -/
structure Mnemonic where
  encoder : String
  name : String
  form : Form
  operation : Operation
  /-- The operands in the order in which they are given. -/
  arguments : List Field
  /-- The other fields of the layout that are not zero: they tell the instruction from others. -/
  selected : List (Field × Nat) := []
  deriving DecidableEq, Repr

namespace Mnemonic

/-- What stands in a field of the layout that takes no operand. -/
def fixed (mnemonic : Mnemonic) (field : Field) : Nat :=
  (mnemonic.selected.lookup field).getD 0

/-- Instructions that take the same operands. -/
def family (arguments : List Field) (rows : List (String × String × Form × Operation)) :
    List Mnemonic :=
  rows.map fun (encoder, name, form, operation) => { encoder, name, form, operation, arguments }

/-- Instructions of one form that a field tells apart, while others are the same in all. -/
def selectedBy (field : Field) (form : Form) (arguments : List Field)
    (rows : List (String × String × Nat × Operation)) (same : List (Field × Nat) := []) :
    List Mnemonic :=
  rows.map fun (encoder, name, number, operation) =>
    { encoder, name, form, operation, arguments, selected := (field, number) :: same }

def formatCode : FloatFormat → String × Nat
  | .single => ("_s", 16)
  | .double => ("_d", 17)
  | .word => ("_w", 20)
  | .long => ("_l", 21)

/-- Floating point instructions, which come in several formats. -/
def floating (form : Form) (arguments : List Field)
    (rows : List (String × String × Operation × List FloatFormat)) : List Mnemonic :=
  rows.flatMap fun (encoder, name, operation, formats) =>
    formats.map fun format =>
      { encoder := encoder ++ (formatCode format).1, name, form, operation, arguments
        selected := [(.format, (formatCode format).2)] }

def all : List Mnemonic :=
  family [] [("nop", "SLL", .shiftImmediate 0, .shift .left .word)] ++
  family [.rt, .rs, .immediate] [
    ("addi", "ADDI", .immediate true, .addTrapWord),
    ("addiu", "ADDIU", .immediate true, .addWord),
    ("slti", "SLTI", .immediate true, .setLess),
    ("sltiu", "SLTIU", .immediate true, .setLessUnsigned),
    ("andi", "ANDI", .immediate false, .and),
    ("ori", "ORI", .immediate false, .or),
    ("xori", "XORI", .immediate false, .xor),
    ("daddi", "DADDI", .immediate true, .addTrapDouble),
    ("daddiu", "DADDIU", .immediate true, .addDouble)] ++
  family [.rt, .immediate] [("lui", "LUI", .upperImmediate, .insertUpper)] ++
  family [.rt, .rs, .immediate] [
    ("ldl", "LDL", .load, .memoryLeft .double),
    ("ldr", "LDR", .load, .memoryRight .double),
    ("lb", "LB", .load, .memory .byte),
    ("lh", "LH", .load, .memory .half),
    ("lwl", "LWL", .load, .memoryLeft .word),
    ("lw", "LW", .load, .memory .word),
    ("lbu", "LBU", .load, .memoryUnsigned .byte),
    ("lhu", "LHU", .load, .memoryUnsigned .half),
    ("lwr", "LWR", .load, .memoryRight .word),
    ("lwu", "LWU", .load, .memoryUnsigned .word),
    ("sb", "SB", .store, .memory .byte),
    ("sh", "SH", .store, .memory .half),
    ("swl", "SWL", .store, .memoryLeft .word),
    ("sw", "SW", .store, .memory .word),
    ("sdl", "SDL", .store, .memoryLeft .double),
    ("sdr", "SDR", .store, .memoryRight .double),
    ("swr", "SWR", .store, .memoryRight .word),
    ("cache", "CACHE", .cache, .cacheControl),
    ("ll", "LL", .load, .memoryLinked .word),
    ("lwc1", "LWC1", .floatLoad, .floatMemory .word),
    ("lld", "LLD", .load, .memoryLinked .double),
    ("ldc1", "LDC1", .floatLoad, .floatMemory .double),
    ("ld", "LD", .load, .memory .double),
    ("sc", "SC", .store, .memoryLinked .word),
    ("swc1", "SWC1", .floatStore, .floatMemory .word),
    ("scd", "SCD", .store, .memoryLinked .double),
    ("sdc1", "SDC1", .floatStore, .floatMemory .double),
    ("sd", "SD", .store, .memory .double)] ++
  family [.rs, .rt, .immediate] [
    ("beq", "BEQ", .branchTwo, .branch .eq),
    ("bne", "BNE", .branchTwo, .branch .ne),
    ("beql", "BEQL", .branchTwo, .branchLikely .eq),
    ("bnel", "BNEL", .branchTwo, .branchLikely .ne)] ++
  family [.rs, .immediate] [
    ("blez", "BLEZ", .branchOne, .branch .le),
    ("bgtz", "BGTZ", .branchOne, .branch .gt),
    ("blezl", "BLEZL", .branchOne, .branchLikely .le),
    ("bgtzl", "BGTZL", .branchOne, .branchLikely .gt)] ++
  selectedBy .rt .branchSelected [.rs, .immediate] [
    ("bltz", "BLTZ", 0x00, .branch .lt),
    ("bgez", "BGEZ", 0x01, .branch .ge),
    ("bltzl", "BLTZL", 0x02, .branchLikely .lt),
    ("bgezl", "BGEZL", 0x03, .branchLikely .ge)] ++
  selectedBy .rt (.trapImmediate true) [.rs, .immediate] [("tgei", "TGEI", 0x08, .trap .ge)] ++
  selectedBy .rt (.trapImmediate false) [.rs, .immediate] [("tgeiu", "TGEIU", 0x09, .trap .geU)] ++
  selectedBy .rt (.trapImmediate true) [.rs, .immediate] [("tlti", "TLTI", 0x0a, .trap .lt)] ++
  selectedBy .rt (.trapImmediate false) [.rs, .immediate] [("tltiu", "TLTIU", 0x0b, .trap .ltU)] ++
  selectedBy .rt (.trapImmediate true) [.rs, .immediate] [
    ("teqi", "TEQI", 0x0c, .trap .eq),
    ("tnei", "TNEI", 0x0e, .trap .ne)] ++
  selectedBy .rt .branchSelected [.rs, .immediate] [
    ("bltzal", "BLTZAL", 0x10, .branchLink .lt),
    ("bgezal", "BGEZAL", 0x11, .branchLink .ge),
    ("bltzall", "BLTZALL", 0x12, .branchLinkLikely .lt),
    ("bgezall", "BGEZALL", 0x13, .branchLinkLikely .ge)] ++
  family [.target] [("j", "J", .jump, .jump), ("jal", "JAL", .jump, .jumpLink)] ++
  family [.rs] [("jr", "JR", .jumpRegister, .jumpRegister)] ++
  family [.rd, .rs] [("jalr", "JALR", .jumpRegisterLink, .jumpRegisterLink)] ++
  family [] [
    ("syscall", "SYSCALL", .exception, .systemCall),
    ("brk", "BREAK", .exception, .breakpoint),
    ("sync", "SYNC", .bare, .nop)] ++
  family [.rd, .rt, .shiftAmount] [
    ("sll", "SLL", .shiftImmediate 0, .shift .left .word),
    ("srl", "SRL", .shiftImmediate 0, .shift .rightLogical .word),
    ("sra", "SRA", .shiftImmediate 0, .shift .rightArith .word),
    ("dsll", "DSLL", .shiftImmediate 0, .shift .left .double),
    ("dsrl", "DSRL", .shiftImmediate 0, .shift .rightLogical .double),
    ("dsra", "DSRA", .shiftImmediate 0, .shift .rightArith .double),
    ("dsll32", "DSLL32", .shiftImmediate 32, .shift .left .double),
    ("dsrl32", "DSRL32", .shiftImmediate 32, .shift .rightLogical .double),
    ("dsra32", "DSRA32", .shiftImmediate 32, .shift .rightArith .double)] ++
  family [.rd, .rt, .rs] [
    ("sllv", "SLLV", .shiftRegister, .shift .left .word),
    ("srlv", "SRLV", .shiftRegister, .shift .rightLogical .word),
    ("srav", "SRAV", .shiftRegister, .shift .rightArith .word),
    ("dsllv", "DSLLV", .shiftRegister, .shift .left .double),
    ("dsrlv", "DSRLV", .shiftRegister, .shift .rightLogical .double),
    ("dsrav", "DSRAV", .shiftRegister, .shift .rightArith .double)] ++
  family [.rd] [("mfhi", "MFHI", .moveFrom, .moveFromProduct .hi)] ++
  family [.rs] [("mthi", "MTHI", .moveTo, .moveToProduct .hi)] ++
  family [.rd] [("mflo", "MFLO", .moveFrom, .moveFromProduct .lo)] ++
  family [.rs] [("mtlo", "MTLO", .moveTo, .moveToProduct .lo)] ++
  family [.rs, .rt] [
    ("mult", "MULT", .mulDiv, .mulDiv .mult),
    ("multu", "MULTU", .mulDiv, .mulDiv .multU),
    ("div", "DIV", .mulDiv, .mulDiv .div),
    ("divu", "DIVU", .mulDiv, .mulDiv .divU),
    ("dmult", "DMULT", .mulDiv, .mulDiv .dMult),
    ("dmultu", "DMULTU", .mulDiv, .mulDiv .dMultU),
    ("ddiv", "DDIV", .mulDiv, .mulDiv .dDiv),
    ("ddivu", "DDIVU", .mulDiv, .mulDiv .dDivU),
    ("tge", "TGE", .trapTwo, .trap .ge),
    ("tgeu", "TGEU", .trapTwo, .trap .geU),
    ("tlt", "TLT", .trapTwo, .trap .lt),
    ("tltu", "TLTU", .trapTwo, .trap .ltU),
    ("teq", "TEQ", .trapTwo, .trap .eq),
    ("tne", "TNE", .trapTwo, .trap .ne)] ++
  family [.rd, .rs, .rt] [
    ("add", "ADD", .threeRegisters, .addTrapWord),
    ("addu", "ADDU", .threeRegisters, .addWord),
    ("sub", "SUB", .threeRegisters, .subTrapWord),
    ("subu", "SUBU", .threeRegisters, .subWord),
    ("and", "AND", .threeRegisters, .and),
    ("or", "OR", .threeRegisters, .or),
    ("xor", "XOR", .threeRegisters, .xor),
    ("nor", "NOR", .threeRegisters, .nor),
    ("slt", "SLT", .threeRegisters, .setLess),
    ("sltu", "SLTU", .threeRegisters, .setLessUnsigned),
    ("dadd", "DADD", .threeRegisters, .addTrapDouble),
    ("daddu", "DADDU", .threeRegisters, .addDouble),
    ("dsub", "DSUB", .threeRegisters, .subTrapDouble),
    ("dsubu", "DSUBU", .threeRegisters, .subDouble)] ++
  selectedBy .rs (.coprocessor 0) [.rt, .rd] [
    ("mfc0", "MFC0", 0, .moveFromControl false),
    ("dmfc0", "DMFC0", 1, .moveFromControl true),
    ("mtc0", "MTC0", 4, .moveToControl false),
    ("dmtc0", "DMTC0", 5, .moveToControl true)] ++
  selectedBy .rs (.coprocessor 1) [.rt, .rd] [
    ("mfc1", "MFC1", 0, .moveFromFloat false),
    ("dmfc1", "DMFC1", 1, .moveFromFloat true),
    ("cfc1", "CFC1", 2, .moveFromFloatControl),
    ("mtc1", "MTC1", 4, .moveToFloat false),
    ("dmtc1", "DMTC1", 5, .moveToFloat true),
    ("ctc1", "CTC1", 6, .moveToFloatControl)] ++
  selectedBy .rs .bare [] [
    ("tlbr", "TLBR", 16, .tlbRead),
    ("tlbwi", "TLBWI", 16, .tlbWriteIndexed),
    ("tlbwr", "TLBWR", 16, .tlbWriteRandom),
    ("tlbp", "TLBP", 16, .tlbProbe),
    ("eret", "ERET", 16, .exceptionReturn)] ++
  selectedBy .rt .floatBranch [.immediate] [
    ("bc1f", "BC1F", 0, .branchFloat false false),
    ("bc1t", "BC1T", 1, .branchFloat true false),
    ("bc1fl", "BC1FL", 2, .branchFloat false true),
    ("bc1tl", "BC1TL", 3, .branchFloat true true)] [(.rs, 8)] ++
  floating .floatThree [.fd, .fs, .ft] [
    ("add", "ADD", .floatArithmetic .add, [.single, .double]),
    ("sub", "SUB", .floatArithmetic .sub, [.single, .double]),
    ("mul", "MUL", .floatArithmetic .mul, [.single, .double]),
    ("div", "DIV", .floatArithmetic .div, [.single, .double])] ++
  floating .floatTwo [.fd, .fs] [
    ("sqrt", "SQRT", .floatUnary .sqrt, [.single, .double]),
    ("abs", "ABS", .floatUnary .abs, [.single, .double]),
    ("mov", "MOV", .floatMove, [.single, .double]),
    ("neg", "NEG", .floatUnary .neg, [.single, .double]),
    ("round_l", "ROUND.L", .floatConvert .long .nearest, [.double]),
    ("trunc_l", "TRUNC.L", .floatConvert .long .truncate, [.double]),
    ("ceil_l", "CEIL.L", .floatConvert .long .ceil, [.double]),
    ("floor_l", "FLOOR.L", .floatConvert .long .floor, [.double]),
    ("round_w", "ROUND.W", .floatConvert .word .nearest, [.single, .double]),
    ("trunc_w", "TRUNC.W", .floatConvert .word .truncate, [.single, .double]),
    ("ceil_w", "CEIL.W", .floatConvert .word .ceil, [.single, .double]),
    ("floor_w", "FLOOR.W", .floatConvert .word .floor, [.single, .double]),
    ("cvt_s", "CVT.S", .floatConvert .single .nearest, [.double, .word, .long]),
    ("cvt_d", "CVT.D", .floatConvert .double .nearest, [.single, .word, .long]),
    ("cvt_w", "CVT.W", .floatConvert .word .nearest, [.single, .double]),
    ("cvt_l", "CVT.L", .floatConvert .long .nearest, [.single, .double])] ++
  floating .floatCompare [.condition, .fs, .ft] [
    ("c_cond", "C", .floatCompare, [.single, .double])]

/-! ## The dictionary and the encoders -/

/-- An encoder writes this mnemonic. Its word without operands is decoded as the mnemonic says,
and the operands stand clear of what decides that, and of the other fields of the layout. -/
structure Fits (mnemonic : Mnemonic) (encoder : Encoder) : Prop where
  name : mnemonic.encoder = encoder.name
  operands : encoder.operands = mnemonic.arguments.map Field.place
  decodes : (⟨encoder.base⟩ : Instruction).decode =
    .operation mnemonic.name mnemonic.form mnemonic.operation
  clear : ∀ place ∈ (⟨encoder.base⟩ : Instruction).deciding, ∀ other ∈ encoder.operands,
    place.Apart other
  others : ∀ field ∈ mnemonic.form.fields, field ∉ mnemonic.arguments → field.IsOperand →
    (∀ other ∈ encoder.operands, field.place.Apart other) ∧
      (⟨encoder.base⟩ : Instruction).field field = mnemonic.fixed field

instance (mnemonic : Mnemonic) (encoder : Encoder) : Decidable (mnemonic.Fits encoder) :=
  decidable_of_iff
    (mnemonic.encoder = encoder.name ∧ encoder.operands = mnemonic.arguments.map Field.place ∧
      (⟨encoder.base⟩ : Instruction).decode =
        .operation mnemonic.name mnemonic.form mnemonic.operation ∧
      (∀ place ∈ (⟨encoder.base⟩ : Instruction).deciding, ∀ other ∈ encoder.operands,
        place.Apart other) ∧
      ∀ field ∈ mnemonic.form.fields, field ∉ mnemonic.arguments → field.IsOperand →
        (∀ other ∈ encoder.operands, field.place.Apart other) ∧
          (⟨encoder.base⟩ : Instruction).field field = mnemonic.fixed field)
    ⟨fun ⟨name, operands, decodes, clear, others⟩ => ⟨name, operands, decodes, clear, others⟩,
      fun ⟨name, operands, decodes, clear, others⟩ => ⟨name, operands, decodes, clear, others⟩⟩

/-- The encoders that write any word of a common shape, and the fields that they are given. They
are the first two. -/
def shapes : List (String × List Field) := [
  ("itype", [.opcode, .rs, .rt, .immediate]),
  ("rtype", [.rs, .rt, .rd, .shiftAmount, .funct])]

/-- The dictionary has the other encoders in their order. -/
private theorem all_fits :
    all.length = (Encoder.all.drop 2).length ∧
      ∀ entry ∈ all.zip (Encoder.all.drop 2), entry.1.Fits entry.2 := by
  decide +kernel

/-- Every encoder is in the dictionary, except for those that write common shapes. -/
theorem exists_fits {encoder : Encoder} (member : encoder ∈ Encoder.all)
    (named : encoder.name ∉ shapes.map Prod.fst) : ∃ mnemonic ∈ all, mnemonic.Fits encoder := by
  obtain ⟨lengths, fits⟩ := all_fits
  have split : Encoder.all = Encoder.all.take 2 ++ Encoder.all.drop 2 :=
    (List.take_append_drop 2 _).symm
  have early : ∀ shape ∈ Encoder.all.take 2, shape.name ∈ shapes.map Prod.fst := by
    decide +kernel
  rw [split, List.mem_append] at member
  have listed := member.resolve_left fun shape => named (early encoder shape)
  rw [← List.map_snd_zip (Nat.le_of_eq lengths.symm), List.mem_map] at listed
  obtain ⟨⟨mnemonic, _⟩, paired, rfl⟩ := listed
  exact ⟨mnemonic, (List.of_mem_zip paired).1, fits _ paired⟩

/-- The encoders of common shapes have a place for each of their fields, and no operation code of
their own. -/
theorem shapes_fit : ∀ encoder ∈ Encoder.all, ∀ shape ∈ shapes, encoder.name = shape.1 →
    encoder.operands = shape.2.map Field.place ∧ encoder.base = 0 ∧
      (.opcode ∉ shape.2 → ∀ other ∈ encoder.operands, OperandPlace.opcode.Apart other) := by
  decide +kernel

theorem jump_listed : ∀ mnemonic ∈ all, ∀ linking : Bool,
    mnemonic.encoder = (if linking then "jal" else "j") →
      mnemonic.arguments = [.target] ∧ mnemonic.form = .jump ∧
        mnemonic.operation = if linking then .jumpLink else .jump := by
  decide +kernel

end Mnemonic

end MipsRecompiler
