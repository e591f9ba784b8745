import MipsRecompiler.Instruction.Fields
import MipsRecompiler.Instruction.Operation

/-!
# Decoding

Which operation a word stands for. The main operation code selects an entry, or one of the
subordinate tables, which other fields index.
-/

set_option autoImplicit false

namespace MipsRecompiler

inductive Decoded where
  /-- No processor of this family executes the word. -/
  | reserved
  /-- The word has a meaning that is not supported. -/
  | unimplemented (name : String)
  | operation (name : String) (form : Form) (operation : Operation)
  deriving DecidableEq, Repr, Inhabited

namespace Decoded

def name : Decoded → String
  | reserved => "Reserved"
  | unimplemented name => name
  | operation name _ _ => name

end Decoded

namespace Instruction

/-- Instructions that the function code selects. -/
def special (funct : Nat) : Decoded :=
  match funct with
  | 0x00 => .operation "SLL" (.shiftImmediate 0) (.shift .left .word)
  | 0x02 => .operation "SRL" (.shiftImmediate 0) (.shift .rightLogical .word)
  | 0x03 => .operation "SRA" (.shiftImmediate 0) (.shift .rightArith .word)
  | 0x04 => .operation "SLLV" .shiftRegister (.shift .left .word)
  | 0x06 => .operation "SRLV" .shiftRegister (.shift .rightLogical .word)
  | 0x07 => .operation "SRAV" .shiftRegister (.shift .rightArith .word)
  | 0x08 => .operation "JR" .jumpRegister .jumpRegister
  | 0x09 => .operation "JALR" .jumpRegisterLink .jumpRegisterLink
  | 0x0c => .operation "SYSCALL" .exception .systemCall
  | 0x0d => .operation "BREAK" .exception .breakpoint
  | 0x0f => .operation "SYNC" .bare .nop
  | 0x10 => .operation "MFHI" .moveFrom (.moveFromProduct .hi)
  | 0x11 => .operation "MTHI" .moveTo (.moveToProduct .hi)
  | 0x12 => .operation "MFLO" .moveFrom (.moveFromProduct .lo)
  | 0x13 => .operation "MTLO" .moveTo (.moveToProduct .lo)
  | 0x14 => .operation "DSLLV" .shiftRegister (.shift .left .double)
  | 0x16 => .operation "DSRLV" .shiftRegister (.shift .rightLogical .double)
  | 0x17 => .operation "DSRAV" .shiftRegister (.shift .rightArith .double)
  | 0x18 => .operation "MULT" .mulDiv (.mulDiv .mult)
  | 0x19 => .operation "MULTU" .mulDiv (.mulDiv .multU)
  | 0x1a => .operation "DIV" .mulDiv (.mulDiv .div)
  | 0x1b => .operation "DIVU" .mulDiv (.mulDiv .divU)
  | 0x1c => .operation "DMULT" .mulDiv (.mulDiv .dMult)
  | 0x1d => .operation "DMULTU" .mulDiv (.mulDiv .dMultU)
  | 0x1e => .operation "DDIV" .mulDiv (.mulDiv .dDiv)
  | 0x1f => .operation "DDIVU" .mulDiv (.mulDiv .dDivU)
  | 0x20 => .operation "ADD" .threeRegisters .addTrapWord
  | 0x21 => .operation "ADDU" .threeRegisters .addWord
  | 0x22 => .operation "SUB" .threeRegisters .subTrapWord
  | 0x23 => .operation "SUBU" .threeRegisters .subWord
  | 0x24 => .operation "AND" .threeRegisters .and
  | 0x25 => .operation "OR" .threeRegisters .or
  | 0x26 => .operation "XOR" .threeRegisters .xor
  | 0x27 => .operation "NOR" .threeRegisters .nor
  | 0x2a => .operation "SLT" .threeRegisters .setLess
  | 0x2b => .operation "SLTU" .threeRegisters .setLessUnsigned
  | 0x2c => .operation "DADD" .threeRegisters .addTrapDouble
  | 0x2d => .operation "DADDU" .threeRegisters .addDouble
  | 0x2e => .operation "DSUB" .threeRegisters .subTrapDouble
  | 0x2f => .operation "DSUBU" .threeRegisters .subDouble
  | 0x30 => .operation "TGE" .trapTwo (.trap .ge)
  | 0x31 => .operation "TGEU" .trapTwo (.trap .geU)
  | 0x32 => .operation "TLT" .trapTwo (.trap .lt)
  | 0x33 => .operation "TLTU" .trapTwo (.trap .ltU)
  | 0x34 => .operation "TEQ" .trapTwo (.trap .eq)
  | 0x36 => .operation "TNE" .trapTwo (.trap .ne)
  | 0x38 => .operation "DSLL" (.shiftImmediate 0) (.shift .left .double)
  | 0x3a => .operation "DSRL" (.shiftImmediate 0) (.shift .rightLogical .double)
  | 0x3b => .operation "DSRA" (.shiftImmediate 0) (.shift .rightArith .double)
  | 0x3c => .operation "DSLL32" (.shiftImmediate 32) (.shift .left .double)
  | 0x3e => .operation "DSRL32" (.shiftImmediate 32) (.shift .rightLogical .double)
  | 0x3f => .operation "DSRA32" (.shiftImmediate 32) (.shift .rightArith .double)
  | _ => .reserved

def selected (rt : Nat) : Decoded :=
  match rt with
  | 0x00 => .operation "BLTZ" .branchSelected (.branch .lt)
  | 0x01 => .operation "BGEZ" .branchSelected (.branch .ge)
  | 0x02 => .operation "BLTZL" .branchSelected (.branchLikely .lt)
  | 0x03 => .operation "BGEZL" .branchSelected (.branchLikely .ge)
  | 0x08 => .operation "TGEI" (.trapImmediate true) (.trap .ge)
  | 0x09 => .operation "TGEIU" (.trapImmediate false) (.trap .geU)
  | 0x0a => .operation "TLTI" (.trapImmediate true) (.trap .lt)
  | 0x0b => .operation "TLTIU" (.trapImmediate false) (.trap .ltU)
  | 0x0c => .operation "TEQI" (.trapImmediate true) (.trap .eq)
  | 0x0e => .operation "TNEI" (.trapImmediate true) (.trap .ne)
  | 0x10 => .operation "BLTZAL" .branchSelected (.branchLink .lt)
  | 0x11 => .operation "BGEZAL" .branchSelected (.branchLink .ge)
  | 0x12 => .operation "BLTZALL" .branchSelected (.branchLinkLikely .lt)
  | 0x13 => .operation "BGEZALL" .branchSelected (.branchLinkLikely .ge)
  | _ => .reserved

def controlMove (rs : Nat) : Decoded :=
  match rs with
  | 0 => .operation "MFC0" (.coprocessor 0) (.moveFromControl false)
  | 1 => .operation "DMFC0" (.coprocessor 0) (.moveFromControl true)
  | 2 => .unimplemented "CFC0"
  | 4 => .operation "MTC0" (.coprocessor 0) (.moveToControl false)
  | 5 => .operation "DMTC0" (.coprocessor 0) (.moveToControl true)
  | 6 => .unimplemented "CTC0"
  | 8 => .unimplemented "BCC0"
  | _ => .reserved

def controlFunction (funct : Nat) : Decoded :=
  match funct with
  | 0x01 => .operation "TLBR" .bare .tlbRead
  | 0x02 => .operation "TLBWI" .bare .tlbWriteIndexed
  | 0x06 => .operation "TLBWR" .bare .tlbWriteRandom
  | 0x08 => .operation "TLBP" .bare .tlbProbe
  | 0x18 => .operation "ERET" .bare .exceptionReturn
  | _ => .reserved

def floatBranch (kind : Nat) : Decoded :=
  match kind with
  | 0 => .operation "BC1F" .floatBranch (.branchFloat false false)
  | 1 => .operation "BC1T" .floatBranch (.branchFloat true false)
  | 2 => .operation "BC1FL" .floatBranch (.branchFloat false true)
  | _ => .operation "BC1TL" .floatBranch (.branchFloat true true)

def floatFunction (funct : Nat) : Decoded :=
  match funct with
  | 0x00 => .operation "ADD" .floatThree (.floatArithmetic .add)
  | 0x01 => .operation "SUB" .floatThree (.floatArithmetic .sub)
  | 0x02 => .operation "MUL" .floatThree (.floatArithmetic .mul)
  | 0x03 => .operation "DIV" .floatThree (.floatArithmetic .div)
  | 0x04 => .operation "SQRT" .floatTwo (.floatUnary .sqrt)
  | 0x05 => .operation "ABS" .floatTwo (.floatUnary .abs)
  | 0x06 => .operation "MOV" .floatTwo .floatMove
  | 0x07 => .operation "NEG" .floatTwo (.floatUnary .neg)
  | 0x08 => .operation "ROUND.L" .floatTwo (.floatConvert .long .nearest)
  | 0x09 => .operation "TRUNC.L" .floatTwo (.floatConvert .long .truncate)
  | 0x0a => .operation "CEIL.L" .floatTwo (.floatConvert .long .ceil)
  | 0x0b => .operation "FLOOR.L" .floatTwo (.floatConvert .long .floor)
  | 0x0c => .operation "ROUND.W" .floatTwo (.floatConvert .word .nearest)
  | 0x0d => .operation "TRUNC.W" .floatTwo (.floatConvert .word .truncate)
  | 0x0e => .operation "CEIL.W" .floatTwo (.floatConvert .word .ceil)
  | 0x0f => .operation "FLOOR.W" .floatTwo (.floatConvert .word .floor)
  | 0x20 => .operation "CVT.S" .floatTwo (.floatConvert .single .nearest)
  | 0x21 => .operation "CVT.D" .floatTwo (.floatConvert .double .nearest)
  | 0x24 => .operation "CVT.W" .floatTwo (.floatConvert .word .nearest)
  | 0x25 => .operation "CVT.L" .floatTwo (.floatConvert .long .nearest)
  | _ => if 0x30 ≤ funct then .operation "C" .floatCompare .floatCompare else .reserved

def float (inst : Instruction) : Decoded :=
  match inst.rs.val with
  | 0x00 => .operation "MFC1" (.coprocessor 1) (.moveFromFloat false)
  | 0x01 => .operation "DMFC1" (.coprocessor 1) (.moveFromFloat true)
  | 0x02 => .operation "CFC1" (.coprocessor 1) .moveFromFloatControl
  | 0x04 => .operation "MTC1" (.coprocessor 1) (.moveToFloat false)
  | 0x05 => .operation "DMTC1" (.coprocessor 1) (.moveToFloat true)
  | 0x06 => .operation "CTC1" (.coprocessor 1) .moveToFloatControl
  | 0x08 => floatBranch (inst.rt.val % 4)
  | 0x10 | 0x11 | 0x14 | 0x15 => floatFunction inst.funct.val
  | _ => .reserved

def decode (inst : Instruction) : Decoded :=
  match inst.opcode.val with
  | 0x00 => special inst.funct.val
  | 0x01 => selected inst.rt.val
  | 0x02 => .operation "J" .jump .jump
  | 0x03 => .operation "JAL" .jump .jumpLink
  | 0x04 => .operation "BEQ" .branchTwo (.branch .eq)
  | 0x05 => .operation "BNE" .branchTwo (.branch .ne)
  | 0x06 => .operation "BLEZ" .branchOne (.branch .le)
  | 0x07 => .operation "BGTZ" .branchOne (.branch .gt)
  | 0x08 => .operation "ADDI" (.immediate true) .addTrapWord
  | 0x09 => .operation "ADDIU" (.immediate true) .addWord
  | 0x0a => .operation "SLTI" (.immediate true) .setLess
  | 0x0b => .operation "SLTIU" (.immediate true) .setLessUnsigned
  | 0x0c => .operation "ANDI" (.immediate false) .and
  | 0x0d => .operation "ORI" (.immediate false) .or
  | 0x0e => .operation "XORI" (.immediate false) .xor
  | 0x0f => .operation "LUI" .upperImmediate .insertUpper
  | 0x10 => if inst.rs.val < 16 then controlMove inst.rs.val else controlFunction inst.funct.val
  | 0x11 => float inst
  | 0x12 => .unimplemented "COP2"
  | 0x14 => .operation "BEQL" .branchTwo (.branchLikely .eq)
  | 0x15 => .operation "BNEL" .branchTwo (.branchLikely .ne)
  | 0x16 => .operation "BLEZL" .branchOne (.branchLikely .le)
  | 0x17 => .operation "BGTZL" .branchOne (.branchLikely .gt)
  | 0x18 => .operation "DADDI" (.immediate true) .addTrapDouble
  | 0x19 => .operation "DADDIU" (.immediate true) .addDouble
  | 0x1a => .operation "LDL" .load (.memoryLeft .double)
  | 0x1b => .operation "LDR" .load (.memoryRight .double)
  | 0x20 => .operation "LB" .load (.memory .byte)
  | 0x21 => .operation "LH" .load (.memory .half)
  | 0x22 => .operation "LWL" .load (.memoryLeft .word)
  | 0x23 => .operation "LW" .load (.memory .word)
  | 0x24 => .operation "LBU" .load (.memoryUnsigned .byte)
  | 0x25 => .operation "LHU" .load (.memoryUnsigned .half)
  | 0x26 => .operation "LWR" .load (.memoryRight .word)
  | 0x27 => .operation "LWU" .load (.memoryUnsigned .word)
  | 0x28 => .operation "SB" .store (.memory .byte)
  | 0x29 => .operation "SH" .store (.memory .half)
  | 0x2a => .operation "SWL" .store (.memoryLeft .word)
  | 0x2b => .operation "SW" .store (.memory .word)
  | 0x2c => .operation "SDL" .store (.memoryLeft .double)
  | 0x2d => .operation "SDR" .store (.memoryRight .double)
  | 0x2e => .operation "SWR" .store (.memoryRight .word)
  | 0x2f => .operation "CACHE" .cache .cacheControl
  | 0x30 => .operation "LL" .load (.memoryLinked .word)
  | 0x31 => .operation "LWC1" .floatLoad (.floatMemory .word)
  | 0x32 => .unimplemented "LWC2"
  | 0x34 => .operation "LLD" .load (.memoryLinked .double)
  | 0x35 => .operation "LDC1" .floatLoad (.floatMemory .double)
  | 0x36 => .unimplemented "LDC2"
  | 0x37 => .operation "LD" .load (.memory .double)
  | 0x38 => .operation "SC" .store (.memoryLinked .word)
  | 0x39 => .operation "SWC1" .floatStore (.floatMemory .word)
  | 0x3a => .unimplemented "SWC2"
  | 0x3c => .operation "SCD" .store (.memoryLinked .double)
  | 0x3d => .operation "SDC1" .floatStore (.floatMemory .double)
  | 0x3e => .unimplemented "SDC2"
  | 0x3f => .operation "SD" .store (.memory .double)
  | _ => .reserved

end Instruction

end MipsRecompiler
