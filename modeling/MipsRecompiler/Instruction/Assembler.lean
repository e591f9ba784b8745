import MipsRecompiler.Instruction.Fields

/-!
# Assembling instructions

An encoder is a fixed word with places for operands. Every operand is cut to the width of its
place, so any numbers can be given.
-/

set_option autoImplicit false

namespace MipsRecompiler

structure OperandPlace where
  /-- The low bits of the operand that are not kept. -/
  dropped : Nat
  width : Nat
  /-- Where the lowest kept bit goes. -/
  position : Nat
  deriving DecidableEq, Repr, Inhabited

namespace OperandPlace

/-! ## Places -/

def opcode : OperandPlace := ⟨0, 6, 26⟩
def funct : OperandPlace := ⟨0, 6, 0⟩
def rs : OperandPlace := ⟨0, 5, 21⟩
def rt : OperandPlace := ⟨0, 5, 16⟩
def rd : OperandPlace := ⟨0, 5, 11⟩
def shiftAmount : OperandPlace := ⟨0, 5, 6⟩
def ft : OperandPlace := ⟨0, 5, 16⟩
def fs : OperandPlace := ⟨0, 5, 11⟩
def fd : OperandPlace := ⟨0, 5, 6⟩
def condition : OperandPlace := ⟨0, 4, 0⟩

def immediate : OperandPlace := ⟨0, 16, 0⟩

/-- Targets of absolute jumps, given as byte addresses. -/
def target : OperandPlace := ⟨2, 26, 0⟩

/-- The operand's bits at its place. -/
def encode (place : OperandPlace) (operand : DoubleWord) : Word :=
  (((operand >>> place.dropped).setWidth place.width).setWidth 32) <<< place.position

end OperandPlace

structure Encoder where
  name : String
  /-- The word with all operands zero. -/
  base : Word
  /-- The operands in the order in which they are given. -/
  operands : List OperandPlace
  deriving DecidableEq, Repr, Inhabited

namespace Encoder

open OperandPlace

def all : List Encoder := [
  ⟨"itype", 0x00000000, [opcode, rs, rt, immediate]⟩,
  ⟨"rtype", 0x00000000, [rs, rt, rd, shiftAmount, funct]⟩,
  ⟨"nop", 0x00000000, []⟩,
  ⟨"addi", 0x20000000, [rt, rs, immediate]⟩,
  ⟨"addiu", 0x24000000, [rt, rs, immediate]⟩,
  ⟨"slti", 0x28000000, [rt, rs, immediate]⟩,
  ⟨"sltiu", 0x2c000000, [rt, rs, immediate]⟩,
  ⟨"andi", 0x30000000, [rt, rs, immediate]⟩,
  ⟨"ori", 0x34000000, [rt, rs, immediate]⟩,
  ⟨"xori", 0x38000000, [rt, rs, immediate]⟩,
  ⟨"daddi", 0x60000000, [rt, rs, immediate]⟩,
  ⟨"daddiu", 0x64000000, [rt, rs, immediate]⟩,
  ⟨"lui", 0x3c000000, [rt, immediate]⟩,
  ⟨"ldl", 0x68000000, [rt, rs, immediate]⟩,
  ⟨"ldr", 0x6c000000, [rt, rs, immediate]⟩,
  ⟨"lb", 0x80000000, [rt, rs, immediate]⟩,
  ⟨"lh", 0x84000000, [rt, rs, immediate]⟩,
  ⟨"lwl", 0x88000000, [rt, rs, immediate]⟩,
  ⟨"lw", 0x8c000000, [rt, rs, immediate]⟩,
  ⟨"lbu", 0x90000000, [rt, rs, immediate]⟩,
  ⟨"lhu", 0x94000000, [rt, rs, immediate]⟩,
  ⟨"lwr", 0x98000000, [rt, rs, immediate]⟩,
  ⟨"lwu", 0x9c000000, [rt, rs, immediate]⟩,
  ⟨"sb", 0xa0000000, [rt, rs, immediate]⟩,
  ⟨"sh", 0xa4000000, [rt, rs, immediate]⟩,
  ⟨"swl", 0xa8000000, [rt, rs, immediate]⟩,
  ⟨"sw", 0xac000000, [rt, rs, immediate]⟩,
  ⟨"sdl", 0xb0000000, [rt, rs, immediate]⟩,
  ⟨"sdr", 0xb4000000, [rt, rs, immediate]⟩,
  ⟨"swr", 0xb8000000, [rt, rs, immediate]⟩,
  ⟨"cache", 0xbc000000, [rt, rs, immediate]⟩,
  ⟨"ll", 0xc0000000, [rt, rs, immediate]⟩,
  ⟨"lwc1", 0xc4000000, [rt, rs, immediate]⟩,
  ⟨"lld", 0xd0000000, [rt, rs, immediate]⟩,
  ⟨"ldc1", 0xd4000000, [rt, rs, immediate]⟩,
  ⟨"ld", 0xdc000000, [rt, rs, immediate]⟩,
  ⟨"sc", 0xe0000000, [rt, rs, immediate]⟩,
  ⟨"swc1", 0xe4000000, [rt, rs, immediate]⟩,
  ⟨"scd", 0xf0000000, [rt, rs, immediate]⟩,
  ⟨"sdc1", 0xf4000000, [rt, rs, immediate]⟩,
  ⟨"sd", 0xfc000000, [rt, rs, immediate]⟩,
  ⟨"beq", 0x10000000, [rs, rt, immediate]⟩,
  ⟨"bne", 0x14000000, [rs, rt, immediate]⟩,
  ⟨"beql", 0x50000000, [rs, rt, immediate]⟩,
  ⟨"bnel", 0x54000000, [rs, rt, immediate]⟩,
  ⟨"blez", 0x18000000, [rs, immediate]⟩,
  ⟨"bgtz", 0x1c000000, [rs, immediate]⟩,
  ⟨"blezl", 0x58000000, [rs, immediate]⟩,
  ⟨"bgtzl", 0x5c000000, [rs, immediate]⟩,
  ⟨"bltz", 0x04000000, [rs, immediate]⟩,
  ⟨"bgez", 0x04010000, [rs, immediate]⟩,
  ⟨"bltzl", 0x04020000, [rs, immediate]⟩,
  ⟨"bgezl", 0x04030000, [rs, immediate]⟩,
  ⟨"tgei", 0x04080000, [rs, immediate]⟩,
  ⟨"tgeiu", 0x04090000, [rs, immediate]⟩,
  ⟨"tlti", 0x040a0000, [rs, immediate]⟩,
  ⟨"tltiu", 0x040b0000, [rs, immediate]⟩,
  ⟨"teqi", 0x040c0000, [rs, immediate]⟩,
  ⟨"tnei", 0x040e0000, [rs, immediate]⟩,
  ⟨"bltzal", 0x04100000, [rs, immediate]⟩,
  ⟨"bgezal", 0x04110000, [rs, immediate]⟩,
  ⟨"bltzall", 0x04120000, [rs, immediate]⟩,
  ⟨"bgezall", 0x04130000, [rs, immediate]⟩,
  ⟨"j", 0x08000000, [target]⟩,
  ⟨"jal", 0x0c000000, [target]⟩,
  ⟨"jr", 0x00000008, [rs]⟩,
  ⟨"jalr", 0x00000009, [rd, rs]⟩,
  ⟨"syscall", 0x0000000c, []⟩,
  ⟨"brk", 0x0000000d, []⟩,
  ⟨"sync", 0x0000000f, []⟩,
  ⟨"sll", 0x00000000, [rd, rt, shiftAmount]⟩,
  ⟨"srl", 0x00000002, [rd, rt, shiftAmount]⟩,
  ⟨"sra", 0x00000003, [rd, rt, shiftAmount]⟩,
  ⟨"dsll", 0x00000038, [rd, rt, shiftAmount]⟩,
  ⟨"dsrl", 0x0000003a, [rd, rt, shiftAmount]⟩,
  ⟨"dsra", 0x0000003b, [rd, rt, shiftAmount]⟩,
  ⟨"dsll32", 0x0000003c, [rd, rt, shiftAmount]⟩,
  ⟨"dsrl32", 0x0000003e, [rd, rt, shiftAmount]⟩,
  ⟨"dsra32", 0x0000003f, [rd, rt, shiftAmount]⟩,
  ⟨"sllv", 0x00000004, [rd, rt, rs]⟩,
  ⟨"srlv", 0x00000006, [rd, rt, rs]⟩,
  ⟨"srav", 0x00000007, [rd, rt, rs]⟩,
  ⟨"dsllv", 0x00000014, [rd, rt, rs]⟩,
  ⟨"dsrlv", 0x00000016, [rd, rt, rs]⟩,
  ⟨"dsrav", 0x00000017, [rd, rt, rs]⟩,
  ⟨"mfhi", 0x00000010, [rd]⟩,
  ⟨"mthi", 0x00000011, [rs]⟩,
  ⟨"mflo", 0x00000012, [rd]⟩,
  ⟨"mtlo", 0x00000013, [rs]⟩,
  ⟨"mult", 0x00000018, [rs, rt]⟩,
  ⟨"multu", 0x00000019, [rs, rt]⟩,
  ⟨"div", 0x0000001a, [rs, rt]⟩,
  ⟨"divu", 0x0000001b, [rs, rt]⟩,
  ⟨"dmult", 0x0000001c, [rs, rt]⟩,
  ⟨"dmultu", 0x0000001d, [rs, rt]⟩,
  ⟨"ddiv", 0x0000001e, [rs, rt]⟩,
  ⟨"ddivu", 0x0000001f, [rs, rt]⟩,
  ⟨"tge", 0x00000030, [rs, rt]⟩,
  ⟨"tgeu", 0x00000031, [rs, rt]⟩,
  ⟨"tlt", 0x00000032, [rs, rt]⟩,
  ⟨"tltu", 0x00000033, [rs, rt]⟩,
  ⟨"teq", 0x00000034, [rs, rt]⟩,
  ⟨"tne", 0x00000036, [rs, rt]⟩,
  ⟨"add", 0x00000020, [rd, rs, rt]⟩,
  ⟨"addu", 0x00000021, [rd, rs, rt]⟩,
  ⟨"sub", 0x00000022, [rd, rs, rt]⟩,
  ⟨"subu", 0x00000023, [rd, rs, rt]⟩,
  ⟨"and", 0x00000024, [rd, rs, rt]⟩,
  ⟨"or", 0x00000025, [rd, rs, rt]⟩,
  ⟨"xor", 0x00000026, [rd, rs, rt]⟩,
  ⟨"nor", 0x00000027, [rd, rs, rt]⟩,
  ⟨"slt", 0x0000002a, [rd, rs, rt]⟩,
  ⟨"sltu", 0x0000002b, [rd, rs, rt]⟩,
  ⟨"dadd", 0x0000002c, [rd, rs, rt]⟩,
  ⟨"daddu", 0x0000002d, [rd, rs, rt]⟩,
  ⟨"dsub", 0x0000002e, [rd, rs, rt]⟩,
  ⟨"dsubu", 0x0000002f, [rd, rs, rt]⟩,
  ⟨"mfc0", 0x40000000, [rt, rd]⟩,
  ⟨"dmfc0", 0x40200000, [rt, rd]⟩,
  ⟨"mtc0", 0x40800000, [rt, rd]⟩,
  ⟨"dmtc0", 0x40a00000, [rt, rd]⟩,
  ⟨"mfc1", 0x44000000, [rt, rd]⟩,
  ⟨"dmfc1", 0x44200000, [rt, rd]⟩,
  ⟨"cfc1", 0x44400000, [rt, rd]⟩,
  ⟨"mtc1", 0x44800000, [rt, rd]⟩,
  ⟨"dmtc1", 0x44a00000, [rt, rd]⟩,
  ⟨"ctc1", 0x44c00000, [rt, rd]⟩,
  ⟨"tlbr", 0x42000001, []⟩,
  ⟨"tlbwi", 0x42000002, []⟩,
  ⟨"tlbwr", 0x42000006, []⟩,
  ⟨"tlbp", 0x42000008, []⟩,
  ⟨"eret", 0x42000018, []⟩,
  ⟨"bc1f", 0x45000000, [immediate]⟩,
  ⟨"bc1t", 0x45010000, [immediate]⟩,
  ⟨"bc1fl", 0x45020000, [immediate]⟩,
  ⟨"bc1tl", 0x45030000, [immediate]⟩,
  ⟨"add_s", 0x46000000, [fd, fs, ft]⟩,
  ⟨"add_d", 0x46200000, [fd, fs, ft]⟩,
  ⟨"sub_s", 0x46000001, [fd, fs, ft]⟩,
  ⟨"sub_d", 0x46200001, [fd, fs, ft]⟩,
  ⟨"mul_s", 0x46000002, [fd, fs, ft]⟩,
  ⟨"mul_d", 0x46200002, [fd, fs, ft]⟩,
  ⟨"div_s", 0x46000003, [fd, fs, ft]⟩,
  ⟨"div_d", 0x46200003, [fd, fs, ft]⟩,
  ⟨"sqrt_s", 0x46000004, [fd, fs]⟩,
  ⟨"sqrt_d", 0x46200004, [fd, fs]⟩,
  ⟨"abs_s", 0x46000005, [fd, fs]⟩,
  ⟨"abs_d", 0x46200005, [fd, fs]⟩,
  ⟨"mov_s", 0x46000006, [fd, fs]⟩,
  ⟨"mov_d", 0x46200006, [fd, fs]⟩,
  ⟨"neg_s", 0x46000007, [fd, fs]⟩,
  ⟨"neg_d", 0x46200007, [fd, fs]⟩,
  ⟨"round_l_d", 0x46200008, [fd, fs]⟩,
  ⟨"trunc_l_d", 0x46200009, [fd, fs]⟩,
  ⟨"ceil_l_d", 0x4620000a, [fd, fs]⟩,
  ⟨"floor_l_d", 0x4620000b, [fd, fs]⟩,
  ⟨"round_w_s", 0x4600000c, [fd, fs]⟩,
  ⟨"round_w_d", 0x4620000c, [fd, fs]⟩,
  ⟨"trunc_w_s", 0x4600000d, [fd, fs]⟩,
  ⟨"trunc_w_d", 0x4620000d, [fd, fs]⟩,
  ⟨"ceil_w_s", 0x4600000e, [fd, fs]⟩,
  ⟨"ceil_w_d", 0x4620000e, [fd, fs]⟩,
  ⟨"floor_w_s", 0x4600000f, [fd, fs]⟩,
  ⟨"floor_w_d", 0x4620000f, [fd, fs]⟩,
  ⟨"cvt_s_d", 0x46200020, [fd, fs]⟩,
  ⟨"cvt_s_w", 0x46800020, [fd, fs]⟩,
  ⟨"cvt_s_l", 0x46a00020, [fd, fs]⟩,
  ⟨"cvt_d_s", 0x46000021, [fd, fs]⟩,
  ⟨"cvt_d_w", 0x46800021, [fd, fs]⟩,
  ⟨"cvt_d_l", 0x46a00021, [fd, fs]⟩,
  ⟨"cvt_w_s", 0x46000024, [fd, fs]⟩,
  ⟨"cvt_w_d", 0x46200024, [fd, fs]⟩,
  ⟨"cvt_l_s", 0x46000025, [fd, fs]⟩,
  ⟨"cvt_l_d", 0x46200025, [fd, fs]⟩,
  ⟨"c_cond_s", 0x46000030, [condition, fs, ft]⟩,
  ⟨"c_cond_d", 0x46200030, [condition, fs, ft]⟩]

def find? (name : String) : Option Encoder :=
  all.find? fun encoder => encoder.name == name

/-- The instruction word for these operands, if their number is right. -/
def encode? (encoder : Encoder) (operands : List DoubleWord) : Option Word :=
  if operands.length = encoder.operands.length then
    some <| (encoder.operands.zip operands).foldl
      (fun word (place, operand) => word ||| place.encode operand) encoder.base
  else none

end Encoder

end MipsRecompiler
