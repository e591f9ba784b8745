import MipsRecompiler.Cpu.RegisterFile

/-!
# Register names

The names under which listings show general, floating point and system control registers.
-/

set_option autoImplicit false

namespace MipsRecompiler

namespace RegisterNumber

def generalNames : Vector String 32 :=
  #v["$zero", "$at", "$v0", "$v1", "$a0", "$a1", "$a2", "$a3",
     "$t0", "$t1", "$t2", "$t3", "$t4", "$t5", "$t6", "$t7",
     "$s0", "$s1", "$s2", "$s3", "$s4", "$s5", "$s6", "$s7",
     "$t8", "$t9", "$k0", "$k1", "$gp", "$sp", "$fp", "$ra"]

def controlNames : Vector String 32 :=
  #v["Index", "Random", "EntryLo0", "EntryLo1", "Context", "PageMask", "Wired", "unk7",
     "BadVAddr", "Count", "EntryHi", "Compare", "Status", "Cause", "EPC", "PRId",
     "Config", "LLAddr", "WatchLo", "WatchHi", "XContext", "unk21", "unk22", "unk23",
     "unk24", "unk25", "Parity Error", "Cache Error", "TagLo", "TagHi", "ErrorEPC", "unk31"]

def generalName (reg : RegisterNumber) : String :=
  generalNames.get reg

def floatName (reg : RegisterNumber) : String :=
  "$f" ++ toString reg.val

def controlName (reg : RegisterNumber) : String :=
  controlNames.get reg

end RegisterNumber

end MipsRecompiler
