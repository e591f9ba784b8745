import MipsRecompiler.Ir.Value

/-!
# Host platforms

The registers that values can be given, and the constants that need none. Registers that the
host needs for itself are not listed.
-/

set_option autoImplicit false

namespace MipsRecompiler

structure HostRegister where
  id : UInt8
  name : String
  preserved : Bool
  deriving DecidableEq, Repr, Inhabited

/-- Which constants can stand in an instruction. -/
inductive ImmediateRule where
  /-- Those of a type that extends from at most 32 bits with its sign, and small unsigned ones. -/
  | signExtended32
  | unsigned (bits : Nat)
  deriving DecidableEq, Repr, Inhabited

structure Platform where
  name : String
  /-- General registers, in the order in which they are handed out. -/
  general : List HostRegister
  float : List HostRegister
  immediates : ImmediateRule
  deriving DecidableEq, Repr, Inhabited

namespace Platform

open Ir (RegisterClass ValueType)

def registers (platform : Platform) : RegisterClass → List HostRegister
  | .general => platform.general
  | .float => platform.float

def isImmediate (platform : Platform) (type : ValueType) (value : DoubleWord) : Bool :=
  match platform.immediates with
  | .signExtended32 =>
    match type with
    | .s8 | .u8 | .s16 | .u16 | .s32 => true
    | .u32 | .u64 => false
  | .unsigned bits => value >>> bits = 0

end Platform

inductive PlatformKind where
  | x86_64
  | aarch64
  deriving DecidableEq, Repr, Inhabited

namespace PlatformKind

/-- Registers that are named by a mark and their number, of which the lower ones are preserved. -/
def numbered (mark : String) (preservedBelow : Nat) (ids : List Nat) :
    List HostRegister :=
  ids.map fun id =>
    { id := id.toUInt8, name := mark ++ toString id, preserved := id < preservedBelow }

def platform : PlatformKind → Platform
  | .x86_64 =>
    { name := "x86_64"
      general := [⟨3, "rbx", true⟩, ⟨5, "rbp", true⟩] ++ numbered "r" 16 [12, 13, 14, 15]
      float := numbered "xmm" 0 (List.range 16)
      immediates := .signExtended32 }
  | .aarch64 =>
    { name := "aarch64"
      general := numbered "x" 29 (List.range' 19 10)
      float := numbered "v" 16 (List.range' 8 24)
      immediates := .unsigned 12 }

/-- The platform that a name stands for, in any case. -/
def parse (text : String) : Except String PlatformKind :=
  let lower := text.map Char.toLower
  if ["x86_64", "x86-64", "amd64"].contains lower then .ok .x86_64
  else if ["aarch64", "arm64"].contains lower then .ok .aarch64
  else .error ("unknown platform '" ++ lower ++ "' (expected x86_64 or aarch64)")

end PlatformKind

end MipsRecompiler
