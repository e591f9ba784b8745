import MipsRecompiler.CodeUnit.Formation
import MipsRecompiler.HostCode.Lowering
import MipsRecompiler.Ir.Optimize
import MipsRecompiler.Emission.Block

/-!
# Compiling units

A unit becomes a block, which is improved, given registers and written as host code.
-/

set_option autoImplicit false

namespace MipsRecompiler

/-- A compiled unit with what listings show of it. -/
structure Compilation where
  codeUnit : CodeUnit
  block : Ir.Block
  allocation : Allocation
  code : List UInt8

def CodeUnit.compile (codeUnit : CodeUnit) (configuration : Configuration)
    (platform : Platform) : Except CompileError Compilation := do
  let (_, block) := (← codeUnit.emit configuration).optimize
  let allocation ← Allocation.ofBlock block platform
  match HostCode.encode block allocation (BitVec.ofNat 32 codeUnit.length) with
  | (code, none) => return { codeUnit, block, allocation, code }
  | (_, some missing) => throw missing

end MipsRecompiler
