import MipsRecompiler.Emission.Float

/-!
# Loads and stores

Aligned accesses translate their address first, which can leave the block. Unaligned and linked
ones are left to routines.
-/

set_option autoImplicit false

namespace MipsRecompiler.Emission

open Ir

def effectiveAddress : Emit ValueId := do
  let inst ← theInstruction
  let base ← gpr inst.rs
  let offset ← constant .s16 inst.signedImmediate
  binary .add base offset

def translatedAddress (access : AccessKind) (size : AccessSize) : Emit ValueId := do
  let address ← effectiveAddress
  pushRaising (.translate address access size)

def loadStore (form : Form) (size : AccessSize) (signed : Bool) : Emit Unit := do
  let inst ← theInstruction
  if form = .store then
    let address ← translatedAddress .store size
    let value ← gpr inst.rt
    let _ ← push (.store size address value)
  else
    let address ← translatedAddress .load size
    let value ← push (.load (.ofLoad size signed) .general address)
    setGpr inst.rt value

/-- Loads or stores one part of an unaligned unit, which merges with what is there. -/
def loadStorePart (form : Form) (load store : Routine) : Emit Unit := do
  let inst ← theInstruction
  let address ← effectiveAddress
  let register ← gpr inst.rt
  if form = .store then
    let _ ← pushRaising (.call store (.two address register))
  else
    let result ← pushRaising (.call load (.two address register))
    setGpr inst.rt result

/-- Loads and links a unit, or stores one if the link is unbroken. -/
def loadStoreLinked (form : Form) (size : AccessSize) : Emit Unit := do
  let inst ← theInstruction
  let address ← effectiveAddress
  let result ←
    if form = .store then do
      let value ← gpr inst.rt
      pushRaising (.call (.storeConditional size) (.two address value))
    else pushRaising (.call (.loadLinked size) (.one address))
  setGpr inst.rt result

def loadStoreFloat (form : Form) (size : AccessSize) : Emit Unit := do
  let inst ← theInstruction
  let format : FloatFormat := if size = .double then .double else .single
  if form = .floatStore then
    let address ← translatedAddress .store size
    let value ← readFloat format inst.rt
    let _ ← push (.store size address value)
  else
    let address ← translatedAddress .load size
    let value ← push (.load (.ofLoad size false) .float address)
    writeFloat format inst.rt value true

end MipsRecompiler.Emission
