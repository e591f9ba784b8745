import MipsRecompiler.Cpu.Exception

/-!
# Virtual addresses

A table of 32 entries, each of which maps a pair of neighbouring pages, beside the two fixed
segments. Only 32 bit addresses, sign extended, can be translated.
-/

set_option autoImplicit false

namespace MipsRecompiler

/-- What an access is for. -/
inductive AccessKind where
  | fetch
  | load
  | store
  deriving DecidableEq, Repr, Inhabited

namespace AccessKind

instance : Enumeration AccessKind where
  all := [.fetch, .load, .store]
  name
    | .fetch => "Fetch"
    | .load => "Load"
    | .store => "Store"
  mem_all access := by cases access <;> decide

def addressError : AccessKind → ExceptionCode
  | .store => .addressErrorStore
  | _ => .addressErrorLoad

def tlbMiss : AccessKind → ExceptionCode
  | .store => .tlbStore
  | _ => .tlbLoad

end AccessKind

/-- One entry, which maps an even page and the odd page behind it. -/
structure TlbEntry where
  pageMask : Word
  entryHi : DoubleWord
  entryLo0 : DoubleWord
  entryLo1 : DoubleWord
  deriving DecidableEq, Repr

namespace TlbEntry

/-- The entry of a table that was never written. -/
def blank : TlbEntry := ⟨0, 0, 0, 0⟩

instance : Inhabited TlbEntry := ⟨blank⟩

/-- Whether the entry serves every address space: both halves must say so. -/
def isGlobal (entry : TlbEntry) : Bool :=
  (entry.entryLo0 &&& entry.entryLo1).getLsbD 0

def offsetMask (entry : TlbEntry) : Word :=
  (entry.pageMask >>> 1) ||| 0xfff

/-- Whether the entry maps an address in an address space. -/
def covers (entry : TlbEntry) (address : Word) (space : BitVec 8) : Bool :=
  let pairMask : Word := ~~~((entry.offsetMask <<< 1) ||| 1)
  ((address ^^^ entry.entryHi.setWidth 32) &&& pairMask) == 0 &&
    (entry.isGlobal || entry.entryHi.setWidth 8 == space)

def halfOf (entry : TlbEntry) (address : Word) : DoubleWord :=
  if (address &&& (entry.offsetMask + 1)) == 0 then entry.entryLo0 else entry.entryLo1

/-- The physical address, given the half that holds the virtual one. -/
def physical (entry : TlbEntry) (half : DoubleWord) (address : Word) : Word :=
  let frame : Word := ((half >>> 6) &&& 0xfffff).setWidth 32
  ((frame <<< 12) &&& ~~~entry.offsetMask) ||| (address &&& entry.offsetMask)

def ofControl (control : SystemControl) : TlbEntry :=
  let mask := control.get SystemControl.pageMask &&& SystemControl.pageMaskBits
  { pageMask := mask.setWidth 32
    entryHi := control.get SystemControl.entryHi &&& ~~~mask &&& SystemControl.entryHiBits
    entryLo0 := control.get SystemControl.entryLo0
    entryLo1 := control.get SystemControl.entryLo1 }

/-- Shows the entry in the system control registers. Both halves carry the combined global bit. -/
def toControl (entry : TlbEntry) (control : SystemControl) : SystemControl :=
  let shared : DoubleWord := if entry.isGlobal then 1 else 0
  (((control.set SystemControl.pageMask (entry.pageMask.setWidth 64)).set
    SystemControl.entryHi entry.entryHi).set
    SystemControl.entryLo0 ((entry.entryLo0 &&& ~~~1) ||| shared)).set
    SystemControl.entryLo1 ((entry.entryLo1 &&& ~~~1) ||| shared)

end TlbEntry

structure Tlb where
  entries : Vector TlbEntry 32
  deriving DecidableEq, Repr

namespace Tlb

def reset : Tlb := ⟨Vector.replicate 32 .blank⟩

instance : Inhabited Tlb := ⟨reset⟩

def find? (tlb : Tlb) (address : Word) (space : BitVec 8) : Option (Fin 32) :=
  (List.finRange 32).find? fun index => tlb.entries[index].covers address space

/-- The fault of an address that the table does not map for this access. -/
def miss (access : AccessKind) (address : Word) (refill : Bool) : Fault :=
  { code := access.tlbMiss, badAddress := address.signExtend 64, refill }

def lookup (tlb : Tlb) (address : Word) (access : AccessKind) (space : BitVec 8) :
    Except Fault Word :=
  match tlb.find? address space with
  | none => .error (miss access address true)
  | some index =>
    let entry := tlb.entries[index]
    let half := entry.halfOf address
    if !half.getLsbD 1 then .error (miss access address false)
    else if access == .store && !half.getLsbD 2 then
      .error { miss access address false with code := .tlbModification }
    else .ok (entry.physical half address)

/-- Translates a virtual address. The fixed segments need no entry. -/
def resolve (tlb : Tlb) (control : SystemControl) (address : DoubleWord) (access : AccessKind) :
    Except Fault Word :=
  let low : Word := address.setWidth 32
  if address ≠ low.signExtend 64 then
    .error { code := access.addressError, badAddress := address, refill := false }
  else if 0x80000000 ≤ low ∧ low ≤ 0xbfffffff then .ok (low &&& 0x1fffffff)
  else tlb.lookup low access control.addressSpace

/-- Translates after a check of natural alignment. -/
def translate (tlb : Tlb) (control : SystemControl) (address : DoubleWord) (access : AccessKind)
    (size : AccessSize) : Except Fault Word :=
  if address &&& size.offsetMask ≠ 0 then
    .error { code := access.addressError, badAddress := address, refill := false }
  else tlb.resolve control address access

def slotOf (value : DoubleWord) : Fin 32 :=
  ⟨value.toNat % 32, Nat.mod_lt _ (by decide)⟩

/-- Shows the entry that Index selects in the system control registers. -/
def readIndexed (tlb : Tlb) (control : SystemControl) : SystemControl :=
  tlb.entries[slotOf (control.get SystemControl.index)].toControl control

def writeSlot (tlb : Tlb) (slot : Fin 32) (control : SystemControl) : Tlb :=
  { tlb with entries := tlb.entries.set slot (.ofControl control) }

/-- Writes the entry that the low six bits of Index select. -/
def writeIndexed (tlb : Tlb) (control : SystemControl) : Tlb :=
  tlb.writeSlot (slotOf (control.get SystemControl.index &&& 0x3f)) control

/-- Writes the entry that Random selects. Random then counts down to Wired and starts again at
the last entry. -/
def writeRandom (tlb : Tlb) (control : SystemControl) : Tlb × SystemControl :=
  let random := control.get SystemControl.random
  let wired := control.get SystemControl.wired &&& 0x1f
  let next := if random ≤ wired then 31 else random - 1
  (tlb.writeSlot (slotOf random) control, control.set SystemControl.random next)

/-- Sets Index to the entry that maps EntryHi, or to the failure mark. -/
def probe (tlb : Tlb) (control : SystemControl) : SystemControl :=
  let entryHi := control.get SystemControl.entryHi
  control.set SystemControl.index <|
    match tlb.find? (entryHi.setWidth 32) (entryHi.setWidth 8) with
    | some slot => BitVec.ofNat 64 slot.val
    | none => 0x80000000

end Tlb

end MipsRecompiler
