import MipsRecompiler.Proofs.CodeUnit.Formation
import MipsRecompiler.Proofs.Ir.Preservation

/-!
# Fetching a unit again

What a unit was made from depends on memory at the words of its instructions, and on where the
address map puts them. A block that spares both runs the code it was compiled from to its end.
-/

set_option autoImplicit false

namespace MipsRecompiler

open Machine (Quiet)

variable {β : Type} [Bus β]

namespace Tlb

theorem translate_word (tlb : Tlb) (control : SystemControl) {address : DoubleWord}
    (aligned : address.toNat % 4 = 0) (access : AccessKind) :
    tlb.translate control address access .word = tlb.resolve control address access := by
  have low : address &&& AccessSize.word.offsetMask = 0 := by
    apply BitVec.eq_of_toNat_eq
    rw [BitVec.toNat_and, show AccessSize.word.offsetMask.toNat = 2 ^ 2 - 1 from rfl,
      Nat.and_two_pow_sub_one_eq_mod]
    exact aligned
  rw [translate, if_neg (not_not_intro low)]

theorem aligned_of_translate {tlb : Tlb} {control : SystemControl} {address : DoubleWord}
    {access : AccessKind} {physical : Word}
    (translates : tlb.translate control address access .word = .ok physical) :
    address.toNat % 4 = 0 := by
  rw [translate] at translates
  split at translates
  · cases translates
  · rename_i low
    have bits := congrArg BitVec.toNat (Classical.not_not.mp low)
    rw [BitVec.toNat_and, show AccessSize.word.offsetMask.toNat = 2 ^ 2 - 1 from rfl,
      Nat.and_two_pow_sub_one_eq_mod] at bits
    exact bits

theorem physical_aligned {tlb : Tlb} {control : SystemControl} {address : DoubleWord}
    {access : AccessKind} {physical : Word}
    (translates : tlb.translate control address access .word = .ok physical) :
    physical.toNat % 4 = 0 := by
  have aligned := aligned_of_translate translates
  rw [tlb.translate_word control aligned] at translates
  have offset := (resolve_page (fun _ _ => rfl : SamePage address _) translates).1.toNat_eq
  omega

end Tlb

namespace CodeUnit

/-- The words that a unit was made from are in memory. -/
def Unwritten (codeUnit : CodeUnit) (bus : β) : Prop :=
  ∀ entry ∈ codeUnit.instructions, (Bus.fetch bus entry.physical).1 = entry.inst.word

def Watched (codeUnit : CodeUnit) : Prop :=
  ∀ entry ∈ codeUnit.instructions, entry.physical ∈ codeUnit.sourceWords

/-- The instructions of a unit are fetched from where they were, and a delay slot that could not
be fetched cannot be fetched for the same reason. -/
structure Mapped (codeUnit : CodeUnit) (tlb : Tlb) (control : SystemControl) : Prop where
  places : ∀ entry ∈ codeUnit.instructions,
    tlb.translate control entry.pc .fetch .word = .ok entry.physical
  missing : ∀ fault ∈ codeUnit.delaySlotFault,
    tlb.translate control codeUnit.endPc .fetch .word = .error fault

def fetchAddresses (codeUnit : CodeUnit) : List DoubleWord :=
  codeUnit.instructions.map UnitInstruction.pc ++
    (codeUnit.delaySlotFault.map fun _ => codeUnit.endPc).toList

section Forming

variable {tlb : Tlb} {control : SystemControl} {bus after : β} {pc : DoubleWord} {physical : Word}
  {entries : List UnitInstruction} {fault : Option Fault} {codeUnit : CodeUnit}

private theorem add_four_aligned {address : DoubleWord} (aligned : address.toNat % 4 = 0) :
    (address + 4).toNat % 4 = 0 := by
  have four : (4 : DoubleWord).toNat = 4 := rfl
  rw [BitVec.toNat_add, four]
  omega

/-- The word behind another one is found where its address resolves, also on the same page. -/
theorem behind_eq (aligned : pc.toNat % 4 = 0)
    (resolves : tlb.resolve control pc .fetch = .ok physical) :
    behind tlb control pc physical = tlb.resolve control (pc + 4) .fetch := by
  unfold behind
  split
  · rename_i inside
    exact (Tlb.resolve_next aligned resolves inside).symm
  · rfl

theorem Chain.mapped (chain : Chain tlb control bus pc physical entries fault)
    (aligned : pc.toNat % 4 = 0) (resolves : tlb.resolve control pc .fetch = .ok physical) :
    (∀ entry ∈ entries, tlb.translate control entry.pc .fetch .word = .ok entry.physical) ∧
      ∀ missing ∈ fault, tlb.translate control (pc + BitVec.ofNat 64 (4 * entries.length))
        .fetch .word = .error missing := by
  have place {entry : UnitInstruction} {pc : DoubleWord} {physical : Word} {delaySlot : Bool}
      (fetched : entry.Fetched bus pc physical delaySlot) (aligned : pc.toNat % 4 = 0)
      (resolves : tlb.resolve control pc .fetch = .ok physical) :
      tlb.translate control entry.pc .fetch .word = .ok entry.physical := by
    rw [fetched.pc, fetched.physical, tlb.translate_word control aligned, resolves]
  induction chain with
  | last fetched =>
      exact ⟨List.forall_mem_singleton.mpr (place fetched aligned resolves), nofun⟩
  | next fetched _ _ inside _ ih =>
      obtain ⟨places, missing⟩ := ih (add_four_aligned aligned)
        (Tlb.resolve_next aligned resolves inside)
      refine ⟨List.forall_mem_cons.mpr ⟨place fetched aligned resolves, places⟩, ?_⟩
      rw [List.length_cons, endPc_succ]
      exact missing
  | slot fetched _ found slotFetched =>
      rw [behind_eq aligned resolves] at found
      refine ⟨List.forall_mem_cons.mpr ⟨place fetched aligned resolves,
        List.forall_mem_singleton.mpr ?_⟩, nofun⟩
      exact place slotFetched (add_four_aligned aligned) found
  | @fault pc physical branch fault fetched _ missing =>
      refine ⟨List.forall_mem_singleton.mpr (place fetched aligned resolves), ?_⟩
      rintro _ ⟨⟩
      rw [behind_eq aligned resolves] at missing
      rw [← missing]
      exact tlb.translate_word control (add_four_aligned aligned) .fetch

/-- What is known of a unit when it was formed at an address that translates. -/
structure Formed (tlb : Tlb) (control : SystemControl) (bus : β) (codeUnit : CodeUnit) :
    Prop where
  chain : Chain tlb control bus codeUnit.startPc codeUnit.startPhysical codeUnit.instructions
    codeUnit.delaySlotFault
  length : codeUnit.length ≤ maxLength
  unwritten : codeUnit.Unwritten bus
  mapped : codeUnit.Mapped tlb control
  watched : codeUnit.Watched

theorem form_formed [QuietBus β]
    (translates : tlb.translate control pc .fetch .word = .ok physical)
    (forms : form tlb control pc physical bus = .ok codeUnit after) :
    codeUnit.Formed tlb control bus := by
  have aligned := Tlb.aligned_of_translate translates
  rw [tlb.translate_word control aligned] at translates
  have offset := (Tlb.resolve_page (fun _ _ => rfl : SamePage pc pc) translates).1.toNat_eq
  obtain ⟨chain, length⟩ := form_chain (by omega) forms
  have words := form_sourceWords forms
  obtain ⟨-, rfl, rfl⟩ := form_ok forms
  obtain ⟨places, missing⟩ := chain.mapped aligned translates
  refine ⟨chain, length, fun entry member => ?_, ⟨places, missing⟩, fun entry member => ?_⟩
  · obtain ⟨_, _, _, fetched⟩ := chain.fetched entry member
    exact fetched.word
  · rw [words]
    exact List.mem_map_of_mem member

end Forming

end CodeUnit

/-! ## Running a unit -/

/-- A store leaves the words that a unit was made from, and any other effect leaves where the
unit is fetched from. -/
def Event.Spares (event : Event β) (codeUnit : CodeUnit) : Prop :=
  match event.effect with
  | .store _ => ∀ physical ∈ codeUnit.sourceWords,
      (Bus.fetch event.after.bus physical).1 = (Bus.fetch event.before.bus physical).1
  | _ => ∀ address ∈ codeUnit.fetchAddresses,
      event.after.translate address .fetch .word = event.before.translate address .fetch .word

namespace CodeUnit

/-- A machine on which a unit is what would be fetched. -/
structure Current (codeUnit : CodeUnit) (machine : Machine β) : Prop where
  unwritten : codeUnit.Unwritten machine.bus
  mapped : codeUnit.Mapped machine.tlb machine.cpu.control
  watched : codeUnit.Watched

variable {codeUnit : CodeUnit} {before after : Machine β}

omit [Bus β] in
private theorem Mapped.change (mapped : codeUnit.Mapped before.tlb before.cpu.control)
    (same : ∀ address ∈ codeUnit.fetchAddresses,
      after.translate address .fetch .word = before.translate address .fetch .word) :
    codeUnit.Mapped after.tlb after.cpu.control := by
  constructor
  · intro entry member
    rw [← mapped.places entry member]
    exact same entry.pc (List.mem_append_left _ (List.mem_map_of_mem member))
  · intro fault member
    rw [← mapped.missing fault member]
    refine same codeUnit.endPc (List.mem_append_right _ ?_)
    have is : codeUnit.delaySlotFault = some fault := member
    simp [is]

theorem Current.quiet (current : codeUnit.Current before) (quiet : Quiet before after) :
    codeUnit.Current after := by
  refine ⟨?_, current.mapped.change fun address _ => quiet.translate address .fetch .word,
    current.watched⟩
  rw [quiet.bus]
  exact current.unwritten

theorem Current.spared {event : Event β} (current : codeUnit.Current event.before)
    (confined : event.Confined) (spares : event.Spares codeUnit) :
    codeUnit.Current event.after := by
  obtain ⟨effect, before, after⟩ := event
  have others (bus : after.bus = before.bus) (same : ∀ address ∈ codeUnit.fetchAddresses,
      after.translate address .fetch .word = before.translate address .fetch .word) :
      codeUnit.Current after := by
    refine ⟨?_, current.mapped.change same, current.watched⟩
    rw [bus]
    exact current.unwritten
  cases effect with
  | store size =>
      have is : after = { before with bus := after.bus } := confined
      rw [is]
      refine ⟨fun entry member => ?_, current.mapped, current.watched⟩
      rw [← current.unwritten entry member]
      exact spares entry.physical (current.watched entry member)
  | control reg => exact others confined.1 spares
  | tlbRead | tlbWrite => exact others confined spares

end CodeUnit

end MipsRecompiler
