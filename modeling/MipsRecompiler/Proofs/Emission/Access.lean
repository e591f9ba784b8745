import MipsRecompiler.Emission.Memory
import MipsRecompiler.Proofs.Emission.Following
import MipsRecompiler.Proofs.Interpreter.Outcomes

/-!
# Loads and stores

An access that does not fault does to memory what the interpreter does, and one that faults leaves
the block with the exception that the interpreter takes.
-/

set_option autoImplicit false

namespace MipsRecompiler.Emission

open Ir
open Interpreter (Execution Flow accessing accessing_bind)

variable {β : Type} [Bus β] {start : Machine β} {place : Place} {before : Stage β}

def addressOf (place : Place) (guest : Machine β) : DoubleWord :=
  guest.cpu.readGpr place.entry.inst.rs + place.entry.inst.signedImmediate

theorem effectiveAddress_emits :
    Emits start place before effectiveAddress
      (fun id => before.know id (addressOf place before.guest)) none := by
  refine Emits.theInstruction ?_
  refine (Emits.gpr _).bind fun base => ?_
  refine (Emits.signed _).bind fun offset => ?_
  refine (Emits.binaryPlain rfl (List.mem_cons_of_mem _ List.mem_cons_self) List.mem_cons_self
    rfl).weaken fun id => ⟨rfl, rfl, ?_, fun _ member => member⟩
  intro fact member
  rcases List.mem_cons.mp member with rfl | old
  · exact List.mem_cons_self
  · exact List.mem_cons_of_mem _ (List.mem_cons_of_mem _ (List.mem_cons_of_mem _ old))

theorem translatedAddress_emits (access : AccessKind) (size : AccessSize) :
    Emits start place before (translatedAddress access size)
      (fun id => before.aim access size id
        (match before.guest.translate (addressOf place before.guest) access size with
        | .ok physical => physical.setWidth 64
        | .error _ => 0))
      (place.faults before.guest
        (before.guest.translate (addressOf place before.guest) access size)) := by
  refine effectiveAddress_emits.bind fun address => ?_
  refine (Emits.translate List.mem_cons_self).conclude rfl (fun _ _ => ⟨rfl, rfl⟩) ?_ ?_
  · intro id fact member
    rcases List.mem_cons.mp member with rfl | old
    · exact List.mem_cons_self
    · exact List.mem_cons_of_mem _ (List.mem_cons_of_mem _ old)
  · exact fun _ _ member => member

/-! ## Aligned accesses -/

private theorem storeKnown {size : AccessSize} {address value : ValueId} {physical : Word}
    {b c : DoubleWord} (left : (address, physical.setWidth 64) ∈ before.known)
    (right : (value, b) ∈ before.known) (target : (address, size) ∈ before.targets)
    [LawfulBus β] (same : (b.setWidth size.bits).setWidth 64 = (c.setWidth size.bits).setWidth 64) :
    Follows start place before (do
        let _ ← push (.store size address value))
      (.ok .next
        { before.guest with bus := Bus.write before.guest.bus physical size c }) := by
  have cut : (physical.setWidth 64).setWidth 32 = physical := by simp
  refine (Emits.store left right target).bind fun _ => ?_
  refine (Emits.pure ()).follows_next ?_ rfl
  rw [Stage.withGuest_guest, cut, ← LawfulBus.write_cut _ _ _ b, same, LawfulBus.write_cut]

/-- A store: the address first, then the value, then the write. -/
theorem store_follows [LawfulBus β] {size : AccessSize} {read : Emit ValueId} {b c : DoubleWord}
    (reads : ∀ stage : Stage β, stage.guest = before.guest →
      Emits start place stage read (fun id => stage.know id b) none)
    (same : (b.setWidth size.bits).setWidth 64 = (c.setWidth size.bits).setWidth 64) :
    Follows start place before (do
        let address ← translatedAddress .store size
        let value ← read
        let _ ← push (.store size address value))
      ((do
        accessing (Machine.store size (addressOf place before.guest) c)
        return .next : Execution β Flow) before.guest) := by
  have translates : Emits start place before (translatedAddress .store size) _ _ :=
    translatedAddress_emits .store size
  have stores (physical : Word) (address : ValueId) :
      Follows start place (before.aim .store size address (physical.setWidth 64)) (do
          let value ← read
          let _ ← push (.store size address value))
        (.ok .next
          { before.guest with bus := Bus.write before.guest.bus physical size c }) := by
    refine (reads (before.aim .store size address (physical.setWidth 64)) rfl).bind fun value => ?_
    have target : (address, size) ∈ (before.aim .store size address
        (physical.setWidth 64)).targets := by
      simp [Stage.aim]
    exact storeKnown (List.mem_cons_of_mem _ List.mem_cons_self) List.mem_cons_self target same
  rw [accessing_bind, Machine.store_eq]
  cases translated : before.guest.translate (addressOf place before.guest) .store size with
  | ok physical =>
      rw [translated] at translates
      exact translates.bind fun address => stores physical address
  | error fault =>
      rw [translated] at translates
      refine translates.bind_left fun address => ?_
      have rest : Emits start place (before.aim .store size address ((0 : Word).setWidth 64)) (do
          let value ← read
          let _ ← push (.store size address value)) _ _ := stores 0 address
      exact Emits.shape start rest (by simp) (by simp)

/-- A load: the address first, then the read, then the write of the register. -/
theorem load_follows [LawfulBus β] {size : AccessSize} {signed : Bool}
    {registerClass : RegisterClass} {write : ValueId → Emit Unit}
    {change : DoubleWord → CpuState → CpuState}
    (writes : ∀ (stage : Stage β) id value, (id, value) ∈ stage.known →
      stage.guest.cpu = before.guest.cpu →
      (∃ bus physical, value = size.widen signed (Bus.read (bus : β) physical size).1) →
      Emits start place stage (write id) (fun _ => stage.changeCpu (change value)) none) :
    Follows start place before (do
        let address ← translatedAddress .load size
        let value ← push (.load (.ofLoad size signed) registerClass address)
        write value)
      ((do
        let value ← accessing (Machine.load size signed (addressOf place before.guest))
        Interpreter.changeCpu (change value) : Execution β Flow) before.guest) := by
  have translates : Emits start place before (translatedAddress .load size) _ _ :=
    translatedAddress_emits .load size
  rw [accessing_bind, Machine.load_eq]
  have reads (physical : Word) (address : ValueId) :
      Follows start place (before.aim .load size address (physical.setWidth 64)) (do
          let value ← push (.load (.ofLoad size signed) registerClass address)
          write value)
        (Interpreter.changeCpu
          (change (size.widen signed (Bus.read before.guest.bus physical size).1))
          { before.guest with bus := (Bus.read before.guest.bus physical size).2 }) := by
    have loads : Emits start place (before.aim .load size address (physical.setWidth 64))
        (push (.load (.ofLoad size signed) registerClass address)) _ _ :=
      Emits.load List.mem_cons_self
    have cut : (physical.setWidth 64).setWidth 32 = physical := by simp
    simp only [ValueType.size_ofLoad, cut, LawfulBus.cast_ofLoad] at loads
    refine loads.bind fun value => ?_
    refine Emits.follows_next (writes _ value
      (size.widen signed (Bus.read before.guest.bus physical size).1) ?_ ?_ ?_) rfl rfl
    · exact List.mem_cons_self
    · rfl
    · exact ⟨_, _, rfl⟩
  cases translated : before.guest.translate (addressOf place before.guest) .load size with
  | ok physical =>
      rw [translated] at translates
      exact translates.bind fun address => reads physical address
  | error fault =>
      rw [translated] at translates
      refine translates.bind_left fun address => ?_
      have rest : Emits start place (before.aim .load size address ((0 : Word).setWidth 64)) (do
          let value ← push (.load (.ofLoad size signed) registerClass address)
          write value) _ _ := reads 0 address
      exact Emits.shape start rest (by simp) (by simp)

theorem loadStore_follows [LawfulBus β] (form : Form) (size : AccessSize) (signed : Bool) :
    Follows start place before (loadStore form size signed)
      ((if form = .store then do
          accessing (Machine.store size (addressOf place before.guest)
            (before.guest.cpu.readGpr place.entry.inst.rt))
          return .next
        else do
          let value ← accessing (Machine.load size signed (addressOf place before.guest))
          Interpreter.writeGpr place.entry.inst.rt value : Execution β Flow) before.guest) := by
  refine Emits.theInstruction ?_
  split
  · refine store_follows (fun stage same => ?_) rfl
    rw [← same]
    exact Emits.gpr _
  · exact load_follows fun stage id value known _ _ => Emits.setGpr known

/-! ## Unaligned and linked accesses -/

private theorem loadRoutine {routine : Routine} {arguments : Arguments ValueId}
    {values : List DoubleWord} {access : Machine.Access β DoubleWord}
    (passes : Emits.Passes before arguments.toList values) (has : routine.hasResult = true)
    (other : ∀ reg double, routine ≠ .moveToControl reg double)
    (is : Machine.callRoutine routine values before.guest = access before.guest) :
    Follows start place before (do
        let result ← pushRaising (.call routine arguments)
        setGpr place.entry.inst.rt result)
      ((do
        let value ← accessing access
        Interpreter.writeGpr place.entry.inst.rt value : Execution β Flow) before.guest) := by
  rw [accessing_bind]
  cases ends : access before.guest with
  | ok value after =>
      have calls : Emits start place before (pushRaising (.call routine arguments)) _ _ :=
        Emits.callRaising passes other (is.trans ends)
      rw [has] at calls
      refine calls.bind fun result => ?_
      exact (Emits.setGpr List.mem_cons_self).follows_next rfl rfl
  | error fault after =>
      have same := Machine.callRoutine_error (is.trans ends)
      subst same
      have calls : Emits start place before (pushRaising (.call routine arguments)) _ _ :=
        Emits.callFault passes (is.trans ends)
      rw [has] at calls
      refine calls.bind_left fun result => ?_
      exact Emits.shape start (Emits.setGpr List.mem_cons_self) (by simp) (by simp)

private theorem storeRoutine {routine : Routine} {arguments : Arguments ValueId}
    {values : List DoubleWord} {access : Machine.Access β Unit}
    (passes : Emits.Passes before arguments.toList values)
    (other : ∀ reg double, routine ≠ .moveToControl reg double)
    (is : Machine.callRoutine routine values before.guest =
      (access >>= fun _ => pure 0) before.guest) :
    Follows start place before (do
        let _ ← pushRaising (.call routine arguments))
      ((do
        accessing access
        return .next : Execution β Flow) before.guest) := by
  rw [accessing_bind]
  rw [Machine.bind_pure] at is
  cases ends : access before.guest with
  | ok value after =>
      rw [ends] at is
      refine (Emits.callRaising passes other is).bind fun _ => ?_
      exact (Emits.pure ()).follows_next (by unfold Stage.knowIf; split <;> rfl)
        (by unfold Stage.knowIf; split <;> rfl)
  | error fault after =>
      rw [ends] at is
      have same := Machine.callRoutine_error is
      subst same
      refine (Emits.callFault passes is).bind_left fun _ => ?_
      exact Emits.shapes_pure () (by simp) (by simp)

theorem loadStorePart_follows (form : Form) {load store : Routine}
    {loads : DoubleWord → DoubleWord → Machine.Access β DoubleWord}
    {stores : DoubleWord → DoubleWord → Machine.Access β Unit}
    (has : load.hasResult = true)
    (loadOther : ∀ reg double, load ≠ .moveToControl reg double)
    (storeOther : ∀ reg double, store ≠ .moveToControl reg double)
    (loading : ∀ a b, Machine.callRoutine load [a, b] before.guest = loads a b before.guest)
    (storing : ∀ a b, Machine.callRoutine store [a, b] before.guest =
      (stores a b >>= fun _ => pure 0) before.guest) :
    Follows start place before (loadStorePart form load store)
      ((if form = .store then do
          accessing (stores (addressOf place before.guest)
            (before.guest.cpu.readGpr place.entry.inst.rt))
          return .next
        else do
          let value ← accessing (loads (addressOf place before.guest)
            (before.guest.cpu.readGpr place.entry.inst.rt))
          Interpreter.writeGpr place.entry.inst.rt value : Execution β Flow) before.guest) := by
  refine Emits.theInstruction ?_
  refine effectiveAddress_emits.bind fun address => ?_
  refine (Emits.gpr _).bind fun register => ?_
  have passes : Emits.Passes ((before.know address (addressOf place before.guest)).know register
      (before.guest.cpu.readGpr place.entry.inst.rt)) [address, register]
      [addressOf place before.guest, before.guest.cpu.readGpr place.entry.inst.rt] :=
    .cons (List.mem_cons_of_mem _ List.mem_cons_self) (.cons List.mem_cons_self .nil)
  split
  · exact storeRoutine passes storeOther (storing _ _)
  · exact loadRoutine passes has loadOther (loading _ _)

/-- A linked load, or a store that the link decides on. -/
theorem loadStoreLinked_follows (form : Form) (size : AccessSize) :
    Follows start place before (loadStoreLinked form size)
      ((do
        let value ← accessing (if form = .store then
            Machine.storeConditional size (addressOf place before.guest)
              (before.guest.cpu.readGpr place.entry.inst.rt)
          else Machine.loadLinked size (addressOf place before.guest))
        Interpreter.writeGpr place.entry.inst.rt value : Execution β Flow) before.guest) := by
  refine Emits.theInstruction ?_
  refine effectiveAddress_emits.bind fun address => ?_
  split
  · refine (Emits.gpr _).bind fun value => ?_
    exact loadRoutine (.cons (List.mem_cons_of_mem _ List.mem_cons_self)
      (.cons List.mem_cons_self .nil)) rfl (by simp) rfl
  · exact loadRoutine (.cons List.mem_cons_self .nil) rfl (by simp) rfl

end MipsRecompiler.Emission
