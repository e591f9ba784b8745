import MipsRecompiler.HostCode.Execute

/-!
# Machines that accesses cannot tell apart

Loads, stores and routines look at little of a machine: its table, its system control registers,
the link bit, and what its bus answers. Related machines that agree on this stay related, and give
the same answers.
-/

set_option autoImplicit false

namespace MipsRecompiler.Machine

variable {β γ : Type} [Bus β] [Bus γ]

/-- A relation between machines that agree on what accesses look at, and go on to. -/
structure Similar (related : Machine β → Machine γ → Prop) : Prop where
  tlb : ∀ {first second}, related first second → second.tlb = first.tlb
  control : ∀ {first second}, related first second → second.cpu.control = first.cpu.control
  llBit : ∀ {first second}, related first second → second.cpu.llBit = first.cpu.llBit
  answer : ∀ {first second}, related first second → ∀ physical size,
    (Bus.read second.bus physical size).1 = (Bus.read first.bus physical size).1
  read : ∀ {first second}, related first second → ∀ physical size,
    related { first with bus := (Bus.read first.bus physical size).2 }
      { second with bus := (Bus.read second.bus physical size).2 }
  write : ∀ {first second}, related first second → ∀ physical size value,
    related { first with bus := Bus.write first.bus physical size value }
      { second with bus := Bus.write second.bus physical size value }
  system : ∀ {first second}, related first second → ∀ tlb llBit control,
    related { first with tlb, cpu := { first.cpu with llBit, control } }
      { second with tlb, cpu := { second.cpu with llBit, control } }

/-- Results that are the same but for related machines. -/
inductive Related {ε α : Type} (related : Machine β → Machine γ → Prop) :
    EStateM.Result ε (Machine β) α → EStateM.Result ε (Machine γ) α → Prop where
  | ok {value : α} {first : Machine β} {second : Machine γ} :
      related first second → Related related (.ok value first) (.ok value second)
  | error {reason : ε} {first : Machine β} {second : Machine γ} :
      related first second → Related related (.error reason first) (.error reason second)

/-- Accesses that do the same on related machines. -/
def Alike {α : Type} (related : Machine β → Machine γ → Prop) (first : Access β α)
    (second : Access γ α) : Prop :=
  ∀ one other, related one other → Related related (first one) (second other)

section Accesses

variable {related : Machine β → Machine γ → Prop}

omit [Bus β] [Bus γ] in
theorem Alike.pure {α : Type} (value : α) :
    Alike related (pure value) (pure value) :=
  fun _ _ same => .ok same

omit [Bus β] [Bus γ] in
theorem Alike.bind {α τ : Type} {first : Access β α} {second : Access γ α}
    {next : α → Access β τ} {other : α → Access γ τ} (alike : Alike related first second)
    (rest : ∀ value, Alike related (next value) (other value)) :
    Alike related (first >>= next) (second >>= other) := by
  intro one two same
  have results := alike one two same
  simp only [Bind.bind, EStateM.bind]
  cases firstResult : first one with
  | ok value after =>
      rw [firstResult] at results
      cases secondResult : second two with
      | ok other behind =>
          rw [secondResult] at results
          cases results with
          | ok same => exact rest _ _ _ same
      | error reason behind =>
          rw [secondResult] at results
          cases results
  | error reason after =>
      rw [firstResult] at results
      cases secondResult : second two with
      | ok other behind =>
          rw [secondResult] at results
          cases results
      | error reason behind =>
          rw [secondResult] at results
          cases results with
          | error same => exact .error same

variable (similar : Similar related)

include similar

theorem Similar.translate {first : Machine β} {second : Machine γ}
    (same : related first second) (address : DoubleWord) (access : AccessKind)
    (size : AccessSize) :
    second.translate address access size = first.translate address access size := by
  simp only [Machine.translate, similar.tlb same, similar.control same]

theorem Similar.physicalOf (address : DoubleWord) (access : AccessKind) (size : AccessSize) :
    Alike related (physicalOf address access size) (physicalOf address access size) := by
  intro first second same
  simp only [Machine.physicalOf, Bind.bind, EStateM.bind, getState, similar.translate same address access size]
  cases first.translate address access size with
  | ok physical => exact .ok same
  | error fault => exact .error same

theorem Similar.readBus (physical : Word) (size : AccessSize) :
    Alike related (readBus physical size) (readBus physical size) := by
  intro first second same
  have answer := similar.answer same physical size
  simp only [Machine.readBus, modifyState, answer]
  exact .ok (similar.read same physical size)

theorem Similar.writeBus (physical : Word) (size : AccessSize) (value : DoubleWord) :
    Alike related (writeBus physical size value) (writeBus physical size value) :=
  fun _ _ same => .ok (similar.write same physical size value)

/-- A change of the parts that accesses look at. -/
theorem Similar.change {change : Machine β → Machine β} {other : Machine γ → Machine γ}
    (tlb : Tlb → SystemControl → Tlb) (llBit : Bool → SystemControl → Bool)
    (control : Tlb → SystemControl → SystemControl)
    (first : ∀ machine, change machine =
      { machine with
        tlb := tlb machine.tlb machine.cpu.control
        cpu := { machine.cpu with
          llBit := llBit machine.cpu.llBit machine.cpu.control
          control := control machine.tlb machine.cpu.control } })
    (second : ∀ machine, other machine =
      { machine with
        tlb := tlb machine.tlb machine.cpu.control
        cpu := { machine.cpu with
          llBit := llBit machine.cpu.llBit machine.cpu.control
          control := control machine.tlb machine.cpu.control } }) :
    ∀ {one two}, related one two → related (change one) (other two) := by
  intro one two same
  rw [first, second, similar.tlb same, similar.control same, similar.llBit same]
  exact similar.system same _ _ _

theorem Similar.loadLeft (size : AccessSize) (address register : DoubleWord) :
    Alike related (loadLeft size address register) (loadLeft size address register) :=
  (similar.physicalOf _ _ _).bind fun _ => (similar.readBus _ _).bind fun _ => .pure _

theorem Similar.loadRight (size : AccessSize) (address register : DoubleWord) :
    Alike related (loadRight size address register) (loadRight size address register) :=
  (similar.physicalOf _ _ _).bind fun _ => (similar.readBus _ _).bind fun _ => .pure _

theorem Similar.storeLeft (size : AccessSize) (address register : DoubleWord) :
    Alike related (storeLeft size address register) (storeLeft size address register) :=
  (similar.physicalOf _ _ _).bind fun _ =>
    (similar.readBus _ _).bind fun _ => similar.writeBus _ _ _

theorem Similar.storeRight (size : AccessSize) (address register : DoubleWord) :
    Alike related (storeRight size address register) (storeRight size address register) :=
  (similar.physicalOf _ _ _).bind fun _ =>
    (similar.readBus _ _).bind fun _ => similar.writeBus _ _ _

theorem Similar.loadLinked (size : AccessSize) (address : DoubleWord) :
    Alike related (loadLinked size address) (loadLinked size address) := by
  refine (similar.physicalOf _ _ _).bind fun physical => (similar.readBus _ _).bind fun value => ?_
  refine Alike.bind (α := PUnit) ?_ fun _ => .pure _
  intro first second same
  refine .ok (similar.change (fun tlb _ => tlb) (fun _ _ => true)
    (fun _ control => control.set SystemControl.llAddr ((physical >>> 4).setWidth 64))
    (fun _ => rfl) (fun _ => rfl) same)

theorem Similar.storeConditional (size : AccessSize) (address value : DoubleWord) :
    Alike related (storeConditional size address value) (storeConditional size address value) := by
  refine (similar.physicalOf _ _ _).bind fun physical => ?_
  intro first second same
  simp only [Bind.bind, EStateM.bind, getState,
    similar.llBit same]
  cases first.cpu.llBit with
  | true => exact .ok (similar.write same physical size value)
  | false => exact .ok same

theorem Similar.callRoutine (routine : Ir.Routine) (arguments : List DoubleWord) :
    Alike related (callRoutine routine arguments) (callRoutine routine arguments) := by
  intro first second same
  cases routine with
  | moveFromControl reg double =>
      simp only [Machine.callRoutine, Bind.bind, EStateM.bind, getState, similar.control same]
      exact .ok same
  | moveToControl reg double =>
      exact .ok (similar.change (fun tlb _ => tlb) (fun bit _ => bit)
        (fun _ control => control.write (Ir.selectedRegister reg) (arguments.getD 0 0) double)
        (fun _ => rfl) (fun _ => rfl) same)
  | tlbRead =>
      exact .ok (similar.change (fun tlb _ => tlb) (fun bit _ => bit)
        (fun tlb control => tlb.readIndexed control) (fun _ => rfl) (fun _ => rfl) same)
  | tlbWriteIndexed =>
      exact .ok (similar.change (fun tlb control => tlb.writeIndexed control) (fun bit _ => bit)
        (fun _ control => control) (fun _ => rfl) (fun _ => rfl) same)
  | tlbWriteRandom =>
      exact .ok (similar.change (fun tlb control => (tlb.writeRandom control).1)
        (fun bit _ => bit) (fun tlb control => (tlb.writeRandom control).2) (fun _ => rfl)
        (fun _ => rfl) same)
  | tlbProbe =>
      exact .ok (similar.change (fun tlb _ => tlb) (fun bit _ => bit)
        (fun tlb control => tlb.probe control) (fun _ => rfl) (fun _ => rfl) same)
  | exceptionReturn =>
      have left := similar.system same first.tlb false first.cpu.leaveException.2.control
      rw [← similar.tlb same] at left
      simp only [Machine.callRoutine, modifyState]
      simp only [CpuState.leaveException, similar.control same] at left ⊢
      cases level : first.cpu.control.errorLevel with
      | true =>
          simp only [level, if_true] at left ⊢
          exact .ok (by simpa only [similar.tlb same] using left)
      | false =>
          simp only [level, Bool.false_eq_true, if_false] at left ⊢
          exact .ok (by simpa only [similar.tlb same] using left)
  | loadLeft size => exact similar.loadLeft _ _ _ _ _ same
  | loadRight size => exact similar.loadRight _ _ _ _ _ same
  | storeLeft size => exact ((similar.storeLeft _ _ _).bind fun _ => .pure _) _ _ same
  | storeRight size => exact ((similar.storeRight _ _ _).bind fun _ => .pure _) _ _ same
  | loadLinked size => exact similar.loadLinked _ _ _ _ same
  | storeConditional size => exact similar.storeConditional _ _ _ _ _ same

end Accesses

end MipsRecompiler.Machine
