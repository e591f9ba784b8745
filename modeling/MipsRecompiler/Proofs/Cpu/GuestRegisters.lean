import MipsRecompiler.HostCode.Execute

/-!
# Guest registers by number

General and floating point registers share one numbering in blocks. A processor is given by what
these registers show and by its other parts. A block keeps the registers of its guest in values of
its own, so the machine that it runs on still shows the old ones.
-/

set_option autoImplicit false

namespace MipsRecompiler

open Ir (GuestRegister)

namespace Ir.GuestRegister

@[simp] theorem within_general (reg : RegisterNumber) : (general reg).within = reg := by
  apply Fin.ext
  simp [within, general, Nat.mod_eq_of_lt reg.isLt]

@[simp] theorem within_float (reg : RegisterNumber) : (float reg).within = reg := by
  apply Fin.ext
  simp [within, float, Nat.mod_eq_of_lt reg.isLt]

@[simp] theorem isFloat_general (reg : RegisterNumber) : (general reg).isFloat = false := by
  have bound := reg.isLt
  exact decide_eq_false (Nat.not_le.mpr bound)

@[simp] theorem isFloat_float (reg : RegisterNumber) : (float reg).isFloat = true := by
  simp [isFloat, float]

theorem eq_general {reg : GuestRegister} (general : reg.isFloat = false) :
    reg = .general reg.within := by
  obtain ⟨⟨number, bound⟩⟩ := reg
  simp only [isFloat, decide_eq_false_iff_not] at general
  simp only [GuestRegister.general, within, mk.injEq, Fin.mk.injEq]
  omega

theorem eq_float {reg : GuestRegister} (float : reg.isFloat = true) :
    reg = .float reg.within := by
  obtain ⟨⟨number, bound⟩⟩ := reg
  simp only [isFloat, decide_eq_true_eq] at float
  simp only [GuestRegister.float, within, mk.injEq, Fin.mk.injEq]
  omega

theorem general_injective {first second : RegisterNumber} :
    general first = general second ↔ first = second := by
  simp [general, Fin.ext_iff]

theorem float_injective {first second : RegisterNumber} :
    float first = float second ↔ first = second := by
  simp [float, Fin.ext_iff]

@[simp] theorem float_ne_zero (reg : RegisterNumber) : float reg ≠ zero := by
  intro same
  have kinds := congrArg isFloat same
  simp [zero] at kinds

@[simp] theorem general_eq_zero {reg : RegisterNumber} : general reg = zero ↔ reg = 0 :=
  general_injective

theorem mem_all (reg : GuestRegister) : reg ∈ all := by
  simp only [all, List.mem_map, List.mem_finRange, true_and]
  exact ⟨reg.number, rfl⟩

theorem number_injective {first second : GuestRegister} :
    first.number = second.number ↔ first = second := by
  cases first
  cases second
  simp

end Ir.GuestRegister

namespace CpuState

@[simp] theorem readGuest_general (cpu : CpuState) (reg : RegisterNumber) :
    cpu.readGuest (.general reg) = cpu.readGpr reg := by
  simp [readGuest, readGpr]

@[simp] theorem readGuest_float (cpu : CpuState) (reg : RegisterNumber) :
    cpu.readGuest (.float reg) = cpu.fgr.read reg := by
  simp [readGuest]

@[simp] theorem writeGuest_general (cpu : CpuState) (reg : RegisterNumber)
    (value : DoubleWord) : cpu.writeGuest (.general reg) value = cpu.writeGpr reg value := by
  simp [writeGuest]

@[simp] theorem writeGuest_float (cpu : CpuState) (reg : RegisterNumber) (value : DoubleWord) :
    cpu.writeGuest (.float reg) value = { cpu with fgr := cpu.fgr.write reg value } := by
  simp [writeGuest]

theorem readGpr_writeGpr (cpu : CpuState) (target reg : RegisterNumber) (value : DoubleWord) :
    (cpu.writeGpr target value).readGpr reg =
      if target = reg ∧ target ≠ 0 then value else cpu.readGpr reg := by
  unfold writeGpr readGpr
  by_cases zero : target = 0
  · simp [zero]
  · simp [zero, RegisterFile.read_write]

theorem readGuest_writeGuest (cpu : CpuState) (target reg : GuestRegister)
    (value : DoubleWord) :
    (cpu.writeGuest target value).readGuest reg =
      if target = reg ∧ target ≠ .zero then value else cpu.readGuest reg := by
  cases targetKind : target.isFloat with
  | false =>
      rw [GuestRegister.eq_general targetKind, writeGuest_general]
      cases kind : reg.isFloat with
      | false =>
          rw [GuestRegister.eq_general kind]
          simp [readGpr_writeGpr, GuestRegister.general_injective]
      | true =>
          have differs : GuestRegister.general target.within ≠ .float reg.within := fun same => by
            simpa using congrArg GuestRegister.isFloat same
          rw [GuestRegister.eq_float kind, if_neg (fun both => differs both.1)]
          simp only [readGuest_float, writeGpr]
          split <;> rfl
  | true =>
      rw [GuestRegister.eq_float targetKind, writeGuest_float]
      cases kind : reg.isFloat with
      | false =>
          have differs : GuestRegister.float target.within ≠ .general reg.within := fun same => by
            simpa using congrArg GuestRegister.isFloat same
          rw [GuestRegister.eq_general kind, if_neg (fun both => differs both.1)]
          simp [readGpr]
      | true =>
          rw [GuestRegister.eq_float kind]
          simp [RegisterFile.read_write, GuestRegister.float_injective]

theorem readGpr_zero_writeGuest (cpu : CpuState) (reg : GuestRegister) (value : DoubleWord) :
    (cpu.writeGuest reg value).readGpr 0 = cpu.readGpr 0 := by
  have kept := readGuest_writeGuest cpu reg .zero value
  rw [if_neg fun both => both.2 both.1] at kept
  exact kept

def withRegisters (cpu registers : CpuState) : CpuState :=
  { cpu with gpr := registers.gpr, fgr := registers.fgr }

theorem withRegisters_writeGuest (cpu registers : CpuState) (reg : GuestRegister)
    (value : DoubleWord) :
    (cpu.withRegisters registers).writeGuest reg value =
      cpu.withRegisters (registers.writeGuest reg value) := by
  cases kind : reg.isFloat with
  | false =>
      rw [GuestRegister.eq_general kind]
      simp only [writeGuest_general, writeGpr]
      split <;> rfl
  | true =>
      rw [GuestRegister.eq_float kind]
      simp only [writeGuest_float]
      rfl

private theorem file_ext {first second : RegisterFile}
    (same : ∀ reg, first.read reg = second.read reg) : first = second := by
  apply Vector.ext
  intro index bound
  exact same ⟨index, bound⟩

/-- The registers that blocks number are all registers of both files. -/
theorem withRegisters_eq {cpu registers : CpuState}
    (same : ∀ reg, registers.readGuest reg = cpu.readGuest reg) :
    cpu.withRegisters registers = cpu := by
  have gpr : registers.gpr = cpu.gpr := file_ext fun reg => by
    simpa [readGpr] using same (.general reg)
  have fgr : registers.fgr = cpu.fgr := file_ext fun reg => by
    simpa using same (.float reg)
  rw [withRegisters, gpr, fgr]

theorem writeGuest_frame (cpu : CpuState) (reg : GuestRegister) (value : DoubleWord) :
    cpu.writeGuest reg value = cpu.withRegisters (cpu.writeGuest reg value) :=
  withRegisters_writeGuest cpu cpu reg value

@[simp] theorem writeGuest_control (cpu : CpuState) (reg : GuestRegister)
    (value : DoubleWord) : (cpu.writeGuest reg value).control = cpu.control := by
  rw [writeGuest_frame]
  rfl

theorem writeGuest_readGuest (cpu : CpuState) (reg : GuestRegister) :
    cpu.writeGuest reg (cpu.readGuest reg) = cpu := by
  rw [writeGuest_frame]
  refine withRegisters_eq fun other => ?_
  rw [readGuest_writeGuest]
  split
  · rename_i target
    rw [target.1]
  · rfl

/-- Writing back the values that a processor shows makes another one show them. -/
theorem readGuest_foldl_writeGuest {values : Ir.ValueId → DoubleWord} {shown : CpuState}
    {entries : List (GuestRegister × Ir.ValueId)}
    (shows : ∀ entry ∈ entries, values entry.2 = shown.readGuest entry.1)
    (nonzero : ∀ entry ∈ entries, entry.1 ≠ .zero) (cpu : CpuState) (reg : GuestRegister) :
    (entries.foldl (fun cpu entry => cpu.writeGuest entry.1 (values entry.2)) cpu).readGuest reg =
      if reg ∈ entries.map Prod.fst then shown.readGuest reg else cpu.readGuest reg := by
  induction entries generalizing cpu with
  | nil => simp
  | cons entry rest ih =>
      rw [List.foldl_cons, ih (fun other member => shows other (List.mem_cons_of_mem _ member))
        (fun other member => nonzero other (List.mem_cons_of_mem _ member)),
        readGuest_writeGuest, shows entry List.mem_cons_self]
      have keep := nonzero entry List.mem_cons_self
      by_cases later : reg ∈ rest.map Prod.fst
      · rw [if_pos later, if_pos (by rw [List.map_cons]; exact List.mem_cons_of_mem _ later)]
      · by_cases same : entry.1 = reg
        · have first : reg ∈ (entry :: rest).map Prod.fst := by simp [same]
          rw [if_neg later, if_pos ⟨same, keep⟩, if_pos first, same]
        · simp [later, same, Ne.symm same]

end CpuState

end MipsRecompiler
