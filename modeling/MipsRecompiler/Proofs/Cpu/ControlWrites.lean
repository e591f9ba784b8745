import MipsRecompiler.Cpu.SystemControl

/-!
# Software writes of system control registers

A write changes its own register, and beside it at most Random or Cause. The registers that describe
an entry of the table hold, after any number of writes, the implemented bits of what was written to
them last.
-/

set_option autoImplicit false

namespace MipsRecompiler

namespace SystemControl

variable {control : SystemControl} {reg other : RegisterNumber}

theorem get_write_of_ne (differs : reg ≠ other) (notRandom : random ≠ other)
    (notCause : cause ≠ other) (value : DoubleWord) (double : Bool) :
    (control.write reg value double).get other = control.get other := by
  unfold write
  dsimp only
  split <;> first
    | rfl
    | exact get_set_of_ne differs
    -- Wired resets Random, and Compare acknowledges an interrupt in Cause.
    | rw [get_set_of_ne differs, get_set_of_ne notRandom]
    | rw [get_set_of_ne differs, get_set_of_ne notCause]

private theorem written_and {mask : DoubleWord} (low : mask = (mask.setWidth 32).setWidth 64)
    (value : DoubleWord) (double : Bool) :
    (if double then value else signExtendWord value) &&& mask = value &&& mask := by
  cases double with
  | true => rfl
  | false =>
      apply BitVec.eq_of_getLsbD_eq
      intro index bound
      rw [BitVec.getLsbD_and, BitVec.getLsbD_and, if_neg Bool.false_ne_true]
      by_cases inside : index < 32
      · congr 1
        rw [signExtendWord, BitVec.getLsbD_signExtend, BitVec.getLsbD_setWidth]
        simp [inside, bound]
      · rw [low, BitVec.getLsbD_setWidth, BitVec.getLsbD_setWidth]
        simp [inside]

theorem get_write_pageMask (control : SystemControl) (value : DoubleWord) (double : Bool) :
    (control.write pageMask value double).get pageMask = value &&& pageMaskBits :=
  (get_set_self _ _ _).trans (written_and (by decide) value double)

theorem get_write_entryLo0 (control : SystemControl) (value : DoubleWord) (double : Bool) :
    (control.write entryLo0 value double).get entryLo0 = value &&& entryLoBits :=
  (get_set_self _ _ _).trans (written_and (by decide) value double)

theorem get_write_entryLo1 (control : SystemControl) (value : DoubleWord) (double : Bool) :
    (control.write entryLo1 value double).get entryLo1 = value &&& entryLoBits :=
  (get_set_self _ _ _).trans (written_and (by decide) value double)

end SystemControl

/-- A write of a system control register, of the whole register or of a sign extended word. -/
structure ControlWrite where
  reg : RegisterNumber
  value : DoubleWord
  double : Bool

namespace ControlWrite

def run (control : SystemControl) (writes : List ControlWrite) : SystemControl :=
  writes.foldl (fun control write => control.write write.reg write.value write.double) control

def last? (reg : RegisterNumber) : List ControlWrite → Option DoubleWord
  | [] => none
  | write :: rest => (last? reg rest).or (if write.reg = reg then some write.value else none)

variable {reg : RegisterNumber}

/-- A register that keeps some bits of what is written to it has those of the last write. -/
theorem get_run {bits : DoubleWord} (notRandom : SystemControl.random ≠ reg)
    (notCause : SystemControl.cause ≠ reg)
    (keeps : ∀ (control : SystemControl) value double,
      (control.write reg value double).get reg = value &&& bits)
    (control : SystemControl) (writes : List ControlWrite) :
    (run control writes).get reg =
      ((last? reg writes).map (· &&& bits)).getD (control.get reg) := by
  induction writes generalizing control with
  | nil => rfl
  | cons write rest ih =>
      refine (ih _).trans ?_
      rw [last?]
      cases last? reg rest with
      | some value => rfl
      | none =>
          by_cases own : write.reg = reg
          · subst own
            simp [keeps]
          · simp [own, SystemControl.get_write_of_ne own notRandom notCause]

theorem get_run_of_unwritten {writes : List ControlWrite}
    (notRandom : SystemControl.random ≠ reg) (notCause : SystemControl.cause ≠ reg)
    (unwritten : ∀ write ∈ writes, write.reg ≠ reg) (control : SystemControl) :
    (run control writes).get reg = control.get reg := by
  induction writes generalizing control with
  | nil => rfl
  | cons write rest ih =>
      rw [List.forall_mem_cons] at unwritten
      refine (ih unwritten.2 _).trans ?_
      exact SystemControl.get_write_of_ne unwritten.1 notRandom notCause _ _

end ControlWrite

end MipsRecompiler
