import Mathlib.Data.List.Count
import Mathlib.Data.List.Iterate
import Mathlib.Data.List.Nodup
import Mathlib.Data.Nat.ModEq
import MipsRecompiler.Proofs.Cpu.ImplementedBits
import MipsRecompiler.Proofs.Memory.ReadBack

/-!
# Replacement of entries

Random goes through the entries from the last one down to those that are wired, and starts again. So
the wired entries stay whatever happens, and all others are replaced in turn.
-/

set_option autoImplicit false

namespace MipsRecompiler

/-! ## The order of replacement -/

/-- The entry that is replaced after another one, if this many are wired. -/
def nextReplaced (wired slot : Nat) : Nat :=
  if slot ≤ wired then 31 else slot - 1

/-- The distances from the last entry count upwards, modulo the number of entries that are not
wired. -/
theorem nextReplaced_iterate {wired first : Nat} (unwired : wired ≤ first) (bound : first ≤ 31)
    (count : Nat) :
    (nextReplaced wired)^[count] first = 31 - (31 - first + count) % (32 - wired) := by
  induction count with
  | zero =>
      rw [Function.iterate_zero_apply, Nat.add_zero, Nat.mod_eq_of_lt (by omega)]
      omega
  | succ count ih =>
      rw [Function.iterate_succ_apply', ih, ← Nat.add_assoc,
        ← Nat.mod_add_mod (31 - first + count)]
      have below : (31 - first + count) % (32 - wired) < 32 - wired := Nat.mod_lt _ (by omega)
      generalize (31 - first + count) % (32 - wired) = distance at below
      unfold nextReplaced
      by_cases last : distance + 1 = 32 - wired
      · rw [if_pos (by omega), last, Nat.mod_self]
      · rw [if_neg (by omega), Nat.mod_eq_of_lt (by omega)]
        omega

/-- As many replacements as there are entries that are not wired take each of them once. -/
theorem count_iterate_nextReplaced {wired first : Nat} (unwired : wired ≤ first)
    (bound : first ≤ 31) {slot : Nat} (inside : slot ≤ 31) :
    (List.iterate (nextReplaced wired) first (32 - wired)).count slot =
      if wired ≤ slot then 1 else 0 := by
  have distances : List.iterate (nextReplaced wired) first (32 - wired) =
      (List.range (32 - wired)).map fun count => 31 - (31 - first + count) % (32 - wired) := by
    rw [← List.range_map_iterate]
    exact List.map_congr_left fun count _ => nextReplaced_iterate unwired bound count
  have small (count : Nat) : (31 - first + count) % (32 - wired) < 32 - wired :=
    Nat.mod_lt _ (by omega)
  rw [distances]
  split
  · rename_i member
    apply List.count_eq_one_of_mem
    · refine List.nodup_range.map_on fun early early_lt late late_lt same => ?_
      have equal : (31 - first + early) % (32 - wired) = (31 - first + late) % (32 - wired) := by
        have := small early
        have := small late
        omega
      exact (Nat.ModEq.add_left_cancel' _ equal).eq_of_lt_of_lt (List.mem_range.mp early_lt)
        (List.mem_range.mp late_lt)
    · -- The distance from the first entry replaced to this one, around the end if need be.
      refine List.mem_map.mpr ⟨(31 - slot + (32 - wired - (31 - first))) % (32 - wired), ?_, ?_⟩
      · exact List.mem_range.mpr (Nat.mod_lt _ (by omega))
      · rw [Nat.add_mod_mod, show 31 - first + (31 - slot + (32 - wired - (31 - first))) =
          31 - slot + (32 - wired) by omega, Nat.add_mod_right, Nat.mod_eq_of_lt (by omega)]
        omega
  · rename_i kept
    rw [List.count_eq_zero, List.mem_map]
    rintro ⟨count, -, rfl⟩
    have := small count
    omega

/-! ## One action -/

namespace SystemControl

variable {control : SystemControl}

/-- The number of entries at the start of the table that are not replaced. -/
def wiredCount (control : SystemControl) : Nat :=
  (control.get wired).toNat % 32

/-- Random selects an entry that is not wired. -/
structure InTurn (control : SystemControl) : Prop where
  le_random : control.wiredCount ≤ (control.get random).toNat
  random_le : (control.get random).toNat ≤ 31

theorem inTurn_reset : reset.InTurn := by
  constructor <;> decide

/-- Software cannot write Random but by writing Wired. -/
theorem get_write_random {reg : RegisterNumber} (differs : reg ≠ wired) (value : DoubleWord)
    (double : Bool) : (control.write reg value double).get random = control.get random := by
  by_cases own : reg = random
  · subst own
    rfl
  · unfold write
    dsimp only
    split <;> first
      | rfl
      | exact absurd rfl differs
      | exact get_set_of_ne own
      -- Compare acknowledges an interrupt in Cause.
      | rw [get_set_of_ne own, get_set_of_ne (by decide)]

theorem get_write_wired (control : SystemControl) (value : DoubleWord) (double : Bool) :
    (control.write wired value double).get random = 31 := by
  simp only [write]
  rw [get_set_of_ne (by decide), get_set_self]

/-- Neither Random nor Wired has changed. -/
def SameTurn (before after : SystemControl) : Prop :=
  after.get random = before.get random ∧ after.get wired = before.get wired

theorem SameTurn.of_set {reg : RegisterNumber} {value : DoubleWord} (notRandom : reg ≠ random)
    (notWired : reg ≠ wired) : SameTurn control (control.set reg value) :=
  ⟨get_set_of_ne notRandom, get_set_of_ne notWired⟩

end SystemControl

open SystemControl

def ControlAction.WritesWired : ControlAction → Prop
  | .write reg _ _ => reg = wired
  | _ => False

def ControlAction.replaces : ControlAction → Bool
  | .tlbWriteRandom => true
  | _ => false

namespace Machine

variable {β : Type} [Bus β]

theorem sameTurn_act (machine : Machine β) {action : ControlAction}
    (notWired : ¬ action.WritesWired) (keeps : action.replaces = false) :
    SameTurn machine.cpu.control (machine.act action).cpu.control := by
  cases action with
  | write reg value double =>
      exact ⟨get_write_random notWired value double,
        get_write_of_ne notWired (by decide) (by decide) value double⟩
  | tlbRead => exact ⟨TlbEntry.get_toControl _ _ random, TlbEntry.get_toControl _ _ wired⟩
  | tlbWriteIndexed => exact ⟨rfl, rfl⟩
  | tlbWriteRandom => cases keeps
  | tlbProbe =>
      exact SameTurn.of_set (by decide) (by decide)
  | access address kind pc delaySlot =>
      simp only [Machine.act]
      split
      · exact ⟨rfl, rfl⟩
      · rename_i fault _
        have spared := CpuState.spared_raise machine.cpu
          { cause := .ofFault fault, pc, delaySlot }
        exact ⟨spared.control random (by decide), spared.control wired (by decide)⟩
  | raise exception =>
      have spared := CpuState.spared_raise machine.cpu exception
      exact ⟨spared.control random (by decide), spared.control wired (by decide)⟩
  | leaveException =>
      simp only [Machine.act, mapCpu, CpuState.leaveException]
      split
      · exact SameTurn.of_set (by decide) (by decide)
      · exact SameTurn.of_set (by decide) (by decide)
  | loadLinked size address =>
      simp only [Machine.act, loadLinked, physicalOf_bind]
      cases machine.translate address .load size with
      | error fault => exact ⟨rfl, rfl⟩
      | ok physical => exact SameTurn.of_set (by decide) (by decide)

theorem random_act_tlbWriteRandom {machine : Machine β} (inTurn : machine.cpu.control.InTurn) :
    ((machine.act .tlbWriteRandom).cpu.control.get random).toNat =
      nextReplaced machine.cpu.control.wiredCount (machine.cpu.control.get random).toNat := by
  have counts : (machine.act .tlbWriteRandom).cpu.control.get random =
      if machine.cpu.control.get random ≤ machine.cpu.control.get wired &&& 0x1f then 31
      else machine.cpu.control.get random - 1 := get_set_self _ _ _
  have low : (machine.cpu.control.get wired &&& 0x1f).toNat = machine.cpu.control.wiredCount := by
    rw [BitVec.toNat_and, show (0x1f : DoubleWord).toNat = 2 ^ 5 - 1 from rfl,
      Nat.and_two_pow_sub_one_eq_mod, wiredCount]
  have bound := inTurn.random_le
  simp only [counts, nextReplaced, BitVec.le_def, low]
  split
  · rfl
  · bv_omega

theorem wired_act_tlbWriteRandom (machine : Machine β) :
    (machine.act .tlbWriteRandom).cpu.control.wiredCount = machine.cpu.control.wiredCount := by
  have kept : (machine.act .tlbWriteRandom).cpu.control.get wired =
      machine.cpu.control.get wired := get_set_of_ne (by decide)
  rw [wiredCount, kept, wiredCount]

theorem wiredCount_act (machine : Machine β) {action : ControlAction}
    (notWired : ¬ action.WritesWired) :
    (machine.act action).cpu.control.wiredCount = machine.cpu.control.wiredCount := by
  cases replaces : action.replaces with
  | false => rw [wiredCount, (sameTurn_act machine notWired replaces).2, wiredCount]
  | true =>
      cases action with
      | tlbWriteRandom => exact wired_act_tlbWriteRandom machine
      | _ => cases replaces

theorem inTurn_act {machine : Machine β} (inTurn : machine.cpu.control.InTurn)
    (action : ControlAction) : (machine.act action).cpu.control.InTurn := by
  by_cases writes : action.WritesWired
  · cases action with
    | write reg value double =>
        subst writes
        have starts : ((machine.act (.write wired value double)).cpu.control.get random).toNat =
            31 := congrArg BitVec.toNat (get_write_wired _ value double)
        have low : (machine.act (.write wired value double)).cpu.control.wiredCount < 32 :=
          Nat.mod_lt _ (by decide)
        exact ⟨by omega, by omega⟩
    | _ => cases writes
  · have wired := wiredCount_act machine writes
    have := inTurn.le_random
    have := inTurn.random_le
    cases replaces : action.replaces with
    | false =>
        have random := congrArg BitVec.toNat (sameTurn_act machine writes replaces).1
        exact ⟨by omega, by omega⟩
    | true =>
        cases action with
        | tlbWriteRandom =>
            have random := random_act_tlbWriteRandom inTurn
            unfold nextReplaced at random
            split at random
            · exact ⟨by omega, by omega⟩
            · exact ⟨by omega, by omega⟩
        | _ => cases replaces

theorem inTurn_run {machine : Machine β} (inTurn : machine.cpu.control.InTurn)
    (actions : List ControlAction) : (actions.foldl act machine).cpu.control.InTurn := by
  induction actions generalizing machine with
  | nil => exact inTurn
  | cons action rest ih => exact ih (inTurn_act inTurn action)

/-! ## Runs -/

/-- The entries that Random selects when they are replaced. -/
def replaced (machine : Machine β) : List ControlAction → List (Fin 32)
  | [] => []
  | action :: rest =>
    (if action.replaces then [Tlb.slotOf (machine.cpu.control.get random)] else []) ++
      replaced (machine.act action) rest

/-- While Wired is not written, the entries are replaced in the order that is counted through. -/
theorem replaced_eq {machine : Machine β} (inTurn : machine.cpu.control.InTurn)
    {actions : List ControlAction} (unwired : ∀ action ∈ actions, ¬ action.WritesWired) :
    (machine.replaced actions).map Fin.val =
      List.iterate (nextReplaced machine.cpu.control.wiredCount)
        (machine.cpu.control.get random).toNat (actions.countP ControlAction.replaces) := by
  induction actions generalizing machine with
  | nil => rfl
  | cons action rest ih =>
      rw [List.forall_mem_cons] at unwired
      have later := ih (inTurn_act inTurn action) unwired.2
      rw [wiredCount_act machine unwired.1] at later
      rw [replaced, List.map_append, later]
      cases replaces : action.replaces with
      | false =>
          rw [(sameTurn_act machine unwired.1 replaces).1,
            List.countP_cons_of_neg (by simp [replaces])]
          rfl
      | true =>
          cases action with
          | tlbWriteRandom =>
              rw [random_act_tlbWriteRandom inTurn, List.countP_cons_of_pos replaces]
              have selects : (Tlb.slotOf (machine.cpu.control.get random)).val =
                  (machine.cpu.control.get random).toNat :=
                Nat.mod_eq_of_lt (Nat.lt_succ_of_le inTurn.random_le)
              exact congrArg (· :: _) selects
          | _ => cases replaces

/-- Whatever happens after reset, the wired entries are not replaced, and as many replacements as
there are other entries take each of these once. -/
theorem replaced_in_turn (bus : β) (history : List ControlAction) :
    let machine := history.foldl act ⟨.reset, .reset, bus⟩
    let wired := (machine.cpu.control.get SystemControl.wired).toNat % 32
    let random := (machine.cpu.control.get SystemControl.random).toNat
    (wired ≤ random ∧ random ≤ 31) ∧
    (∀ slot : Fin 32, (machine.act .tlbWriteRandom).tlb.entries.get slot =
      if slot.val = random then .ofControl machine.cpu.control
      else machine.tlb.entries.get slot) ∧
    (∀ slot : Fin 32, slot.val < wired →
      (machine.act .tlbWriteRandom).tlb.entries.get slot = machine.tlb.entries.get slot) ∧
    ∀ actions : List ControlAction, (∀ action ∈ actions, ¬ action.WritesWired) →
      actions.countP ControlAction.replaces = 32 - wired →
      ∀ slot : Fin 32, (machine.replaced actions).count slot =
        if wired ≤ slot.val then 1 else 0 := by
  intro machine wired random
  have inTurn : machine.cpu.control.InTurn := inTurn_run inTurn_reset history
  have unwired : wired ≤ random := inTurn.le_random
  have bound : random ≤ 31 := inTurn.random_le
  have writes (slot : Fin 32) : (machine.act .tlbWriteRandom).tlb.entries.get slot =
      if slot.val = random then .ofControl machine.cpu.control
      else machine.tlb.entries.get slot := by
    have selects : (Tlb.slotOf (machine.cpu.control.get SystemControl.random)).val = random :=
      Nat.mod_eq_of_lt (Nat.lt_succ_of_le bound)
    refine (Tlb.entries_writeSlot _ _ slot _).trans ?_
    simp only [Fin.ext_iff, selects, eq_comm (a := random)]
  refine ⟨⟨unwired, bound⟩, writes, fun slot below => ?_, fun actions spared counts slot => ?_⟩
  · rw [writes, if_neg (by omega)]
  · have order := replaced_eq inTurn spared
    rw [counts] at order
    rw [← List.count_map_of_injective _ Fin.val fun _ _ => Fin.ext, order]
    exact count_iterate_nextReplaced unwired bound (Nat.le_of_lt_succ slot.isLt)

/-- Wired is set to more than there are entries, so that 28 of them stay, and Random has counted down
once. The other four are replaced beside a probe, an exception and a write of the last entry. -/
theorem wiredGuest_replaced :
    let history : List ControlAction := [.write wired 60 true, .tlbWriteRandom]
    let machine := history.foldl act (⟨.reset, .reset, .ofSize 0⟩ : Machine Ram)
    let actions : List ControlAction := [.tlbWriteRandom, .tlbProbe, .tlbWriteRandom,
      .write SystemControl.index 31 true, .tlbWriteIndexed, .tlbWriteRandom,
      .access 0x2000 .load 0xffffffff80000000 false, .tlbWriteRandom]
    (machine.cpu.control.get wired).toNat % 32 = 28 ∧
      (∀ action ∈ actions, ¬ action.WritesWired) ∧
      actions.countP ControlAction.replaces = 32 - 28 ∧
      machine.replaced actions = [30, 29, 28, 31] ∧
      (machine.replaced actions).count 28 = 1 ∧ (machine.replaced actions).count 27 = 0 ∧
      (machine.act .tlbWriteRandom).tlb.entries.get 27 = machine.tlb.entries.get 27 := by
  intro history machine actions
  have low : (machine.cpu.control.get wired).toNat % 32 = 28 := by decide +kernel
  have spared : ∀ action ∈ actions, ¬ action.WritesWired := by
    simp only [actions, List.forall_mem_cons]
    refine ⟨id, id, id, ?_, id, id, id, id, List.forall_mem_nil _⟩
    exact (by decide : SystemControl.index ≠ wired)
  have counts : actions.countP ControlAction.replaces = 32 - 28 := rfl
  obtain ⟨-, -, stays, turns⟩ := replaced_in_turn (Ram.ofSize 0) history
  have once := turns actions spared (by rw [counts, low])
  refine ⟨low, spared, counts, by decide +kernel, ?_, ?_, ?_⟩
  · exact (once 28).trans (if_pos (by rw [low]; decide))
  · exact (once 27).trans (if_neg (by rw [low]; decide))
  · exact stays 27 (by rw [low]; decide)

end Machine

end MipsRecompiler
