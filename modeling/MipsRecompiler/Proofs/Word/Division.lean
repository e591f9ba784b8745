import Mathlib.Tactic.Linarith
import Mathlib.Tactic.Ring
import MipsRecompiler.Word.Arithmetic

/-!
# Exact products and quotients

HI and LO after a multiplication or a division, against the arithmetic of integers. A product is
as wide as HI and LO together and loses nothing; a quotient truncates towards zero. The two
inputs a divider has no answer for are a zero divisor and the lowest number divided by -1.
-/

set_option autoImplicit false

namespace MipsRecompiler

section Reading

variable {width : Nat}

/-- A word as a signed or an unsigned number. -/
def readAs (signed : Bool) (x : BitVec width) : Int :=
  if signed then x.toInt else x.toNat

@[simp] theorem readAs_signed (x : BitVec width) : readAs true x = x.toInt := rfl

@[simp] theorem readAs_unsigned (x : BitVec width) : readAs false x = x.toNat := rfl

/-- A word at twice its width, with the same value. -/
def widenAs (signed : Bool) (x : BitVec width) : BitVec (2 * width) :=
  if signed then x.signExtend (2 * width) else x.zeroExtend (2 * width)

theorem readAs_inj {signed : Bool} {x y : BitVec width} :
    readAs signed x = readAs signed y ↔ x = y := by
  cases signed with
  | true => exact BitVec.toInt_inj
  | false => rw [readAs_unsigned, readAs_unsigned, Int.natCast_inj, BitVec.toNat_inj]

theorem readAs_eq_zero_iff {signed : Bool} {x : BitVec width} : readAs signed x = 0 ↔ x = 0 := by
  have zero : readAs signed (0 : BitVec width) = 0 := by cases signed <;> simp
  rw [← zero, readAs_inj]

theorem toInt_neg_one (positive : 0 < width) : (-1 : BitVec width).toInt = -1 := by
  rw [show (-1 : BitVec width) = BitVec.allOnes width from BitVec.neg_one_eq_allOnes]
  rw [BitVec.toInt_allOnes, if_pos positive]

end Reading

/-- HI and LO hold the upper and the lower half of the product, which is exact. -/
structure ExactProduct {width : Nat} (signed : Bool) (x y hi lo : BitVec width) : Prop where
  whole : readAs signed hi * 2 ^ width + lo.toNat = readAs signed x * readAs signed y

/-- The one quotient that does not fit: the lowest number divided by -1. -/
def Overflows {width : Nat} (signed : Bool) (n d : BitVec width) : Prop :=
  readAs signed n = -2 ^ (width - 1) ∧ readAs signed d = -1

/-- What a divider leaves in HI and LO. The quotient is truncated towards zero, so the remainder
has the sign of the dividend. -/
structure ExactDivision {width : Nat} (signed : Bool) (n d hi lo : BitVec width) : Prop where
  quotient : readAs signed d ≠ 0 → ¬Overflows signed n d →
    readAs signed lo = (readAs signed n).tdiv (readAs signed d)
  restored : readAs signed d ≠ 0 → ¬Overflows signed n d →
    readAs signed n = readAs signed lo * readAs signed d + readAs signed hi
  remainder : readAs signed d ≠ 0 → readAs signed hi = (readAs signed n).tmod (readAs signed d)
  sign : readAs signed d ≠ 0 → 0 ≤ readAs signed n * readAs signed hi
  small : readAs signed d ≠ 0 → |readAs signed hi| < |readAs signed d|
  overflow : Overflows signed n d → hi = 0 ∧ lo = n
  zero : readAs signed d = 0 → hi = n ∧ lo = if readAs signed n < 0 then 1 else -1

/-! ## Products -/

section Product

variable {width : Nat}

theorem toNat_splitProduct (product : BitVec (2 * width)) :
    (splitProduct width product).1.toNat * 2 ^ width + (splitProduct width product).2.toNat =
      product.toNat := by
  have square : 2 ^ (2 * width) = 2 ^ width * 2 ^ width := by rw [two_mul, pow_add]
  have bound : product.toNat / 2 ^ width < 2 ^ width :=
    Nat.div_lt_of_lt_mul (square ▸ product.isLt)
  simp only [splitProduct, BitVec.toNat_setWidth, BitVec.toNat_ushiftRight,
    Nat.shiftRight_eq_div_pow, Nat.mod_eq_of_lt bound]
  exact Nat.div_add_mod' _ _

theorem toInt_splitProduct (positive : 0 < width) (product : BitVec (2 * width)) :
    (splitProduct width product).1.toInt * 2 ^ width + (splitProduct width product).2.toNat =
      product.toInt := by
  obtain ⟨half, rfl⟩ : ∃ half, width = half + 1 := ⟨width - 1, by omega⟩
  have sum := toNat_splitProduct product
  have low := (splitProduct (half + 1) product).2.isLt
  generalize (splitProduct (half + 1) product).1 = upper at *
  generalize (splitProduct (half + 1) product).2 = lower at *
  have square : 2 ^ (2 * (half + 1)) = 2 ^ (half + 1) * 2 ^ (half + 1) := by rw [two_mul, pow_add]
  -- The sign of the product is that of its upper half.
  have signs : 2 * product.toNat < 2 ^ (2 * (half + 1)) ↔ 2 * upper.toNat < 2 ^ (half + 1) := by
    rw [← sum, square]
    rw [pow_succ 2 half] at *
    constructor
    · intro below
      by_contra above
      nlinarith
    · intro below
      have step : upper.toNat + 1 ≤ 2 ^ half := by omega
      nlinarith
  simp only [BitVec.toInt, signs]
  zify at sum square
  split
  · exact_mod_cast sum
  · push_cast
    rw [square, ← sum]
    ring

theorem readAs_splitProduct (signed : Bool) (positive : 0 < width)
    (product : BitVec (2 * width)) :
    readAs signed (splitProduct width product).1 * 2 ^ width +
      (splitProduct width product).2.toNat = readAs signed product := by
  cases signed with
  | true => exact toInt_splitProduct positive product
  | false =>
    have sum := toNat_splitProduct product
    simp only [readAs_unsigned]
    exact_mod_cast sum

/-- Whether the product of two words does not fit their width. -/
def productOverflows (signed : Bool) (x y : BitVec width) : Bool :=
  if signed then x.smulOverflow y else x.umulOverflow y

theorem readAs_mul {signed : Bool} {x y : BitVec width}
    (fits : productOverflows signed x y = false) :
    readAs signed (x * y) = readAs signed x * readAs signed y := by
  cases signed with
  | true => exact BitVec.toInt_mul_of_not_smulOverflow (Bool.not_eq_true _ ▸ fits)
  | false =>
    have exact := BitVec.toNat_mul_of_not_umulOverflow (Bool.not_eq_true _ ▸ fits)
    simp only [readAs_unsigned]
    exact_mod_cast exact

theorem readAs_widenAs {signed : Bool} {x : BitVec width} :
    readAs signed (widenAs signed x) = readAs signed x := by
  have wider : width ≤ 2 * width := by omega
  cases signed with
  | true => exact BitVec.toInt_signExtend_of_le wider
  | false => exact congrArg Int.ofNat (BitVec.toNat_setWidth_of_le wider)

theorem widenAs_fits (positive : 0 < width) (signed : Bool) (x y : BitVec width) :
    productOverflows signed (widenAs signed x) (widenAs signed y) = false := by
  obtain ⟨half, rfl⟩ : ∃ half, width = half + 1 := ⟨width - 1, by omega⟩
  cases signed with
  | true =>
    have value : ∀ z : BitVec (half + 1), (widenAs true z).toInt = z.toInt :=
      fun z => (readAs_widenAs : readAs true (widenAs true z) = readAs true z)
    have upper := BitVec.toInt_mul_toInt_le (x := x) (y := y)
    have lower := BitVec.le_toInt_mul_toInt (x := x) (y := y)
    have room : (2 : Int) ^ ((half + 1) * 2 - 2) < 2 ^ (2 * (half + 1) - 1) :=
      pow_lt_pow_right₀ (by norm_num) (by omega)
    simp only [productOverflows, if_true, BitVec.smulOverflow, value, Bool.or_eq_false_iff,
      decide_eq_false_iff_not]
    exact ⟨by omega, by omega⟩
  | false =>
    have value : ∀ z : BitVec (half + 1), (widenAs false z).toNat = z.toNat :=
      fun z => BitVec.toNat_setWidth_of_le (by omega)
    have below : x.toNat * y.toNat < 2 ^ (2 * (half + 1)) := by
      rw [two_mul, pow_add]
      exact Nat.mul_lt_mul'' x.isLt y.isLt
    simp only [productOverflows, Bool.false_eq_true, if_false, BitVec.umulOverflow, value,
      decide_eq_false_iff_not]
    omega

theorem splitProduct_exact (positive : 0 < width) (signed : Bool) (x y : BitVec width) :
    ExactProduct signed x y (splitProduct width (widenAs signed x * widenAs signed y)).1
      (splitProduct width (widenAs signed x * widenAs signed y)).2 where
  whole := by
    rw [readAs_splitProduct signed positive, readAs_mul (widenAs_fits positive signed x y),
      readAs_widenAs, readAs_widenAs]

end Product

/-! ## Quotients -/

section Quotient

variable {width : Nat}

theorem not_overflows_unsigned (n d : BitVec width) : ¬Overflows false n d := by
  intro overflows
  have negative : (d.toNat : Int) = -1 := overflows.2
  omega

theorem overflows_signed_iff (positive : 0 < width) {n d : BitVec width} :
    Overflows true n d ↔ n = BitVec.intMin width ∧ d = -1 := by
  rw [Overflows, readAs_signed, readAs_signed, ← BitVec.toInt_intMin_of_pos positive,
    ← toInt_neg_one positive, BitVec.toInt_inj, BitVec.toInt_inj]

theorem tmod_sign (n d : Int) : 0 ≤ n * n.tmod d := by
  rcases Int.le_total 0 n with nonneg | nonpos
  · exact Int.mul_nonneg nonneg (Int.tmod_nonneg d nonneg)
  · have flipped : 0 ≤ (-n).tmod d := Int.tmod_nonneg d (by omega)
    rw [Int.neg_tmod] at flipped
    exact Int.mul_nonneg_of_nonpos_of_nonpos nonpos (by omega)

theorem abs_tmod_lt (n : Int) {d : Int} (nonzero : d ≠ 0) : |n.tmod d| < |d| := by
  rw [Int.abs_eq_natAbs, Int.abs_eq_natAbs, Int.natAbs_tmod]
  exact_mod_cast Nat.mod_lt _ (Int.natAbs_pos.mpr nonzero)

/-- A divider is exact as soon as its remainder is, and its quotient where it fits. -/
theorem ExactDivision.of_truncated {signed : Bool} {n d hi lo : BitVec width}
    (quotient : readAs signed d ≠ 0 → ¬Overflows signed n d →
      readAs signed lo = (readAs signed n).tdiv (readAs signed d))
    (remainder : readAs signed d ≠ 0 →
      readAs signed hi = (readAs signed n).tmod (readAs signed d))
    (overflow : Overflows signed n d → lo = n)
    (zero : readAs signed d = 0 → hi = n ∧ lo = if readAs signed n < 0 then 1 else -1) :
    ExactDivision signed n d hi lo where
  quotient := quotient
  remainder := remainder
  zero := zero
  restored nonzero fits := by
    rw [quotient nonzero fits, remainder nonzero]
    exact (Int.tdiv_mul_add_tmod _ _).symm
  sign nonzero := by
    rw [remainder nonzero]
    exact tmod_sign _ _
  small nonzero := by
    rw [remainder nonzero]
    exact abs_tmod_lt _ nonzero
  overflow overflows := by
    have nonzero : readAs signed d ≠ 0 := by rw [overflows.2]; decide
    have vanishes : readAs signed hi = 0 := by
      rw [remainder nonzero, overflows.2, Int.tmod_neg, Int.tmod_one]
    exact ⟨readAs_eq_zero_iff.mp vanishes, overflow overflows⟩

theorem divideSigned_exact (positive : 0 < width) (n d : BitVec width) :
    ExactDivision true n d (divideSigned n d).1 (divideSigned n d).2 := by
  by_cases divisor : d = 0
  · have unfit : ¬Overflows true n d := by
      intro overflows
      have negative := overflows.2
      rw [readAs_eq_zero_iff.mpr divisor] at negative
      contradiction
    refine .of_truncated (fun nonzero => absurd (readAs_eq_zero_iff.mpr divisor) nonzero)
      (fun nonzero => absurd (readAs_eq_zero_iff.mpr divisor) nonzero)
      (fun overflows => absurd overflows unfit) fun _ => ?_
    simp only [divideSigned, if_pos divisor, BitVec.msb_eq_toInt, decide_eq_true_eq,
      readAs_signed, true_and]
    exact if_congr Iff.rfl rfl rfl
  · simp only [divideSigned, if_neg divisor]
    refine .of_truncated (fun _ fits => ?_) (fun _ => BitVec.toInt_srem n d) (fun overflows => ?_)
      fun zero => absurd (readAs_eq_zero_iff.mp zero) divisor
    · rw [overflows_signed_iff positive, not_and_or] at fits
      exact BitVec.toInt_sdiv_of_ne_or_ne n d fits
    · obtain ⟨rfl, rfl⟩ := (overflows_signed_iff positive).mp overflows
      exact BitVec.intMin_sdiv_neg_one

theorem divideUnsigned_exact (n d : BitVec width) :
    ExactDivision false n d (divideUnsigned n d).1 (divideUnsigned n d).2 := by
  by_cases divisor : d = 0
  · refine .of_truncated (fun nonzero => absurd (readAs_eq_zero_iff.mpr divisor) nonzero)
      (fun nonzero => absurd (readAs_eq_zero_iff.mpr divisor) nonzero)
      (fun overflows => absurd overflows (not_overflows_unsigned n d)) fun _ => ?_
    have nonneg : ¬(n.toNat : Int) < 0 := by omega
    exact ⟨by rw [divideUnsigned, if_pos divisor], by
      rw [divideUnsigned, if_pos divisor, readAs_unsigned, if_neg nonneg]⟩
  · simp only [divideUnsigned, if_neg divisor]
    refine .of_truncated (fun _ _ => ?_) (fun _ => ?_)
      (fun overflows => absurd overflows (not_overflows_unsigned n d))
      fun zero => absurd (readAs_eq_zero_iff.mp zero) divisor
    · simp only [readAs_unsigned, BitVec.udiv_eq, BitVec.toNat_udiv, Int.ofNat_tdiv]
    · simp only [readAs_unsigned, BitVec.umod_eq, BitVec.toNat_umod, Int.ofNat_tmod]

end Quotient

/-! ## Checked arithmetic -/

section Checked

variable {width : Nat}

/-- A product that stops the program when it overflows. -/
def checkedMul (signed : Bool) (x y : BitVec width) : Option (BitVec width) :=
  if productOverflows signed x y then none else some (x * y)

/-- A remainder that stops the program on a zero divisor. -/
def checkedRem (signed : Bool) (n d : BitVec width) : Option (BitVec width) :=
  if d = 0 then none else some (if signed then n.srem d else n.umod d)

/-- A quotient that stops the program on a zero divisor and wraps where it does not fit. -/
def checkedDiv (signed : Bool) (n d : BitVec width) : Option (BitVec width) :=
  if d = 0 then none else some (if signed then n.sdiv d else n.udiv d)

theorem setWidth_signExtend {x : BitVec width} (narrow : width ≤ 64) :
    (x.signExtend 64).setWidth width = x := by
  ext place bound
  simp only [BitVec.getElem_setWidth, BitVec.getLsbD_signExtend, bound, if_true,
    show place < 64 by omega, decide_true, Bool.true_and]
  exact BitVec.getLsbD_eq_getElem bound

end Checked

/-! ## The operations -/

namespace MulDivOp

def width : MulDivOp → Nat
  | .mult | .multU | .div | .divU => 32
  | .dMult | .dMultU | .dDiv | .dDivU => 64

def signed : MulDivOp → Bool
  | .mult | .div | .dMult | .dDiv => true
  | .multU | .divU | .dMultU | .dDivU => false

def multiplies : MulDivOp → Bool
  | .mult | .multU | .dMult | .dMultU => true
  | .div | .divU | .dDiv | .dDivU => false

/-- HI and LO, sign extended from the width of the operands, are what exact arithmetic gives. -/
structure Exact (op : MulDivOp) (a b hi lo : DoubleWord) : Prop where
  upper : hi = (hi.setWidth op.width).signExtend 64
  lower : lo = (lo.setWidth op.width).signExtend 64
  product : op.multiplies = true →
    ExactProduct op.signed (a.setWidth op.width) (b.setWidth op.width)
      (hi.setWidth op.width) (lo.setWidth op.width)
  division : op.multiplies = false →
    ExactDivision op.signed (a.setWidth op.width) (b.setWidth op.width)
      (hi.setWidth op.width) (lo.setWidth op.width)

def pair (op : MulDivOp) (x y : BitVec op.width) : BitVec op.width × BitVec op.width :=
  if op.multiplies then splitProduct op.width (widenAs op.signed x * widenAs op.signed y)
  else if op.signed then divideSigned x y
  else divideUnsigned x y

theorem apply_eq_pair (op : MulDivOp) (a b : DoubleWord) :
    op.apply a b =
      ((op.pair (a.setWidth op.width) (b.setWidth op.width)).1.signExtend 64,
        (op.pair (a.setWidth op.width) (b.setWidth op.width)).2.signExtend 64) := by
  cases op with
  | mult | multU | div | divU => rfl
  | dMult | dMultU =>
    simp only [width, BitVec.setWidth_eq, BitVec.signExtend_eq]
    rfl
  | dDiv | dDivU =>
    simp only [width, BitVec.setWidth_eq, BitVec.signExtend_eq]
    rfl

theorem width_pos (op : MulDivOp) : 0 < op.width := by cases op <;> decide

theorem width_le (op : MulDivOp) : op.width ≤ 64 := by cases op <;> decide

theorem pair_product {op : MulDivOp} (product : op.multiplies = true) (x y : BitVec op.width) :
    ExactProduct op.signed x y (op.pair x y).1 (op.pair x y).2 := by
  rw [pair, if_pos product]
  exact splitProduct_exact op.width_pos op.signed x y

theorem pair_division {op : MulDivOp} (division : op.multiplies = false)
    (x y : BitVec op.width) :
    ExactDivision op.signed x y (op.pair x y).1 (op.pair x y).2 := by
  rw [pair, division, if_neg Bool.false_ne_true]
  cases sign : op.signed with
  | true => exact divideSigned_exact op.width_pos x y
  | false => exact divideUnsigned_exact x y

theorem exact_pair (op : MulDivOp) (a b : DoubleWord) :
    op.Exact a b (op.apply a b).1 (op.apply a b).2 := by
  rw [apply_eq_pair]
  exact {
    upper := by rw [setWidth_signExtend op.width_le]
    lower := by rw [setWidth_signExtend op.width_le]
    product := fun product => by
      simp only [setWidth_signExtend op.width_le]
      exact pair_product product _ _
    division := fun division => by
      simp only [setWidth_signExtend op.width_le]
      exact pair_division division _ _ }

/-! ## A host that stops on an error -/

/-- The operation on a host where a product that does not fit and a zero divisor stop the
program. Only the quotient of the lowest number and -1 may wrap. -/
def checked (op : MulDivOp) (a b : DoubleWord) : Option (DoubleWord × DoubleWord) := do
  let x := a.setWidth op.width
  let y := b.setWidth op.width
  let (hi, lo) ←
    if op.multiplies then do
      let product ← checkedMul op.signed (widenAs op.signed x) (widenAs op.signed y)
      pure (splitProduct op.width product)
    else if y = 0 then pure (x, if op.signed && x.msb then 1 else -1)
    else do
      let remainder ← checkedRem op.signed x y
      let quotient ← checkedDiv op.signed x y
      pure (remainder, quotient)
  pure (hi.signExtend 64, lo.signExtend 64)

theorem checked_eq (op : MulDivOp) (a b : DoubleWord) :
    op.checked a b = some (op.apply a b) := by
  rw [apply_eq_pair, checked, pair]
  generalize a.setWidth op.width = x
  generalize b.setWidth op.width = y
  cases op.multiplies with
  | true =>
    have fits := widenAs_fits op.width_pos op.signed x y
    simp [checkedMul, fits]
  | false =>
    by_cases divisor : y = BitVec.ofNat op.width 0
    · cases sign : op.signed <;> simp [divisor, divideSigned, divideUnsigned]
    · cases sign : op.signed <;>
        simp [divisor, checkedRem, checkedDiv, divideSigned, divideUnsigned]

/-- Multiplications and divisions agree with exact integer arithmetic, read their operands at
their own width only, and never stop the host. -/
theorem apply_exact (op : MulDivOp) (a b : DoubleWord) :
    op.Exact a b (op.apply a b).1 (op.apply a b).2 ∧
      (∀ a' b' : DoubleWord, a'.setWidth op.width = a.setWidth op.width →
        b'.setWidth op.width = b.setWidth op.width → op.apply a' b' = op.apply a b) ∧
      op.checked a b = some (op.apply a b) := by
  refine ⟨exact_pair op a b, fun a' b' left right => ?_, checked_eq op a b⟩
  rw [apply_eq_pair, apply_eq_pair, left, right]

/-- The lowest number divided by -1, with anything in the upper halves. -/
theorem lowest_divided :
    div.Exact 0x12345678_80000000 0x1_ffffffff 0 0xffffffff_80000000 ∧
      div.apply 0x12345678_80000000 0x1_ffffffff = div.apply 0x80000000 0xffffffff := by
  obtain ⟨exact, narrow, -⟩ := apply_exact div 0x12345678_80000000 0x1_ffffffff
  have computes : div.apply 0x12345678_80000000 0x1_ffffffff = (0, 0xffffffff_80000000) := by
    decide
  rw [computes] at exact
  exact ⟨exact, (narrow 0x80000000 0xffffffff (by decide) (by decide)).symm⟩

end MulDivOp

end MipsRecompiler
