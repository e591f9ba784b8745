import MipsRecompiler.Word

/-!
# Floating point on bit patterns

Registers hold raw bit patterns, a single precision number or a 32 bit integer in the low word.
Arithmetic is that of the standard formats with rounding to nearest. Conversions to integers
round in a given direction and clamp to the range of the target; NaN becomes zero.
-/

set_option autoImplicit false

namespace MipsRecompiler

inductive FloatFormat where
  | single
  | double
  | word
  | long
  deriving DecidableEq, Repr, Inhabited

instance : Enumeration FloatFormat where
  all := [.single, .double, .word, .long]
  name
    | .single => "Single"
    | .double => "Double"
    | .word => "Word"
    | .long => "Long"
  mem_all format := by cases format <;> decide

namespace FloatFormat

def ofField? : Nat → Option FloatFormat
  | 16 => some .single
  | 17 => some .double
  | 20 => some .word
  | 21 => some .long
  | _ => none

def isFloat : FloatFormat → Bool
  | .single | .double => true
  | .word | .long => false

/-- Whether a value of the format takes a whole register. -/
def is64Bit : FloatFormat → Bool
  | .double | .long => true
  | .single | .word => false

/-- The format of an arithmetic instruction, which must be a floating point one. -/
def arithmeticOfField? (field : Nat) : Option FloatFormat :=
  (ofField? field).filter isFloat

/-- Conversions join two different formats, at least one of them a floating point format. -/
def convertible (source target : FloatFormat) : Bool :=
  source != target && (source.isFloat || target.isFloat)

end FloatFormat

inductive FloatOp where
  | add
  | sub
  | mul
  | div
  deriving DecidableEq, Repr, Inhabited

instance : Enumeration FloatOp where
  all := [.add, .sub, .mul, .div]
  name
    | .add => "Add"
    | .sub => "Sub"
    | .mul => "Mul"
    | .div => "Div"
  mem_all op := by cases op <;> decide

inductive FloatUnaryOp where
  | sqrt
  | abs
  | neg
  deriving DecidableEq, Repr, Inhabited

instance : Enumeration FloatUnaryOp where
  all := [.sqrt, .abs, .neg]
  name
    | .sqrt => "Sqrt"
    | .abs => "Abs"
    | .neg => "Neg"
  mem_all op := by cases op <;> decide

inductive RoundMode where
  | nearest
  | truncate
  | ceil
  | floor
  deriving DecidableEq, Repr, Inhabited

instance : Enumeration RoundMode where
  all := [.nearest, .truncate, .ceil, .floor]
  name
    | .nearest => "Nearest"
    | .truncate => "Truncate"
    | .ceil => "Ceil"
    | .floor => "Floor"
  mem_all mode := by cases mode <;> decide

namespace FloatingPoint

def singleOf (bits : DoubleWord) : Float32 :=
  Float32.ofBits ⟨bits.setWidth 32⟩

def doubleOf (bits : DoubleWord) : Float :=
  Float.ofBits ⟨bits⟩

/-- The bits of a single precision number, with the upper word clear. -/
def ofSingle (value : Float32) : DoubleWord :=
  value.toBits.toBitVec.setWidth 64

def ofDouble (value : Float) : DoubleWord :=
  value.toBits.toBitVec

/-- The result of a binary operation. Integer formats are read as double precision. -/
def binary (op : FloatOp) (format : FloatFormat) (a b : DoubleWord) : DoubleWord :=
  match format with
  | .single =>
    let x := singleOf a
    let y := singleOf b
    ofSingle <| match op with
      | .add => x + y
      | .sub => x - y
      | .mul => x * y
      | .div => x / y
  | _ =>
    let x := doubleOf a
    let y := doubleOf b
    ofDouble <| match op with
      | .add => x + y
      | .sub => x - y
      | .mul => x * y
      | .div => x / y

/-- The result of a unary operation. The sign operations change the sign bit only, also of NaN. -/
def unary (op : FloatUnaryOp) (format : FloatFormat) (a : DoubleWord) : DoubleWord :=
  match format with
  | .single =>
    let low : Word := a.setWidth 32
    match op with
    | .sqrt => ofSingle (singleOf a).sqrt
    | .abs => (low &&& 0x7fffffff).setWidth 64
    | .neg => (low ^^^ 0x80000000).setWidth 64
  | _ =>
    match op with
    | .sqrt => ofDouble (doubleOf a).sqrt
    | .abs => a &&& 0x7fffffffffffffff
    | .neg => a ^^^ 0x8000000000000000

/-- The integer next to `numerator / denominator` in the direction of `mode`. A half goes to the
even neighbour. -/
def roundRatio (mode : RoundMode) (numerator : Int) (denominator : Nat) : Int :=
  let below := numerator.fdiv denominator
  let rest := numerator.fmod denominator
  match mode with
  | .floor => below
  | .ceil => if rest = 0 then below else below + 1
  | .truncate => numerator.tdiv denominator
  | .nearest =>
    if 2 * rest < denominator then below
    else if denominator < 2 * rest then below + 1
    else if below % 2 = 0 then below else below + 1

/-- A double precision number as a `width` bit two's complement integer: rounded by `mode`, then
clamped to the range. Infinities clamp too, and NaN is zero. -/
def toInteger (width : Nat) (mode : RoundMode) (bits : DoubleWord) : BitVec width :=
  let negative := bits.msb
  let exponent := (bits.extractLsb' 52 11).toNat
  let fraction := (bits.extractLsb' 0 52).toNat
  let low := BitVec.intMin width
  let high := BitVec.intMax width
  if exponent = 2047 then
    if fraction ≠ 0 then 0 else if negative then low else high
  else
    -- The magnitude is `mantissa * 2 ^ (scale - 1074)`.
    let mantissa := if exponent = 0 then fraction else fraction + 1 <<< 52
    let scale := if exponent = 0 then 0 else exponent - 1
    let signed : Int := if negative then -(mantissa : Int) else mantissa
    let rounded :=
      if 1074 ≤ scale then signed <<< (scale - 1074)
      else roundRatio mode signed (1 <<< (1074 - scale))
    if rounded < low.toInt then low
    else if high.toInt < rounded then high
    else BitVec.ofInt width rounded

/-- Converts between formats by way of double precision, so a 64 bit integer that becomes single
precision is rounded twice. -/
def convert (source target : FloatFormat) (mode : RoundMode) (bits : DoubleWord) : DoubleWord :=
  let value : Float := match source with
    | .single => (singleOf bits).toFloat
    | .double => doubleOf bits
    | .word => (Int32.ofBitVec (bits.setWidth 32)).toFloat
    | .long => (Int64.ofBitVec bits).toFloat
  match target with
  | .single => ofSingle value.toFloat32
  | .double => ofDouble value
  | .word => (toInteger 32 mode (ofDouble value)).setWidth 64
  | .long => toInteger 64 mode (ofDouble value)

/-- A comparison, by the low three bits of its condition: less, equal and unordered. -/
def compare (condition : Nat) (format : FloatFormat) (a b : DoubleWord) : Bool :=
  let read (bits : DoubleWord) : Float := match format with
    | .single => (singleOf bits).toFloat
    | _ => doubleOf bits
  let x := read a
  let y := read b
  (condition.testBit 2 && x < y) || (condition.testBit 1 && x == y) ||
    (condition.testBit 0 && (x.isNaN || y.isNaN))

def isNaN (format : FloatFormat) (bits : DoubleWord) : Bool :=
  match format with
  | .single => (singleOf bits).isNaN
  | _ => (doubleOf bits).isNaN

end FloatingPoint

end MipsRecompiler
