import Mathlib.Data.List.Forall2
import MipsRecompiler.Instruction.Assembler
import MipsRecompiler.Instruction.View

/-!
# Places in instruction words

What is written at a place is read there again, and nowhere else. So a word is decoded by the
places that the decoder looks at, whatever stands at the others.
-/

set_option autoImplicit false

namespace MipsRecompiler

namespace OperandPlace

variable {place other : OperandPlace}

def read (place : OperandPlace) (word : Word) : BitVec place.width :=
  word.extractLsb' place.position place.width

/-- The bits of an operand that are kept. -/
def cut (place : OperandPlace) (operand : DoubleWord) : BitVec place.width :=
  (operand >>> place.dropped).setWidth place.width

/-- Places that share no bit. -/
def Apart (place other : OperandPlace) : Prop :=
  place.position + place.width ≤ other.position ∨ other.position + other.width ≤ place.position

instance : DecidableRel Apart := fun _ _ => inferInstanceAs (Decidable (_ ∨ _))

/-- A place within an instruction word. -/
def Inside (place : OperandPlace) : Prop :=
  place.position + place.width ≤ 32

instance : DecidablePred Inside := fun _ => inferInstanceAs (Decidable (_ ≤ _))

theorem read_or (word more : Word) :
    place.read (word ||| more) = place.read word ||| place.read more :=
  BitVec.extractLsb'_or ..

theorem read_encode (inside : place.Inside) (operand : DoubleWord) :
    place.read (place.encode operand) = place.cut operand := by
  refine BitVec.eq_of_getLsbD_eq fun i below => ?_
  have low : place.position + i < 32 := by
    simp only [Inside] at inside
    omega
  simp [read, encode, cut, below, low]

theorem read_encode_apart (apart : place.Apart other) (operand : DoubleWord) :
    place.read (other.encode operand) = 0#_ := by
  refine BitVec.eq_of_getLsbD_eq fun i below => ?_
  rcases apart with before | behind
  · have low : place.position + i < other.position := by omega
    simp [read, encode, BitVec.getLsbD_extractLsb', BitVec.getLsbD_shiftLeft, low]
  · have high : other.width ≤ place.position + i - other.position := by omega
    simp [read, encode, BitVec.getLsbD_extractLsb', BitVec.getLsbD_shiftLeft, high]

/-! ## Several operands -/

/-- A word with operands at their places. -/
def fill (base : Word) (operands : List (OperandPlace × DoubleWord)) : Word :=
  operands.foldl (fun word (place, operand) => word ||| place.encode operand) base

theorem read_fill_apart {operands : List (OperandPlace × DoubleWord)} (base : Word)
    (apart : ∀ entry ∈ operands, place.Apart entry.1) :
    place.read (fill base operands) = place.read base := by
  induction operands generalizing base with
  | nil => rfl
  | cons entry rest ih =>
      obtain ⟨first, others⟩ := List.forall_mem_cons.mp apart
      have more := ih (base ||| entry.1.encode entry.2) others
      rw [read_or, read_encode_apart first, BitVec.or_zero] at more
      exact more

theorem read_fill {operands : List (OperandPlace × DoubleWord)} {base : Word}
    (inside : ∀ entry ∈ operands, entry.1.Inside)
    (apart : operands.Pairwise fun one other => Apart one.1 other.1)
    (blank : ∀ entry ∈ operands, entry.1.read base = 0#_) :
    ∀ entry ∈ operands, entry.1.read (fill base operands) = entry.1.cut entry.2 := by
  induction operands generalizing base with
  | nil => exact List.forall_mem_nil _
  | cons entry rest ih =>
      obtain ⟨within, insideRest⟩ := List.forall_mem_cons.mp inside
      obtain ⟨beside, apartRest⟩ := List.pairwise_cons.mp apart
      obtain ⟨nothing, blankRest⟩ := List.forall_mem_cons.mp blank
      -- The first operand is in its place before the others come, which keep clear of it.
      refine List.forall_mem_cons.mpr ⟨?_, ih insideRest apartRest fun other member => ?_⟩
      · have own := read_fill_apart (base ||| entry.1.encode entry.2) beside
        rw [read_or, nothing, read_encode within, BitVec.zero_or] at own
        exact own
      · rw [read_or, blankRest other member, read_encode_apart (beside other member).symm,
          BitVec.or_zero]

end OperandPlace

/-! ## Fields -/

inductive Field where
  | opcode
  | rs
  | rt
  | rd
  | shiftAmount
  | funct
  | immediate
  | target
  | format
  | ft
  | fs
  | fd
  | condition
  deriving DecidableEq, Repr

def Field.place : Field → OperandPlace
  | opcode => .opcode
  | rs => .rs
  | rt => .rt
  | rd => .rd
  | shiftAmount => .shiftAmount
  | funct => .funct
  | immediate => .immediate
  | target => .target
  | format => .rs
  | ft => .ft
  | fs => .fs
  | fd => .fd
  | condition => .condition

/-- The layout that an instruction of a form is read in: its fields from the left. -/
def Form.fields (form : Form) : List Field :=
  match form.layout with
  | "J" => [.opcode, .target]
  | "I" => [.opcode, .rs, .rt, .immediate]
  | "F" => [.opcode, .format, .ft, .fs, .fd, .funct]
  | _ => [.opcode, .rs, .rt, .rd, .shiftAmount, .funct]

namespace Instruction

def field (inst : Instruction) : Field → Nat
  | .opcode => inst.opcode.val
  | .rs => inst.rs.val
  | .rt => inst.rt.val
  | .rd => inst.rd.val
  | .shiftAmount => inst.shiftAmount.val
  | .funct => inst.funct.val
  | .immediate => inst.immediate.toNat
  | .target => (inst.word.extractLsb' 0 26).toNat
  | .format => inst.format.val
  | .ft => inst.ft.val
  | .fs => inst.fs.val
  | .fd => inst.fd.val
  | .condition => inst.condition.val

theorem field_eq (inst : Instruction) (field : Field) :
    inst.field field = (field.place.read inst.word).toNat := by
  cases field <;> rfl

end Instruction

/-! ## Views -/

namespace View

/-- What a decoded instruction says in the fields of its layout, from the left. -/
def fields : View → List Nat
  | immediate view =>
    [view.opcode.toNat, view.rs.toNat, view.rt.toNat, view.immediate.toNat]
  | jump view => [view.opcode.toNat, view.target.toNat]
  | register view =>
    [view.opcode.toNat, view.rs.toNat, view.rt.toNat, view.rd.toNat, view.shiftAmount.toNat,
      view.funct.toNat]
  | float view =>
    [view.opcode.toNat, view.format.toNat, view.ft.toNat, view.fs.toNat, view.fd.toNat,
      view.funct.toNat]
  | reserved _ | unimplemented _ => []

-- Neighbouring fields join to one that is as wide as both, until there is one of 32 bits.

theorem word_immediate (word : Word) : (immediate (.ofWord word)).word = word := by
  simp (disch := decide) only [View.word, ImmediateView.ofWord,
    BitVec.extractLsb'_append_extractLsb'_eq_extractLsb']
  exact BitVec.extractLsb'_eq_self

theorem word_jump (word : Word) : (jump (.ofWord word)).word = word := by
  simp (disch := decide) only [View.word, JumpView.ofWord,
    BitVec.extractLsb'_append_extractLsb'_eq_extractLsb']
  exact BitVec.extractLsb'_eq_self

theorem word_register (word : Word) : (register (.ofWord word)).word = word := by
  simp (disch := decide) only [View.word, RegisterView.ofWord,
    BitVec.extractLsb'_append_extractLsb'_eq_extractLsb']
  exact BitVec.extractLsb'_eq_self

theorem word_float (word : Word) : (float (.ofWord word)).word = word := by
  simp (disch := decide) only [View.word, FloatView.ofWord,
    BitVec.extractLsb'_append_extractLsb'_eq_extractLsb']
  exact BitVec.extractLsb'_eq_self

end View

/-- The fields of a layout make up the whole word. -/
theorem Form.word_view (form : Form) (word : Word) : (form.view word).word = word := by
  cases form with
  | jump => exact View.word_jump word
  | immediate _ | upperImmediate | branchOne | branchTwo | load | store | floatLoad | floatStore
  | branchSelected | trapImmediate _ | cache | floatBranch => exact View.word_immediate word
  | floatThree | floatTwo | floatCompare => exact View.word_float word
  | _ => exact View.word_register word

theorem Form.fields_view (form : Form) (inst : Instruction) :
    (form.view inst.word).fields = form.fields.map inst.field := by
  cases form <;> rfl

namespace Instruction

/-- Whatever an instruction is decoded to stands for the same word. -/
theorem word_view (inst : Instruction) : inst.view.word = inst.word := by
  unfold view
  split
  · exact Form.word_view _ _
  · rfl
  · rfl

theorem view_of_decode {inst : Instruction} {name : String} {form : Form} {operation : Operation}
    (decodes : inst.decode = .operation name form operation) :
    inst.view = form.view inst.word := by
  rw [view, decodes]

/-! ## What the decoder looks at -/

variable {one other : Instruction}

theorem decode_congr (opcode : other.opcode = one.opcode)
    (special : one.opcode.val = 0x00 → other.funct = one.funct)
    (selected : one.opcode.val = 0x01 → other.rt = one.rt)
    (control : one.opcode.val = 0x10 → other.rs = one.rs ∧ other.funct = one.funct)
    (float : one.opcode.val = 0x11 → other.float = one.float) : other.decode = one.decode := by
  unfold decode
  rw [opcode]
  split
  case h_1 is => rw [special is]
  case h_2 is => rw [selected is]
  case h_17 is => rw [(control is).1, (control is).2]
  case h_18 is => exact float is
  all_goals rfl

theorem floatFunction_compare {funct : Nat} (compares : 0x30 ≤ funct) :
    floatFunction funct = .operation "C" .floatCompare .floatCompare := by
  unfold floatFunction
  split
  case h_21 => exact if_pos compares
  all_goals omega

theorem float_congr (rs : other.rs = one.rs) (branch : one.rs.val = 8 → other.rt = one.rt)
    (function : one.rs.val ≠ 8 →
      other.funct = one.funct ∨ 0x30 ≤ other.funct.val ∧ 0x30 ≤ one.funct.val) :
    other.float = one.float := by
  unfold float
  rw [rs]
  split
  case h_7 is => rw [branch is]
  case h_8 is | h_9 is | h_10 is | h_11 is =>
    rcases function (by omega) with same | ⟨compares, also⟩
    · rw [same]
    · rw [floatFunction_compare compares, floatFunction_compare also]
  all_goals rfl

/-- The upper two bits of the function code, which tell a floating point comparison. -/
def comparing : OperandPlace := ⟨0, 2, 4⟩

theorem comparing_read (inst : Instruction) :
    (comparing.read inst.word).toNat = inst.funct.val / 16 := by
  have funct : inst.funct.val = (inst.word.extractLsb' 0 6).toNat := rfl
  rw [funct]
  simp only [OperandPlace.read, comparing, BitVec.extractLsb'_toNat, Nat.shiftRight_eq_div_pow]
  omega

/-- The places that decide what an instruction means. -/
def deciding (inst : Instruction) : List OperandPlace :=
  .opcode ::
    match inst.opcode.val with
    | 0x00 => [.funct]
    | 0x01 => [.rt]
    | 0x10 => [.rs, .funct]
    | 0x11 =>
      .rs ::
        if inst.rs.val = 8 then [.rt]
        else if 0x30 ≤ inst.funct.val then [comparing]
        else [.funct]
    | _ => []

/-- Instructions that have the same bits there mean the same. -/
theorem decode_of_deciding
    (same : ∀ place ∈ one.deciding, place.read other.word = place.read one.word) :
    other.decode = one.decode := by
  have at_ {place : OperandPlace} (member : place ∈ one.deciding) :
      (place.read other.word).toFin = (place.read one.word).toFin :=
    congrArg BitVec.toFin (same place member)
  refine decode_congr (at_ List.mem_cons_self) ?_ ?_ ?_ ?_ <;> intro is
  · exact at_ (by simp [deciding, is] : OperandPlace.funct ∈ one.deciding)
  · exact at_ (by simp [deciding, is] : OperandPlace.rt ∈ one.deciding)
  · exact ⟨at_ (by simp [deciding, is] : OperandPlace.rs ∈ one.deciding),
      at_ (by simp [deciding, is] : OperandPlace.funct ∈ one.deciding)⟩
  · refine float_congr (at_ (by simp [deciding, is] : OperandPlace.rs ∈ one.deciding)) ?_ ?_
    · intro branch
      exact at_ (by simp [deciding, is, branch] : OperandPlace.rt ∈ one.deciding)
    · -- All function codes that compare are one entry, whatever condition they hold.
      intro plain
      by_cases compares : 0x30 ≤ one.funct.val
      · have upper := same comparing (by simp [deciding, is, plain, compares])
        have equal := congrArg BitVec.toNat upper
        rw [comparing_read, comparing_read] at equal
        exact .inr ⟨by omega, compares⟩
      · exact .inl
          (at_ (by simp [deciding, is, plain, compares] : OperandPlace.funct ∈ one.deciding))

end Instruction

end MipsRecompiler
