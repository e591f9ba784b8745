import Mathlib.Data.List.Forall2
import MipsRecompiler.HostCode.Listing

/-!
# Host code reads back

Reading what was written gives the operations that were written. A reader is described by the
bytes that it takes, wherever they stand and whatever follows them.
-/

set_option autoImplicit false

namespace MipsRecompiler.HostCode

open Ir (Arguments BlockExit GuestRegister Site StateField)

/-- The reader takes exactly these bytes, and gives a value with this property. -/
def Reads {α : Type} (reader : Reader α) (bytes : List UInt8) (result : α → Prop) : Prop :=
  ∀ offset rest, ∃ value, result value ∧
    reader ⟨offset, bytes ++ rest⟩ = .ok (value, ⟨offset + bytes.length, rest⟩)

namespace Reads

variable {α γ : Type}

theorem pure {value : α} {result : α → Prop} (holds : result value) :
    Reads (Pure.pure value) [] result :=
  fun _ _ => ⟨value, holds, rfl⟩

theorem bind {reader : Reader α} {next : α → Reader γ} {bytes more : List UInt8}
    {middle : α → Prop} {result : γ → Prop} (first : Reads reader bytes middle)
    (second : ∀ value, middle value → Reads (next value) more result) :
    Reads (reader >>= next) (bytes ++ more) result := by
  intro offset rest
  obtain ⟨value, holds, reads⟩ := first offset (more ++ rest)
  obtain ⟨last, finishes, continues⟩ := second value holds (offset + bytes.length) rest
  refine ⟨last, finishes, ?_⟩
  rw [List.append_assoc, List.length_append, ← Nat.add_assoc, ← continues]
  simp only [Bind.bind, StateT.bind, Except.bind, reads]

theorem seq {reader : Reader α} {next : α → Reader γ} {bytes more : List UInt8} {value : α}
    {result : γ → Prop} (first : Reads reader bytes (· = value))
    (second : Reads (next value) more result) : Reads (reader >>= next) (bytes ++ more) result :=
  first.bind fun _ same => same ▸ second

/-- A reader with a known result, and nothing behind it but what is made of the result. -/
theorem last {reader : Reader α} {make : α → γ} {bytes : List UInt8} {value : α}
    {result : γ → Prop} (first : Reads reader bytes (· = value)) (holds : result (make value)) :
    Reads (reader >>= fun value => Pure.pure (make value)) bytes result := by
  have whole : Reads (reader >>= fun value => Pure.pure (make value)) (bytes ++ []) result :=
    first.seq (pure holds)
  rwa [List.append_nil] at whole

/-! ## Numbers and codes -/

theorem bytes (taken : List UInt8) : Reads (Reader.bytes taken.length) taken (· = taken) := by
  intro offset rest
  refine ⟨taken, rfl, ?_⟩
  simp [Reader.bytes, get, getThe, MonadStateOf.get, StateT.get, StateT.bind,
    Bind.bind, Except.bind, Pure.pure, Except.pure]
  rfl

theorem byte (value : UInt8) : Reads Reader.byte [value] (· = value) :=
  fun _ _ => ⟨value, rfl, rfl⟩

theorem littleEndian_length (count n : Nat) : (littleEndian count n).length = count := by
  induction count generalizing n with
  | zero => rfl
  | succ count ih => simp [littleEndian, ih]

theorem number {width : Nat} (value : BitVec width) (whole : 8 * (width / 8) = width) :
    Reads (Reader.number width) (littleEndian (width / 8) value.toNat) (· = value) := by
  have taken := bytes (littleEndian (width / 8) value.toNat)
  rw [littleEndian_length] at taken
  refine taken.last ?_
  rw [ofLittleEndian_littleEndian, whole, Nat.one_shiftLeft, Nat.mod_eq_of_lt value.isLt]
  simp

theorem flag (value : Bool) :
    Reads Reader.flag [if value then 1 else 0] (· = value) := by
  cases value <;> exact fun _ _ => ⟨_, rfl, rfl⟩

theorem coded {α : Type} [DecidableEq α] [Enumeration α] (value : α)
    (small : (Enumeration.all : List α).length ≤ 256) :
    Reads (Reader.coded α) [(Enumeration.code value).toUInt8] (· = value) := by
  have bound : Enumeration.code value < 256 :=
    Nat.lt_of_lt_of_le (List.idxOf_lt_length_iff.mpr (Enumeration.mem_all value)) small
  have same : (Enumeration.code value).toUInt8.toNat = Enumeration.code value := by
    simp [Nat.mod_eq_of_lt bound]
  have finds : Reads (Reader.require (Enumeration.ofCode? (Enumeration.code value).toUInt8.toNat))
      [] (· = value) := by
    rw [same, Enumeration.ofCode?_code]
    exact pure rfl
  exact (byte _).seq finds

/-! ## Operands and other fields -/

theorem operand (value : Operand) : Reads Reader.operand value.bytes (· = value) := by
  cases value with
  | general reg => exact (byte 0).seq ((byte reg).last rfl)
  | float reg => exact (byte 1).seq ((byte reg).last rfl)
  | spill slot => exact (byte 2).seq ((number slot rfl).last rfl)
  | immediate value => exact (byte 3).seq ((number value rfl).last rfl)

theorem register (reg : GuestRegister) :
    Reads Reader.register [registerByte reg] (· = reg) := by
  have bound : (registerByte reg).toNat = reg.number.val := by
    have less := reg.number.isLt
    simp [registerByte]
    omega
  have whole : Reads Reader.register ([registerByte reg] ++ []) (· = reg) := by
    refine (byte (registerByte reg)).seq ?_
    rw [dif_pos (by rw [bound]; exact reg.number.isLt)]
    exact pure (by simp [bound])
  exact whole

theorem stateField {field : StateField} (fits : ∀ reg, field = .control reg → reg < 32)
    {bytes : List UInt8} (written : Piece.stateField field = .ok bytes) :
    Reads Reader.stateField bytes (· = field) := by
  cases field with
  | hi =>
      cases written
      exact (byte 0).seq ((byte 0).seq (pure rfl))
  | lo =>
      cases written
      exact (byte 1).seq ((byte 0).seq (pure rfl))
  | fcr31 =>
      cases written
      exact (byte 2).seq ((byte 0).seq (pure rfl))
  | control reg =>
      cases written
      have small : (⟨reg⟩ : UInt8) < 32 := fits reg rfl
      change Reads _ ([3] ++ ([⟨reg⟩] ++ [])) _
      refine (byte 3).seq ((byte ⟨reg⟩).seq ?_)
      simp only [small, if_true]
      exact pure rfl

theorem routine (code : RoutineCode) :
    Reads Reader.routine [code.kind.val.toUInt8, code.first, code.second] (· = code) := by
  have bound : code.kind.val.toUInt8.toNat = code.kind.val := by
    have less := code.kind.isLt
    simp
    omega
  change Reads _ ([code.kind.val.toUInt8] ++ ([code.first] ++ ([code.second] ++ []))) _
  refine (byte _).seq ((byte _).seq ((byte _).seq ?_))
  rw [dif_pos (by rw [bound]; exact code.kind.isLt)]
  exact pure (by simp [bound])

end Reads

/-! ## Joining pieces -/

@[simp] theorem joinPieces_nil : joinPieces [] = ([], none) := rfl

/-- Pieces are complete if the first is there and the others are complete. -/
theorem joinPieces_cons {piece : Piece} {pieces : List Piece} {bytes : List UInt8} :
    joinPieces (piece :: pieces) = (bytes, none) ↔
      ∃ first rest, piece = .ok first ∧ joinPieces pieces = (rest, none) ∧ bytes = first ++ rest := by
  cases piece with
  | error missing => simp [joinPieces, Piece.missing?]
  | ok first =>
      simp only [joinPieces, List.takeWhile_cons, Piece.missing?, Option.isNone_none, if_true,
        List.flatMap_cons, List.findSome?_cons, Prod.mk.injEq, Except.toOption, Option.getD_some]
      constructor
      · rintro ⟨rfl, complete⟩
        exact ⟨first, _, rfl, ⟨rfl, complete⟩, rfl⟩
      · rintro ⟨_, rest, same, ⟨rfl, complete⟩, rfl⟩
        injection same with same
        exact ⟨by rw [same], complete⟩

theorem joinPieces_append {pieces more : List Piece} {bytes : List UInt8} :
    joinPieces (pieces ++ more) = (bytes, none) ↔
      ∃ first rest, joinPieces pieces = (first, none) ∧ joinPieces more = (rest, none) ∧
        bytes = first ++ rest := by
  induction pieces generalizing bytes with
  | nil => simp
  | cons piece pieces ih =>
      simp only [List.cons_append, joinPieces_cons, ih]
      constructor
      · rintro ⟨first, _, rfl, ⟨middle, rest, complete, ends, rfl⟩, rfl⟩
        exact ⟨first ++ middle, rest, ⟨first, middle, rfl, complete, rfl⟩, ends, by simp⟩
      · rintro ⟨_, rest, ⟨first, middle, rfl, complete, rfl⟩, ends, rfl⟩
        exact ⟨first, middle ++ rest, rfl, ⟨middle, rest, complete, ends, rfl⟩, by simp⟩

theorem source_eq_ok {operand : Except CompileError Operand} {bytes : List UInt8} :
    Piece.source operand = .ok bytes ↔ ∃ place, operand = .ok place ∧ bytes = place.bytes := by
  cases operand with
  | error reason => simp [Piece.source, Except.map]
  | ok place => simp [Piece.source, Except.map, eq_comm]

/-! ## Sites -/

/-- The site that was read is the one that was written, and its write-backs read as those that
were written. -/
structure SiteReads (pending : Site PendingFlush) (site : Site PackedFlush) : Prop where
  pc : site.pc = pending.pc
  delaySlot : site.delaySlot = pending.delaySlot
  retired : site.retired = pending.retired
  flush : ∃ entries : List (GuestRegister × Operand),
    pending.flush = entries.map (fun entry => (entry.1, .ok entry.2)) ∧
      site.flush.read = entries.map .ok

theorem readEntries_flushBytes {flush : PendingFlush} {bytes : List UInt8}
    (written : Piece.flushBytes flush = (bytes, none)) (offset : Nat) :
    ∃ entries : List (GuestRegister × Operand),
      flush = entries.map (fun entry => (entry.1, .ok entry.2)) ∧
        PackedFlush.readEntries flush.length ⟨offset, bytes⟩ = entries.map .ok := by
  induction flush generalizing bytes offset with
  | nil => exact ⟨[], rfl, rfl⟩
  | cons entry rest ih =>
      obtain ⟨reg, operand⟩ := entry
      simp only [Piece.flushBytes, List.flatMap_cons, List.cons_append, List.nil_append,
        joinPieces_cons, source_eq_ok] at written
      obtain ⟨_, _, same, ⟨_, more, ⟨place, rfl, rfl⟩, written, rfl⟩, rfl⟩ := written
      cases same
      have entry : Reads
          (do return (← Reader.register, ← Reader.operand) : Reader (GuestRegister × Operand))
          ([registerByte reg] ++ place.bytes) (· = (reg, place)) :=
        (Reads.register reg).seq ((Reads.operand place).last rfl)
      obtain ⟨_, rfl, reads⟩ := entry offset more
      obtain ⟨entries, same, later⟩ := ih written (offset + ([registerByte reg] ++ place.bytes).length)
      refine ⟨(reg, place) :: entries, by rw [same]; rfl, ?_⟩
      rw [List.append_assoc] at reads
      simp only [List.length_cons, PackedFlush.readEntries, reads, List.map_cons, later]

theorem flushBytes_length {flush : PendingFlush} {bytes : List UInt8}
    (written : Piece.flushBytes flush = (bytes, none)) : bytes.length ≤ 10 * flush.length := by
  induction flush generalizing bytes with
  | nil =>
      cases written
      exact Nat.le_refl 0
  | cons entry rest ih =>
      obtain ⟨reg, operand⟩ := entry
      simp only [Piece.flushBytes, List.flatMap_cons, List.cons_append, List.nil_append,
        joinPieces_cons, source_eq_ok] at written
      obtain ⟨_, _, same, ⟨_, more, ⟨place, rfl, rfl⟩, written, rfl⟩, rfl⟩ := written
      cases same
      have rest := ih written
      have small : place.bytes.length ≤ 9 := by
        cases place <;> simp [Operand.bytes, Reads.littleEndian_length]
      simp only [List.length_append, List.length_cons, List.length_nil]
      omega

/-! ## Operations -/

/-- The reader takes what the pieces were joined to, if none is missing. -/
def Restores {α : Type} (reader : Reader α) (pieces : List Piece) (result : α → Prop) : Prop :=
  ∀ bytes, joinPieces pieces = (bytes, none) → Reads reader bytes result

namespace Restores

variable {α γ : Type} {pieces more : List Piece} {result : γ → Prop}

theorem pure {value : γ} (holds : result value) : Restores (Pure.pure value) [] result := by
  intro bytes joined
  cases joined
  exact .pure holds

theorem append {reader : Reader α} {next : α → Reader γ} {middle : α → Prop}
    (first : Restores reader pieces middle)
    (second : ∀ value, middle value → Restores (next value) more result) :
    Restores (reader >>= next) (pieces ++ more) result := by
  intro bytes joined
  obtain ⟨start, rest, one, two, rfl⟩ := joinPieces_append.mp joined
  exact (first start one).bind fun value holds => second value holds rest two

theorem last {reader : Reader α} {make : α → γ} {middle : α → Prop}
    (first : Restores reader pieces middle) (holds : ∀ value, middle value → result (make value)) :
    Restores (reader >>= fun value => Pure.pure (make value)) pieces result := by
  have whole : Restores (reader >>= fun value => Pure.pure (make value)) (pieces ++ []) result :=
    first.append fun value known => pure (holds value known)
  rwa [List.append_nil] at whole

theorem known {reader : Reader α} {next : α → Reader γ} {piece : Piece} {value : α}
    (first : ∀ bytes, piece = .ok bytes → Reads reader bytes (· = value))
    (second : Restores (next value) pieces result) :
    Restores (reader >>= next) (piece :: pieces) result := by
  intro bytes joined
  obtain ⟨start, rest, one, two, rfl⟩ := joinPieces_cons.mp joined
  exact (first start one).seq (second rest two)

theorem byte {next : UInt8 → Reader γ} (value : UInt8)
    (second : Restores (next value) pieces result) :
    Restores (Reader.byte >>= next) (Piece.byte value :: pieces) result :=
  known (fun _ written => by cases written; exact .byte value) second

theorem flag {next : Bool → Reader γ} {value : Bool}
    (second : Restores (next value) pieces result) :
    Restores (Reader.flag >>= next) (Piece.flag value :: pieces) result :=
  known (fun _ written => by cases written; exact .flag value) second

theorem number {width : Nat} {next : BitVec width → Reader γ} {value : BitVec width}
    (whole : 8 * (width / 8) = width) (second : Restores (next value) pieces result) :
    Restores (Reader.number width >>= next) (Piece.number value :: pieces) result :=
  known (fun _ written => by cases written; exact .number value whole) second

theorem coded [DecidableEq α] [Enumeration α] {next : α → Reader γ} {value : α}
    (small : (Enumeration.all : List α).length ≤ 256)
    (second : Restores (next value) pieces result) :
    Restores (Reader.coded α >>= next) (Piece.coded value :: pieces) result :=
  known (fun _ written => by cases written; exact .coded value small) second

theorem target {next : Operand → Reader γ} {value : Operand}
    (second : Restores (next value) pieces result) :
    Restores (Reader.operand >>= next) (Piece.target value :: pieces) result :=
  known (fun _ written => by cases written; exact .operand value) second

theorem register {next : GuestRegister → Reader γ} {value : GuestRegister}
    (second : Restores (next value) pieces result) :
    Restores (Reader.register >>= next) (Piece.register value :: pieces) result :=
  known (fun _ written => by cases written; exact .register value) second

theorem source {next : Operand → Reader γ} {operand : Except CompileError Operand}
    (second : ∀ place, operand = .ok place → Restores (next place) pieces result) :
    Restores (Reader.operand >>= next) (Piece.source operand :: pieces) result := by
  intro bytes joined
  obtain ⟨start, rest, one, two, rfl⟩ := joinPieces_cons.mp joined
  obtain ⟨place, same, rfl⟩ := source_eq_ok.mp one
  exact (Reads.operand place).seq (second place same rest two)

theorem exception (descriptor : ExceptionDescriptor) :
    Restores Reader.exception (Piece.exception descriptor) (· = descriptor) := by
  obtain ⟨⟨code, badAddress, refill, coprocessor⟩, pc, delaySlot⟩ := descriptor
  have small : code.number.toUInt8.toNat = code.number := by cases code <;> rfl
  have found : Reader.require (ExceptionCode.ofNumber? code.number.toUInt8.toNat) =
      Pure.pure code := by rw [small, ExceptionCode.ofNumber?_number]; rfl
  refine .byte _ ?_
  rw [found, pure_bind]
  refine .number rfl <| .flag <| .flag <| .number rfl <| .flag <| .number rfl <| .pure ?_
  cases badAddress <;> rfl

theorem blockExit (exit : BlockExit) :
    Restores Reader.blockExit (Piece.blockExit exit) (· = exit) := by
  cases exit with
  | exception descriptor =>
      refine .byte 0 ((exception descriptor).last ?_)
      rintro _ rfl
      rfl
  | branch pc => exact .byte 1 (.number rfl (.pure rfl))

theorem site {pending : Site PendingFlush} (small : pending.flush.length ≤ 64) :
    Restores Reader.site (Piece.site pending) (SiteReads pending) := by
  intro bytes joined
  obtain ⟨pc, delaySlot, retired, flush⟩ := pending
  cases written : Piece.flushBytes flush with
  | mk entries missing =>
      cases missing with
      | some reason => simp [Piece.site, written, joinPieces_cons] at joined
      | none =>
          have count : (BitVec.ofNat 16 flush.length).toNat = flush.length := by
            rw [BitVec.toNat_ofNat]
            exact Nat.mod_eq_of_lt (by simp only at small; omega)
          have length : (BitVec.ofNat 16 entries.length).toNat = entries.length := by
            have bound := flushBytes_length written
            rw [BitVec.toNat_ofNat]
            exact Nat.mod_eq_of_lt (by simp only at small; omega)
          have tail : Restores
              (do
                let offset := (← get).offset
                let rest ← Reader.bytes (BitVec.ofNat 16 entries.length).toNat
                return {
                  pc, delaySlot, retired
                  flush := {
                    count := (BitVec.ofNat 16 flush.length).toNat
                    entries := { offset, rest } } })
              [.ok entries] (SiteReads ⟨pc, delaySlot, retired, flush⟩) := by
            intro bytes joined offset rest
            obtain ⟨_, _, same, ends, rfl⟩ := joinPieces_cons.mp joined
            cases same
            rw [joinPieces_nil] at ends
            cases ends
            obtain ⟨taken, whole, reads⟩ := Reads.bytes entries offset rest
            rw [whole] at reads
            obtain ⟨places, same, back⟩ := readEntries_flushBytes written offset
            refine ⟨⟨pc, delaySlot, retired, ⟨flush.length, ⟨offset, entries⟩⟩⟩,
              ⟨rfl, rfl, rfl, places, same, back⟩, ?_⟩
            rw [length, count, List.append_nil]
            simp [get, getThe, MonadStateOf.get, StateT.get, StateT.bind, Bind.bind, Except.bind,
              Pure.pure, Except.pure, reads]
            rfl
          simp only [Piece.site, written, Option.isSome_none, Bool.false_eq_true, if_false,
            Option.map_none, Option.toList_none, List.append_nil] at joined
          exact (number rfl <| flag <| number rfl <| number rfl <| number rfl tail) bytes joined

theorem optionalSite {pending : Option (Site PendingFlush)}
    (small : ∀ site ∈ pending, site.flush.length ≤ 64) :
    Restores Reader.optionalSite (Piece.optionalSite pending)
      (Option.Rel SiteReads pending) := by
  cases pending with
  | none => exact .flag (.pure .none)
  | some present =>
      exact .flag ((site (small present rfl)).last fun _ reads => .some reads)

end Restores

/-- The operation that was read is the one that was written. -/
inductive OpReads : PendingOp → ReadOp → Prop where
  | move {target : Operand} {source operand} (same : source = .ok operand) :
      OpReads (.move target source) (.move target operand)
  | loadGuest {target : Operand} {reg : GuestRegister} :
      OpReads (.loadGuest target reg) (.loadGuest target reg)
  | flushGuest {reg : GuestRegister} {source operand} (same : source = .ok operand) :
      OpReads (.flushGuest reg source) (.flushGuest reg operand)
  | binary {op target left right lhs rhs pending site} (one : left = .ok lhs)
      (two : right = .ok rhs) (exit : Option.Rel SiteReads pending site) :
      OpReads (.binary op target left right pending) (.binary op target lhs rhs site)
  | not {target source operand} (same : source = .ok operand) :
      OpReads (.not target source) (.not target operand)
  | cast {type target source operand} (same : source = .ok operand) :
      OpReads (.cast type target source) (.cast type target operand)
  | shift {op width target left right lhs rhs} (one : left = .ok lhs) (two : right = .ok rhs) :
      OpReads (.shift op width target left right) (.shift op width target lhs rhs)
  | check {mode target left right lhs rhs} (one : left = .ok lhs) (two : right = .ok rhs) :
      OpReads (.check mode target left right) (.check mode target lhs rhs)
  | translate {access size target source operand pending site} (same : source = .ok operand)
      (exit : SiteReads pending site) :
      OpReads (.translate access size target source pending)
        (.translate access size target operand site)
  | load {type target source operand} (same : source = .ok operand) :
      OpReads (.load type target source) (.load type target operand)
  | store {size left right lhs rhs} (one : left = .ok lhs) (two : right = .ok rhs) :
      OpReads (.store size left right) (.store size lhs rhs)
  | loadState {field : StateField} {target : Operand} :
      OpReads (.loadState field target) (.loadState field target)
  | storeState {field : StateField} {source operand} (same : source = .ok operand) :
      OpReads (.storeState field source) (.storeState field operand)
  | mulDiv {op left right lhs rhs} (one : left = .ok lhs) (two : right = .ok rhs) :
      OpReads (.mulDiv op left right) (.mulDiv op lhs rhs)
  | setExitPc {source operand} (same : source = .ok operand) :
      OpReads (.setExitPc source) (.setExitPc operand)
  | setExitPcIf {condition whenTrue whenFalse test yes no} (one : condition = .ok test)
      (two : whenTrue = .ok yes) (three : whenFalse = .ok no) :
      OpReads (.setExitPcIf condition whenTrue whenFalse) (.setExitPcIf test yes no)
  | exitIf {condition test exit pending site} (same : condition = .ok test)
      (place : SiteReads pending site) :
      OpReads (.exitIf condition exit pending) (.exitIf test exit site)
  | call {code target arguments operands pending site}
      (same : arguments.toList = operands.toList.map .ok)
      (exit : Option.Rel SiteReads pending site) :
      OpReads (.call code target arguments pending) (.call code target operands site)
  | floatBinary {op format target left right lhs rhs} (one : left = .ok lhs)
      (two : right = .ok rhs) :
      OpReads (.floatBinary op format target left right) (.floatBinary op format target lhs rhs)
  | floatUnary {op format target source operand} (same : source = .ok operand) :
      OpReads (.floatUnary op format target source) (.floatUnary op format target operand)
  | floatConvert {origin goal mode target source operand} (same : source = .ok operand) :
      OpReads (.floatConvert origin goal mode target source)
        (.floatConvert origin goal mode target operand)
  | floatCompare {condition format left right lhs rhs} (one : left = .ok lhs)
      (two : right = .ok rhs) :
      OpReads (.floatCompare condition format left right)
        (.floatCompare condition format lhs rhs)
  | finish {retired : BitVec 32} : OpReads (.finish retired) (.finish retired)

namespace HostOp

variable {σ φ : Type}

/-- The state field that an operation reads or writes. -/
def field? : HostOp σ φ → Option StateField
  | .loadState field _ | .storeState field _ => some field
  | _ => none

/-- The fields of an operation are within what can be written. -/
structure Fits (op : PendingOp) : Prop where
  field : ∀ reg, op.field? = some (.control reg) → reg < 32
  site : ∀ site, op.site? = some site → site.flush.length ≤ 64

end HostOp

namespace Restores

variable {pieces : List Piece} {result : ReadOp → Prop}

/-- An operation is read by its fields. -/
theorem opcode {opcode : UInt8} (known : Reader.isOpcode opcode = true)
    (fields : Restores (Reader.fields opcode) pieces result) :
    Restores Reader.op (Piece.byte opcode :: pieces) result := by
  intro bytes joined offset rest
  have whole : Restores (do
      let opcode ← Reader.byte
      if Reader.isOpcode opcode then Reader.fields opcode else throw ⟨offset⟩)
      (Piece.byte opcode :: pieces) result := byte opcode (by rw [if_pos known]; exact fields)
  exact whole bytes joined offset rest

theorem routine (code : RoutineCode) :
    Restores Reader.routine
      [Piece.byte code.kind.val.toUInt8, Piece.byte code.first, Piece.byte code.second]
      (· = code) := by
  intro bytes joined
  cases joined
  exact Reads.routine code

theorem arguments {pending : Arguments (Except CompileError Operand)} :
    Restores Reader.arguments
      (Piece.byte pending.toList.length.toUInt8 :: pending.toList.map Piece.source)
      fun operands => pending.toList = operands.toList.map .ok := by
  cases pending with
  | none => exact byte 0 (pure rfl)
  | one first => exact byte 1 (source fun place same => pure (by simp [Arguments.toList, same]))
  | two first second =>
      exact byte 2 (source fun one same => source fun two also =>
        pure (by simp [Arguments.toList, same, also]))

theorem optionalTarget {target : Option Operand} {next : Option Operand → Reader ReadOp}
    (second : Restores (next target) pieces result) :
    Restores
      (do if ← Reader.flag then (do next (← some <$> Reader.operand)) else next (← Pure.pure none))
      (Piece.optionalTarget target ++ pieces) result := by
  cases target with
  | none => exact flag second
  | some operand =>
      refine flag ?_
      simp only [if_true, map_eq_pure_bind, bind_assoc, pure_bind]
      exact Restores.target second

theorem op {op : PendingOp} (fits : op.Fits) : Restores Reader.op op.pieces (OpReads op) := by
  have state (field : StateField) (same : op.field? = some field) (bytes : List UInt8)
      (written : Piece.stateField field = .ok bytes) :
      Reads Reader.stateField bytes (· = field) :=
    Reads.stateField (fun reg is => fits.field reg (is ▸ same)) written
  cases op with
  | move target operand =>
      exact opcode rfl <| .target <| source fun _ same => pure (.move same)
  | loadGuest target reg => exact opcode rfl <| .target <| register <| pure .loadGuest
  | flushGuest reg operand =>
      exact opcode rfl <| register <| source fun _ same => pure (.flushGuest same)
  | binary op target lhs rhs exit =>
      exact opcode rfl <| coded (by decide) <| .target <| source fun _ one => source fun _ two =>
        (optionalSite fun site present => fits.site site (by rw [HostOp.site?]; exact present)).last
          fun _ reads => .binary one two reads
  | not target operand => exact opcode rfl <| .target <| source fun _ same => pure (.not same)
  | cast type target operand =>
      exact opcode rfl <| coded (by decide) <| .target <| source fun _ same => pure (.cast same)
  | shift op width target value amount =>
      exact opcode rfl <| coded (by decide) <| coded (by decide) <| .target <|
        source fun _ one => source fun _ two => pure (.shift one two)
  | check mode target lhs rhs =>
      exact opcode rfl <| coded (by decide) <| .target <| source fun _ one => source fun _ two =>
        pure (.check one two)
  | translate access size target address exit =>
      exact opcode rfl <| coded (by decide) <| byte _ <| .target <| source fun _ same =>
        (site (fits.site exit rfl)).last fun _ reads => .translate same reads
  | load type target address =>
      exact opcode rfl <| coded (by decide) <| .target <| source fun _ same => pure (.load same)
  | store size address value =>
      exact opcode rfl <| byte _ <| source fun _ one => source fun _ two => pure (.store one two)
  | loadState field target =>
      exact opcode rfl <| known (state field rfl) <| .target <| pure .loadState
  | storeState field operand =>
      exact opcode rfl <| known (state field rfl) <| source fun _ same => pure (.storeState same)
  | mulDiv op lhs rhs =>
      exact opcode rfl <| coded (by decide) <| source fun _ one => source fun _ two =>
        pure (.mulDiv one two)
  | setExitPc pc => exact opcode rfl <| source fun _ same => pure (.setExitPc same)
  | setExitPcIf condition whenTrue whenFalse =>
      exact opcode rfl <| source fun _ one => source fun _ two => source fun _ three =>
        pure (.setExitPcIf one two three)
  | exitIf condition exit place =>
      refine opcode rfl <| source fun _ same => (blockExit exit).append ?_
      rintro _ rfl
      exact (site (fits.site place rfl)).last fun _ reads => .exitIf same reads
  | call code target operands exit =>
      have grouped : (HostOp.call code target operands exit : PendingOp).pieces =
          Piece.byte 0x12 :: ([Piece.byte code.kind.val.toUInt8, Piece.byte code.first,
            Piece.byte code.second] ++ (Piece.optionalTarget target ++
            ((Piece.byte operands.toList.length.toUInt8 :: operands.toList.map Piece.source) ++
            Piece.optionalSite exit))) := by
        simp [HostOp.pieces]
      rw [grouped]
      refine opcode rfl <| (routine code).append ?_
      rintro _ rfl
      exact optionalTarget <| arguments.append fun places same =>
        (optionalSite fun site present => fits.site site present).last
          fun _ reads => .call same reads
  | floatBinary op format target lhs rhs =>
      exact opcode rfl <| coded (by decide) <| coded (by decide) <| .target <|
        source fun _ one => source fun _ two => pure (.floatBinary one two)
  | floatUnary op format target operand =>
      exact opcode rfl <| coded (by decide) <| coded (by decide) <| .target <|
        source fun _ same => pure (.floatUnary same)
  | floatConvert origin goal mode target operand =>
      exact opcode rfl <| coded (by decide) <| coded (by decide) <| coded (by decide) <| .target <|
        source fun _ same => pure (.floatConvert same)
  | floatCompare condition format lhs rhs =>
      exact opcode rfl <| number rfl <| coded (by decide) <| source fun _ one =>
        source fun _ two => pure (.floatCompare one two)
  | finish retired => exact opcode rfl <| number rfl <| pure .finish

end Restores

/-! ## Whole blocks -/

def ItemReads (op : PendingOp) (item : Item) : Prop :=
  ∃ read, item.op = .ok read ∧ OpReads op read

theorem HostOp.length_pos {op : PendingOp} {bytes : List UInt8}
    (joined : joinPieces op.pieces = (bytes, none)) : 0 < bytes.length := by
  cases op <;> simp only [HostOp.pieces, List.cons_append, joinPieces_cons] at joined <;>
    (obtain ⟨_, _, first, -, rfl⟩ := joined; cases first; simp)

/-- Operations followed by the end of the block read back, given a byte of fuel for each. -/
theorem readItems_of_joinPieces {ops : List PendingOp} {retired : BitVec 32} {bytes : List UInt8}
    (fits : ∀ op ∈ ops, op.Fits) (goesOn : ∀ op ∈ ops, ∀ retired, op ≠ .finish retired)
    (joined : joinPieces (ops.flatMap HostOp.pieces ++
      (HostOp.finish retired : PendingOp).pieces) = (bytes, none))
    {fuel : Nat} (enough : bytes.length ≤ fuel) (offset : Nat) :
    List.Forall₂ ItemReads (ops ++ [.finish retired]) (readItems fuel ⟨offset, bytes⟩) := by
  induction ops generalizing bytes fuel offset with
  | nil =>
      rw [List.flatMap_nil, List.nil_append] at joined
      have positive := HostOp.length_pos joined
      have last : (HostOp.finish retired : PendingOp).Fits :=
        ⟨by simp [HostOp.field?], by simp [HostOp.site?]⟩
      obtain ⟨fuel, rfl⟩ := Nat.exists_eq_add_one.mpr (Nat.lt_of_lt_of_le positive enough)
      obtain ⟨read, same, reads⟩ := Restores.op last bytes joined offset []
      rw [List.append_nil] at reads
      cases same
      simp only [readItems, reads]
      exact .cons ⟨_, rfl, .finish⟩ .nil
  | cons op rest ih =>
      rw [List.flatMap_cons, List.append_assoc] at joined
      obtain ⟨first, more, one, two, rfl⟩ := joinPieces_append.mp joined
      have positive := HostOp.length_pos one
      rw [List.length_append] at enough
      obtain ⟨fuel, rfl⟩ : ∃ less, fuel = less + 1 := ⟨fuel - 1, by omega⟩
      obtain ⟨read, same, reads⟩ := Restores.op (fits op List.mem_cons_self) first one offset more
      have later := ih (fun other member => fits other (List.mem_cons_of_mem op member))
        (fun other member => goesOn other (List.mem_cons_of_mem op member)) two
        (show more.length ≤ fuel by omega) (offset + first.length)
      have notLast : ∀ retired, read ≠ .finish retired := by
        rintro retired rfl
        cases same
        exact goesOn _ List.mem_cons_self retired rfl
      have unfolded : readItems (fuel + 1) ⟨offset, first ++ more⟩ =
          ⟨offset, .ok read⟩ :: readItems fuel ⟨offset + first.length, more⟩ := by
        simp only [readItems, reads]
      rw [unfolded]
      exact .cons ⟨read, rfl, same⟩ later

theorem Program.read_header (slots : BitVec 16) (rest : List UInt8) :
    Program.read (littleEndian 2 slots.toNat ++ rest) = .ok
      { spillSlots := slots.toNat
        items := readItems ((littleEndian 2 slots.toNat ++ rest).length + 1) ⟨2, rest⟩ } := by
  obtain ⟨_, rfl, header⟩ := Reads.number slots rfl 0 rest
  rw [Reads.littleEndian_length] at header
  rw [Program.read]
  simp only [bind, Except.bind, header]
  rfl

end MipsRecompiler.HostCode
