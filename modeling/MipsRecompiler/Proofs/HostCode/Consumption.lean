import MipsRecompiler.Proofs.HostCode.Reading

/-!
# What readers consume

A reader that succeeds has looked at nothing behind the place where it stops. So the operations of
a whole block are also those that are read from its beginning, as far as that goes, and a block
that is cut off is noticed.
-/

set_option autoImplicit false

namespace MipsRecompiler.HostCode

theorem Reader.bytes_apply (count offset : Nat) (bytes : List UInt8) :
    Reader.bytes count ⟨offset, bytes⟩ =
      if (bytes.take count).length < count then .error ⟨offset⟩
      else .ok (bytes.take count, ⟨offset + count, bytes.drop count⟩) := by
  simp only [Reader.bytes, get, getThe, MonadStateOf.get, StateT.get, StateT.bind, Bind.bind,
    Except.bind, Pure.pure, Except.pure]
  split <;> rfl

/-- Success depends on the bytes that are taken, and not on what follows them. -/
def Exact {α : Type} (reader : Reader α) : Prop :=
  ∀ offset bytes value next, reader ⟨offset, bytes⟩ = .ok (value, next) →
    ∃ taken, bytes = taken ++ next.rest ∧
      ∀ rest, reader ⟨offset, taken ++ rest⟩ = .ok (value, ⟨offset + taken.length, rest⟩)

namespace Exact

variable {α γ : Type}

theorem pure (value : α) : Exact (Pure.pure value : Reader α) := by
  intro offset bytes result next reads
  cases reads
  exact ⟨[], rfl, fun rest => rfl⟩

theorem corrupt : Exact (Reader.corrupt : Reader α) := by
  intro offset bytes value next reads
  cases reads

theorem bind {reader : Reader α} {next : α → Reader γ} (first : Exact reader)
    (second : ∀ value, Exact (next value)) : Exact (reader >>= next) := by
  intro offset bytes result last reads
  cases started : reader ⟨offset, bytes⟩ with
  | error reason =>
      simp only [Bind.bind, StateT.bind, Except.bind, started] at reads
      cases reads
  | ok taken =>
      obtain ⟨value, ⟨middle, left⟩⟩ := taken
      obtain ⟨start, split, anywhere⟩ := first _ _ _ _ started
      have stops := anywhere left
      rw [← show bytes = start ++ left from split, started] at stops
      cases stops
      simp only [Bind.bind, StateT.bind, Except.bind, started] at reads
      obtain ⟨more, behind, elsewhere⟩ := second value _ _ _ _ reads
      refine ⟨start ++ more, ?_, fun rest => ?_⟩
      · rw [split, List.append_assoc]
        exact congrArg (start ++ ·) behind
      · have continues := elsewhere rest
        simp only [Bind.bind, StateT.bind, Except.bind, List.append_assoc, anywhere, continues,
          List.length_append, Nat.add_assoc]

theorem ite {condition : Prop} [Decidable condition] {first second : Reader α}
    (holds : Exact first) (fails : Exact second) :
    Exact (if condition then first else second) := by
  split
  · exact holds
  · exact fails

theorem byte : Exact Reader.byte := by
  intro offset bytes value next reads
  cases bytes with
  | nil => cases reads
  | cons first rest =>
      cases reads
      exact ⟨[value], rfl, fun rest => rfl⟩

theorem bytes (count : Nat) : Exact (Reader.bytes count) := by
  intro offset bytes value next reads
  rw [Reader.bytes_apply] at reads
  split at reads
  next => cases reads
  next enough =>
    cases reads
    have whole : (bytes.take count).length = count :=
      Nat.le_antisymm (List.length_take_le count bytes) (Nat.le_of_not_lt enough)
    refine ⟨bytes.take count, (List.take_append_drop count bytes).symm, fun rest => ?_⟩
    have taken := Reads.bytes (bytes.take count) offset rest
    rw [whole] at taken
    obtain ⟨_, rfl, reads⟩ := taken
    rw [reads, whole]

theorem append {reader : Reader α} (exact : Exact reader) {offset : Nat} {bytes : List UInt8}
    {value : α} {next : Cursor} (reads : reader ⟨offset, bytes⟩ = .ok (value, next))
    (more : List UInt8) :
    reader ⟨offset, bytes ++ more⟩ = .ok (value, ⟨next.offset, next.rest ++ more⟩) := by
  obtain ⟨taken, split, anywhere⟩ := exact _ _ _ _ reads
  have stops := anywhere next.rest
  rw [← split, reads] at stops
  injection stops with stops
  injection stops with _ stops
  rw [split, List.append_assoc, anywhere, stops]

/-- A reader that looks at its offset alone before it goes on. -/
theorem atOffset {next : Nat → Reader α} (second : ∀ offset, Exact (next offset)) :
    Exact (do next (← get).offset) := by
  intro offset bytes value last reads
  exact second offset offset bytes value last reads

theorem last {reader : Reader α} {make : α → γ} (first : Exact reader) :
    Exact (reader >>= fun value => Pure.pure (make value)) :=
  first.bind fun _ => pure _

theorem require (value : Option α) : Exact (Reader.require value) := by
  cases value with
  | none => exact corrupt
  | some value => exact pure value

/-! ## Fields -/

theorem number (width : Nat) : Exact (Reader.number width) :=
  (bytes _).last

theorem flag : Exact Reader.flag := by
  apply byte.bind
  intro value
  split
  · exact pure false
  · exact pure true
  · exact corrupt

theorem coded [DecidableEq α] [Enumeration α] : Exact (Reader.coded α) :=
  byte.bind fun _ => require _

theorem operand : Exact Reader.operand := by
  apply byte.bind
  intro kind
  split
  · exact byte.last
  · exact byte.last
  · exact (number 16).last
  · exact (number 64).last
  · exact corrupt

theorem register : Exact Reader.register := by
  apply byte.bind
  intro value
  split
  · exact pure _
  · exact corrupt

theorem stateField : Exact Reader.stateField := by
  apply byte.bind
  intro kind
  apply byte.bind
  intro reg
  split
  · exact pure _
  · exact pure _
  · exact pure _
  · exact ite (pure _) corrupt
  · exact corrupt

theorem exception : Exact Reader.exception :=
  byte.bind fun _ => (require _).bind fun _ => (number 64).bind fun _ => flag.bind fun _ =>
    flag.bind fun _ => (number 64).bind fun _ => flag.bind fun _ => (number 8).last

theorem blockExit : Exact Reader.blockExit := by
  apply byte.bind
  intro kind
  split
  · exact exception.last
  · exact (number 64).last
  · exact corrupt

theorem routine : Exact Reader.routine := by
  apply byte.bind
  intro kind
  apply byte.bind
  intro _
  apply byte.bind
  intro _
  split
  · exact pure _
  · exact corrupt

theorem site : Exact Reader.site := by
  refine (number 64).bind fun pc => flag.bind fun delaySlot => (number 32).bind fun retired =>
    (number 16).bind fun count => (number 16).bind fun length => ?_
  have entries (offset : Nat) : Exact (do
      let rest ← Reader.bytes length.toNat
      return (⟨pc, delaySlot, retired, ⟨count.toNat, ⟨offset, rest⟩⟩⟩ : Ir.Site PackedFlush)) :=
    (bytes _).last
  exact atOffset entries

theorem optionalSite : Exact Reader.optionalSite :=
  flag.bind fun _ => ite (site.last) (pure _)

theorem arguments : Exact Reader.arguments := by
  apply byte.bind
  intro count
  split
  · exact pure _
  · exact operand.last
  · exact operand.bind fun _ => operand.last
  · exact corrupt

/-! ## Operations -/

section Operations

variable {make : Operand → Operand → ReadOp}

theorem operands : Exact (do return make (← Reader.operand) (← Reader.operand)) :=
  operand.bind fun _ => operand.last

theorem places {make : Operand → Operand → Operand → ReadOp} :
    Exact (do return make (← Reader.operand) (← Reader.operand) (← Reader.operand)) :=
  operand.bind fun _ => operands

theorem call (code : RoutineCode) (target : Option Operand) :
    Exact (do return HostOp.call code target (← Reader.arguments) (← Reader.optionalSite)) :=
  arguments.bind fun _ => optionalSite.last

theorem fields (opcode : UInt8) : Exact (Reader.fields opcode) := by
  unfold Reader.fields
  split
  next => exact operands
  next => exact operand.bind fun _ => register.last
  next => exact register.bind fun _ => operand.last
  next =>
    exact coded.bind fun _ => operand.bind fun _ => operand.bind fun _ => operand.bind fun _ =>
      optionalSite.last
  next => exact operands
  next => exact coded.bind fun _ => operands
  next => exact coded.bind fun _ => coded.bind fun _ => places
  next => exact coded.bind fun _ => places
  next =>
    exact coded.bind fun _ => byte.bind fun _ => operand.bind fun _ => operand.bind fun _ =>
      site.last
  next => exact coded.bind fun _ => operands
  next => exact byte.bind fun _ => operands
  next => exact stateField.bind fun _ => operand.last
  next => exact stateField.bind fun _ => operand.last
  next => exact coded.bind fun _ => operands
  next => exact operand.last
  next => exact places
  next => exact operand.bind fun _ => blockExit.bind fun _ => site.last
  next =>
    refine routine.bind fun code => flag.bind fun present => ?_
    apply ite
    · simp only [map_eq_pure_bind, bind_assoc, pure_bind]
      exact operand.bind fun place => call code (some place)
    · exact call code none
  next => exact coded.bind fun _ => coded.bind fun _ => places
  next => exact coded.bind fun _ => coded.bind fun _ => operands
  next => exact coded.bind fun _ => coded.bind fun _ => coded.bind fun _ => operands
  next => exact (number 8).bind fun _ => coded.bind fun _ => operands
  next => exact (number 32).last
  next => exact corrupt

theorem op : Exact Reader.op := by
  intro offset bytes value next reads
  have whole : Exact (do
      let opcode ← Reader.byte
      if Reader.isOpcode opcode then Reader.fields opcode else throw ⟨offset⟩) := by
    apply byte.bind
    intro opcode
    apply ite (fields opcode)
    intro _ _ _ _ reads
    cases reads
  exact whole offset bytes value next reads

end Operations

end Exact

/-- Reading an operation takes a byte at least. -/
theorem length_of_op {offset : Nat} {bytes : List UInt8} {op : ReadOp} {next : Cursor}
    (reads : Reader.op ⟨offset, bytes⟩ = .ok (op, next)) : next.rest.length < bytes.length := by
  obtain ⟨taken, split, anywhere⟩ := Exact.op _ _ _ _ reads
  cases taken with
  | nil => cases anywhere []
  | cons first taken =>
      rw [split, List.length_append, List.length_cons]
      omega

/-! ## Operations in a row -/

/-- The operations that are read one behind the other, from one place to another. -/
inductive Takes : Cursor → List ReadOp → Cursor → Prop where
  | nil {cursor : Cursor} : Takes cursor [] cursor
  | cons {cursor next last : Cursor} {op : ReadOp} {ops : List ReadOp}
      (reads : Reader.op cursor = .ok (op, next)) (rest : Takes next ops last) :
      Takes cursor (op :: ops) last

theorem Takes.append {cursor middle last : Cursor} {ops more : List ReadOp}
    (first : Takes cursor ops middle) (second : Takes middle more last) :
    Takes cursor (ops ++ more) last := by
  induction first with
  | nil => exact second
  | cons reads rest ih => exact .cons reads (ih second)

/-- Operations that were written one behind the other are read one behind the other, and nothing
is left of their bytes. -/
theorem takes_of_joinPieces {ops : List PendingOp} {bytes : List UInt8}
    (fits : ∀ op ∈ ops, op.Fits)
    (joined : joinPieces (ops.flatMap HostOp.pieces) = (bytes, none)) (offset : Nat)
    (rest : List UInt8) :
    ∃ reads, List.Forall₂ OpReads ops reads ∧
      Takes ⟨offset, bytes ++ rest⟩ reads ⟨offset + bytes.length, rest⟩ := by
  induction ops generalizing bytes offset with
  | nil =>
      cases joined
      exact ⟨[], .nil, .nil⟩
  | cons op ops ih =>
      rw [List.flatMap_cons] at joined
      obtain ⟨first, more, one, two, rfl⟩ := joinPieces_append.mp joined
      obtain ⟨here, others⟩ := List.forall_mem_cons.mp fits
      obtain ⟨read, same, reads⟩ := Restores.op here first one offset (more ++ rest)
      obtain ⟨later, all, takes⟩ := ih others two (offset + first.length)
      refine ⟨read :: later, .cons same all, ?_⟩
      rw [List.append_assoc, List.length_append, ← Nat.add_assoc]
      exact .cons reads takes

def HostOp.isFinish {σ φ : Type} : HostOp σ φ → Bool
  | .finish _ => true
  | _ => false

section Items

variable {cursor next last : Cursor} {op : ReadOp} {ops : List ReadOp} {fuel : Nat}

theorem readItems_finish {retired : BitVec 32}
    (reads : Reader.op cursor = .ok (.finish retired, next)) :
    readItems (fuel + 1) cursor = [⟨cursor.offset, .ok (.finish retired)⟩] := by
  simp only [readItems, reads]

theorem readItems_error {corrupt : CorruptBlock} (fails : Reader.op cursor = .error corrupt) :
    readItems (fuel + 1) cursor = [⟨cursor.offset, .error corrupt⟩] := by
  simp only [readItems, fails]

theorem readItems_cons (reads : Reader.op cursor = .ok (op, next))
    (goesOn : op.isFinish = false) :
    readItems (fuel + 1) cursor = ⟨cursor.offset, .ok op⟩ :: readItems fuel next := by
  cases op with
  | finish retired => cases goesOn
  | _ => simp only [readItems, reads]

variable (goesOn : ∀ op ∈ ops, op.isFinish = false) {retired : BitVec 32}

include goesOn

theorem readItems_of_takes (takes : Takes cursor (ops ++ [.finish retired]) last)
    (enough : cursor.rest.length < fuel) :
    (readItems fuel cursor).map Item.op = (ops ++ [HostOp.finish retired]).map .ok := by
  obtain ⟨fuel, rfl⟩ := Nat.exists_eq_add_one.mpr (Nat.zero_lt_of_lt enough)
  induction ops generalizing cursor fuel with
  | nil =>
      cases takes with
      | cons reads rest => rw [readItems_finish reads]; rfl
  | cons op ops ih =>
      cases takes with
      | @cons _ next _ _ _ reads rest =>
          obtain ⟨here, others⟩ := List.forall_mem_cons.mp goesOn
          have shorter := length_of_op reads
          obtain ⟨less, rfl⟩ : ∃ less, fuel = less + 1 := ⟨fuel - 1, by omega⟩
          rw [readItems_cons reads here, List.map_cons, ih others rest less (by omega)]
          rfl

/-- What is left of a block that is cut off are some of its operations, and an error behind
them. -/
theorem readItems_of_cut {offset : Nat} {bytes missing : List UInt8}
    (takes : Takes ⟨offset, bytes ++ missing⟩ (ops ++ [.finish retired]) last)
    (ends : last.rest = []) (cut : missing ≠ []) (enough : bytes.length < fuel) :
    ∃ before corrupt, before <+: ops ∧
      (readItems fuel ⟨offset, bytes⟩).map Item.op = before.map .ok ++ [.error corrupt] := by
  obtain ⟨fuel, rfl⟩ := Nat.exists_eq_add_one.mpr (Nat.zero_lt_of_lt enough)
  induction ops generalizing offset bytes fuel with
  | nil =>
      cases takes with
      | cons whole rest =>
          cases rest
          cases reads : Reader.op ⟨offset, bytes⟩ with
          | error corrupt =>
              refine ⟨[], corrupt, List.nil_prefix, ?_⟩
              rw [readItems_error reads]
              rfl
          | ok result =>
              have same := whole.symm.trans (Exact.op.append reads missing)
              injection same with same
              injection same with _ stops
              rw [stops] at ends
              exact absurd (List.append_eq_nil_iff.mp ends).2 cut
  | cons op ops ih =>
      cases takes with
      | cons whole rest =>
          cases reads : Reader.op ⟨offset, bytes⟩ with
          | error corrupt =>
              refine ⟨[], corrupt, List.nil_prefix, ?_⟩
              rw [readItems_error reads]
              rfl
          | ok result =>
              obtain ⟨value, ⟨behind, left⟩⟩ := result
              have same := whole.symm.trans (Exact.op.append reads missing)
              injection same with same
              injection same with same stops
              subst same stops
              obtain ⟨here, others⟩ := List.forall_mem_cons.mp goesOn
              have shorter := length_of_op reads
              obtain ⟨less, rfl⟩ : ∃ less, fuel = less + 1 := ⟨fuel - 1, by omega⟩
              obtain ⟨before, corrupt, known, items⟩ := ih others rest less (by omega)
              refine ⟨op :: before, corrupt, List.cons_prefix_cons.mpr ⟨rfl, known⟩, ?_⟩
              rw [readItems_cons reads here, List.map_cons, items]
              rfl

end Items

end MipsRecompiler.HostCode
