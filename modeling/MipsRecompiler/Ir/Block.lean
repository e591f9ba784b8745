import MipsRecompiler.Ir.Value

/-!
# Blocks of values

The values of one block in order. A removed value leaves the list, but its number stays valid
and is not used again. A draft is a block under construction, which also knows the current value
of every guest register.
-/

set_option autoImplicit false

namespace MipsRecompiler.Ir

structure Entry where
  value : Value
  listed : Bool
  deriving DecidableEq, Repr, Inhabited

/-- The values of one block. A value's number is its place in the array. -/
structure Block where
  entries : Array Entry
  deriving DecidableEq, Repr, Inhabited

namespace Block

def empty : Block := ⟨#[]⟩

/-- One past the greatest number in use. -/
def bound (block : Block) : Nat :=
  block.entries.size

def isListed (block : Block) (id : ValueId) : Bool :=
  match block.entries[id]? with
  | some entry => entry.listed
  | none => false

def value (block : Block) (id : ValueId) : Value :=
  (block.entries.getD id default).value

def kind (block : Block) (id : ValueId) : Kind :=
  (block.value id).kind

/-- The numbers in the list, ascending. -/
def ids (block : Block) : List ValueId :=
  (List.range block.bound).filter block.isListed

def values (block : Block) : List (ValueId × Value) :=
  block.ids.map fun id => (id, block.value id)

def size (block : Block) : Nat :=
  block.ids.length

def push (block : Block) (value : Value) : ValueId × Block :=
  (block.bound, ⟨block.entries.push { value, listed := true }⟩)

def remove (block : Block) (id : ValueId) : Block :=
  ⟨block.entries.modify id fun entry => { entry with listed := false }⟩

def replace (block : Block) (id : ValueId) (value : Value) : Block :=
  ⟨block.entries.modify id fun entry => { entry with value }⟩

end Block

inductive End where
  | front
  | back
  deriving DecidableEq, Repr, Inhabited

/-- The answers when values are taken from ends, one after the other. Where nothing is left,
nothing changes. -/
def End.answers {σ : Type} (take : End → σ → Option (ValueId × σ)) :
    List End → σ → List (Option ValueId)
  | [], _ => []
  | side :: sides, walk =>
    match take side walk with
    | none => none :: answers take sides walk
    | some (id, walk) => some id :: answers take sides walk

/-- A walk over a list from both ends at once: what neither end has taken yet. -/
structure Walk where
  rest : List ValueId
  deriving DecidableEq, Repr, Inhabited

namespace Walk

def next? (walk : Walk) : Option (ValueId × Walk) :=
  match walk.rest with
  | [] => none
  | id :: rest => some (id, ⟨rest⟩)

def nextBack? (walk : Walk) : Option (ValueId × Walk) :=
  match walk.rest.getLast? with
  | none => none
  | some id => some (id, ⟨walk.rest.dropLast⟩)

def take : End → Walk → Option (ValueId × Walk)
  | .front, walk => walk.next?
  | .back, walk => walk.nextBack?

end Walk

def Block.walk (block : Block) : Walk :=
  ⟨block.ids⟩

structure Draft where
  block : Block
  /-- The current value of each guest register that has one. -/
  bindings : Vector (Option ValueId) 64
  deriving DecidableEq, Repr

namespace Draft

def empty : Draft := ⟨.empty, Vector.replicate 64 none⟩

instance : Inhabited Draft := ⟨empty⟩

/-- Appends a value that stays in the block. -/
def push (draft : Draft) (kind : Kind) : ValueId × Draft :=
  let (id, block) := draft.block.push { kind, site := none }
  (id, { draft with block })

def pushWithSite (draft : Draft) (kind : Kind) (site : ExitSite) : ValueId × Draft :=
  let (id, block) := draft.block.push { kind, site := some site }
  (id, { draft with block })

/-- Appends a constant, cut to its type. -/
def constant (draft : Draft) (type : ValueType) (value : DoubleWord) : ValueId × Draft :=
  draft.push (.constant type (type.cast value))

def binding? (draft : Draft) (reg : GuestRegister) : Option ValueId :=
  draft.bindings[reg.number]

/-- Makes a value the current one of a register. The zero register has none. -/
def bind (draft : Draft) (reg : GuestRegister) (id : ValueId) : Draft :=
  if reg = .zero then draft
  else { draft with bindings := draft.bindings.set reg.number (some id) }

/-- The current value of a register, loaded when it is asked for the first time. -/
def loadRegister (draft : Draft) (reg : GuestRegister) : ValueId × Draft :=
  if reg = .zero then draft.constant .u64 0
  else
    match draft.binding? reg with
    | some id => (id, draft)
    | none =>
      let (id, draft) := draft.push (.loadRegister reg)
      (id, draft.bind reg id)

/-- The registers that have a current value. -/
def bound (draft : Draft) : List (GuestRegister × ValueId) :=
  GuestRegister.all.filterMap fun reg => (draft.binding? reg).map fun id => (reg, id)

/-- The registers whose current value is not the one that they were loaded with. -/
def flushList (draft : Draft) : List (GuestRegister × ValueId) :=
  draft.bound.filter fun (reg, id) => draft.block.kind id ≠ .loadRegister reg

end Draft

end MipsRecompiler.Ir
