import MipsRecompiler.Ir.Block

/-!
# Arenas

How the list of values is kept: every value has a node that knows the values before and behind it,
and the arena knows the first and the last one. A removed value keeps its node, with no neighbours.
-/

set_option autoImplicit false

namespace MipsRecompiler.Ir

structure Node where
  value : Value
  previous : Option ValueId
  next : Option ValueId
  deriving DecidableEq, Repr, Inhabited

def Node.alone (node : Node) : Node :=
  { node with previous := none, next := none }

/-- The nodes of a list of values. A value's number is the place of its node in the array. -/
structure Arena where
  nodes : Array Node
  first : Option ValueId
  last : Option ValueId
  size : Nat
  deriving DecidableEq, Repr, Inhabited

namespace Arena

def empty : Arena := ⟨#[], none, none, 0⟩

def reset (arena : Arena) : Arena where
  nodes := arena.nodes.take 0
  first := none
  last := none
  size := 0

/-- One past the greatest number in use. -/
def bound (arena : Arena) : Nat :=
  arena.nodes.size

def node (arena : Arena) (id : ValueId) : Node :=
  arena.nodes.getD id default

def value (arena : Arena) (id : ValueId) : Value :=
  (arena.node id).value

def update (arena : Arena) (id : ValueId) (change : Node → Node) : Arena :=
  { arena with nodes := arena.nodes.modify id change }

/-- Says what comes behind a value, or which value is the first one. -/
def linkNext (arena : Arena) (previous next : Option ValueId) : Arena :=
  match previous with
  | none => { arena with first := next }
  | some id => arena.update id fun node => { node with next }

/-- Says what comes before a value, or which value is the last one. -/
def linkPrevious (arena : Arena) (previous next : Option ValueId) : Arena :=
  match next with
  | none => { arena with last := previous }
  | some id => arena.update id fun node => { node with previous }

def append (arena : Arena) (value : Value) : ValueId × Arena :=
  let id := arena.bound
  let node := { value, previous := arena.last, next := none }
  let pushed := { arena with nodes := arena.nodes.push node }
  let linked := pushed.linkNext arena.last (some id)
  (id, { linked with last := some id, size := arena.size + 1 })

/-- Appends a value that stays in the block. -/
def push (arena : Arena) (kind : Kind) : ValueId × Arena :=
  arena.append { kind, site := none }

def pushWithSite (arena : Arena) (kind : Kind) (site : ExitSite) : ValueId × Arena :=
  arena.append { kind, site := some site }

/-- Appends a constant, cut to its type. -/
def constant (arena : Arena) (type : ValueType) (value : DoubleWord) : ValueId × Arena :=
  arena.push (.constant type (type.cast value))

def replace (arena : Arena) (id : ValueId) (value : Value) : Arena :=
  arena.update id fun node => { node with value }

def remove (arena : Arena) (id : ValueId) : Arena :=
  let { previous, next, .. } := arena.node id
  -- The only value of a list has no neighbours either, but it is the first one.
  if previous = none ∧ next = none ∧ arena.first ≠ some id then arena
  else
    let linked := (arena.linkNext previous next).linkPrevious previous next
    { linked.update id Node.alone with size := arena.size - 1 }

end Arena

/-- A walk along the links from both ends at once: the next value at each end. -/
structure Cursor where
  front : Option ValueId
  back : Option ValueId
  deriving DecidableEq, Repr, Inhabited

namespace Cursor

def next? (arena : Arena) (cursor : Cursor) : Option (ValueId × Cursor) :=
  match cursor.front with
  | none => none
  | some id =>
    -- Where both ends meet there is nothing left, although the links go on beyond.
    if cursor.back = some id then some (id, ⟨none, none⟩)
    else some (id, { cursor with front := (arena.node id).next })

def nextBack? (arena : Arena) (cursor : Cursor) : Option (ValueId × Cursor) :=
  match cursor.back with
  | none => none
  | some id =>
    if cursor.front = some id then some (id, ⟨none, none⟩)
    else some (id, { cursor with back := (arena.node id).previous })

/-- Takes the value at an end. -/
def take (arena : Arena) : End → Cursor → Option (ValueId × Cursor)
  | .front, cursor => cursor.next? arena
  | .back, cursor => cursor.nextBack? arena

end Cursor

namespace Arena

def cursor (arena : Arena) : Cursor :=
  ⟨arena.first, arena.last⟩

def answers (arena : Arena) (sides : List End) : List (Option ValueId) :=
  End.answers (Cursor.take arena) sides arena.cursor

def collect (arena : Arena) (sides : List End) : List ValueId :=
  (arena.answers sides).filterMap id

/-- The numbers in the list, in order. There are no more than there are nodes. -/
def ids (arena : Arena) : List ValueId :=
  arena.collect (List.replicate arena.bound .front)

/-- The numbers in the list, from the last one to the first. -/
def idsBack (arena : Arena) : List ValueId :=
  arena.collect (List.replicate arena.bound .back)

end Arena

/-- The values of a block in an arena. -/
def Block.arena (block : Block) : Arena :=
  let numbers := List.range block.bound
  let whole := numbers.foldl (fun arena id => (arena.append (block.value id)).2) .empty
  numbers.foldr (fun id arena => if block.isListed id then arena else arena.remove id) whole

inductive Edit where
  | push (kind : Kind)
  | pushWithSite (kind : Kind) (site : ExitSite)
  | constant (type : ValueType) (value : DoubleWord)
  | remove (id : ValueId)
  deriving DecidableEq, Repr

namespace Edit

def value? : Edit → Option Value
  | .push kind => some { kind, site := none }
  | .pushWithSite kind site => some { kind, site := some site }
  | .constant type value => some { kind := .constant type (type.cast value), site := none }
  | .remove _ => none

end Edit

def Arena.perform (arena : Arena) : Edit → Arena
  | .push kind => (arena.push kind).2
  | .pushWithSite kind site => (arena.pushWithSite kind site).2
  | .constant type value => (arena.constant type value).2
  | .remove id => arena.remove id

/-- The numbers that are handed out while changes are made. -/
def Arena.handOut (arena : Arena) : List Edit → List ValueId
  | [] => []
  | edit :: edits =>
    let rest := (arena.perform edit).handOut edits
    match edit with
    | .push kind => (arena.push kind).1 :: rest
    | .pushWithSite kind site => (arena.pushWithSite kind site).1 :: rest
    | .constant type value => (arena.constant type value).1 :: rest
    | .remove _ => rest

end MipsRecompiler.Ir
