import MipsRecompiler.Instruction.Decode

/-!
# Views of instruction words

What a decoded instruction is kept as: the fields of the word in the layout of its form, from the
left. A word that has no form is kept whole.
-/

set_option autoImplicit false

namespace MipsRecompiler

structure ImmediateView where
  opcode : BitVec 6
  rs : BitVec 5
  rt : BitVec 5
  immediate : BitVec 16
  deriving DecidableEq, Repr

structure JumpView where
  opcode : BitVec 6
  target : BitVec 26
  deriving DecidableEq, Repr

structure RegisterView where
  opcode : BitVec 6
  rs : BitVec 5
  rt : BitVec 5
  rd : BitVec 5
  shiftAmount : BitVec 5
  funct : BitVec 6
  deriving DecidableEq, Repr

/-- The layout of floating point arithmetic. The format sits where the first source would be. -/
structure FloatView where
  opcode : BitVec 6
  format : BitVec 5
  ft : BitVec 5
  fs : BitVec 5
  fd : BitVec 5
  funct : BitVec 6
  deriving DecidableEq, Repr

inductive View where
  | immediate (view : ImmediateView)
  | jump (view : JumpView)
  | register (view : RegisterView)
  | float (view : FloatView)
  | reserved (word : Word)
  | unimplemented (word : Word)
  deriving DecidableEq, Repr

def ImmediateView.ofWord (word : Word) : ImmediateView where
  opcode := word.extractLsb' 26 6
  rs := word.extractLsb' 21 5
  rt := word.extractLsb' 16 5
  immediate := word.extractLsb' 0 16

def JumpView.ofWord (word : Word) : JumpView where
  opcode := word.extractLsb' 26 6
  target := word.extractLsb' 0 26

def RegisterView.ofWord (word : Word) : RegisterView where
  opcode := word.extractLsb' 26 6
  rs := word.extractLsb' 21 5
  rt := word.extractLsb' 16 5
  rd := word.extractLsb' 11 5
  shiftAmount := word.extractLsb' 6 5
  funct := word.extractLsb' 0 6

def FloatView.ofWord (word : Word) : FloatView where
  opcode := word.extractLsb' 26 6
  format := word.extractLsb' 21 5
  ft := word.extractLsb' 16 5
  fs := word.extractLsb' 11 5
  fd := word.extractLsb' 6 5
  funct := word.extractLsb' 0 6

/-- A word in the layout of instructions of a form. -/
def Form.view (form : Form) (word : Word) : View :=
  match form with
  | jump => .jump (.ofWord word)
  | immediate _ | upperImmediate | branchOne | branchTwo | load | store | floatLoad | floatStore
  | branchSelected | trapImmediate _ | cache | floatBranch => .immediate (.ofWord word)
  | floatThree | floatTwo | floatCompare => .float (.ofWord word)
  | _ => .register (.ofWord word)

def Instruction.view (inst : Instruction) : View :=
  match inst.decode with
  | .operation _ form _ => form.view inst.word
  | .reserved => .reserved inst.word
  | .unimplemented _ => .unimplemented inst.word

/-- The word that a decoded instruction stands for. -/
def View.word : View → Word
  | immediate view => view.opcode ++ view.rs ++ view.rt ++ view.immediate
  | jump view => view.opcode ++ view.target
  | register view =>
    view.opcode ++ view.rs ++ view.rt ++ view.rd ++ view.shiftAmount ++ view.funct
  | float view => view.opcode ++ view.format ++ view.ft ++ view.fs ++ view.fd ++ view.funct
  | reserved word | unimplemented word => word

end MipsRecompiler
