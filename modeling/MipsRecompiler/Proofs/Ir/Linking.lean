import Mathlib.Data.List.Nodup
import MipsRecompiler.Ir.Arena
import MipsRecompiler.Proofs.Ir.WellFormed

/-!
# Arenas hold blocks

The nodes of an arena are linked in the order in which its block lists their numbers. A list is cut
into segments, which say what comes before and behind them. Changing the links at the end of one
segment leaves the others alone, so a value can be put behind the last one, and can be taken from
between its neighbours.
-/

set_option autoImplicit false

namespace MipsRecompiler.Ir

namespace Arena

variable {arena other : Arena} {block : Block} {id : ValueId} {value : Value}
  {previous next : Option ValueId} {before behind segment : List ValueId}

/-! ## Nodes -/

theorem node_update (arena : Arena) {id : ValueId} (inside : id < arena.bound)
    (change : Node → Node) (other : ValueId) :
    (arena.update id change).node other =
      if other = id then change (arena.node other) else arena.node other := by
  have size : id < arena.nodes.size := inside
  simp only [update, node, Array.getD_eq_getD_getElem?, Array.getElem?_modify]
  by_cases same : id = other
  · subst same
    simp [size]
  · simp [same, Ne.symm same]

theorem node_update_of_le (arena : Arena) {id : ValueId} (outside : arena.bound ≤ id)
    (change : Node → Node) (other : ValueId) :
    (arena.update id change).node other = arena.node other := by
  have none : arena.nodes[id]? = none := Array.getElem?_eq_none outside
  simp only [update, node, Array.getD_eq_getD_getElem?, Array.getElem?_modify]
  by_cases same : id = other
  · subst same
    simp [none]
  · simp [same]

theorem node_update_of_ne (arena : Arena) (change : Node → Node) {other : ValueId}
    (differs : other ≠ id) : (arena.update id change).node other = arena.node other := by
  simp only [update, node, Array.getD_eq_getD_getElem?, Array.getElem?_modify,
    if_neg (Ne.symm differs)]

@[simp] theorem bound_update (arena : Arena) (id : ValueId) (change : Node → Node) :
    (arena.update id change).bound = arena.bound := by
  simp [update, bound]

@[simp] theorem bound_linkNext (arena : Arena) (previous next : Option ValueId) :
    (arena.linkNext previous next).bound = arena.bound := by
  cases previous with
  | none => rfl
  | some id => exact bound_update _ _ _

@[simp] theorem bound_linkPrevious (arena : Arena) (previous next : Option ValueId) :
    (arena.linkPrevious previous next).bound = arena.bound := by
  cases next with
  | none => rfl
  | some id => exact bound_update _ _ _

theorem node_push (arena : Arena) (last : Node) (id : ValueId) :
    node { arena with nodes := arena.nodes.push last } id =
      if id = arena.bound then last else arena.node id := by
  simp only [node, bound, Array.getD_eq_getD_getElem?, Array.getElem?_push]
  split <;> rfl

/-- What a change of nodes leaves alone is the same everywhere. -/
theorem read_update {α : Type} (arena : Arena) (id : ValueId) (change : Node → Node)
    (read : Node → α) (keeps : ∀ node, read (change node) = read node) (other : ValueId) :
    read ((arena.update id change).node other) = read (arena.node other) := by
  simp only [update, node, Array.getD_eq_getD_getElem?, Array.getElem?_modify]
  cases arena.nodes[other]? <;> by_cases same : id = other <;> simp [same, keeps]

@[simp] theorem value_linkNext (arena : Arena) (previous next : Option ValueId) (id : ValueId) :
    (arena.linkNext previous next).value id = arena.value id := by
  cases previous with
  | none => rfl
  | some last => exact read_update _ _ (fun node => { node with next }) Node.value (fun _ => rfl) _

@[simp] theorem value_linkPrevious (arena : Arena) (previous next : Option ValueId)
    (id : ValueId) : (arena.linkPrevious previous next).value id = arena.value id := by
  cases next with
  | none => rfl
  | some first =>
      exact read_update _ _ (fun node => { node with previous }) Node.value (fun _ => rfl) _

theorem node_linkNext_of_ne (arena : Arena) (next : Option ValueId) (differs : previous ≠ some id) :
    (arena.linkNext previous next).node id = arena.node id := by
  cases previous with
  | none => rfl
  | some last => exact node_update_of_ne _ _ fun same => differs (congrArg some same.symm)

theorem node_linkPrevious_of_ne (arena : Arena) (previous : Option ValueId)
    (differs : next ≠ some id) : (arena.linkPrevious previous next).node id = arena.node id := by
  cases next with
  | none => rfl
  | some first => exact node_update_of_ne _ _ fun same => differs (congrArg some same.symm)

theorem first_linkNext (starts : arena.first = (before ++ behind).head?)
    (others : List ValueId) :
    (arena.linkNext before.getLast? others.head?).first = (before ++ others).head? := by
  cases before with
  | nil => rfl
  | cons first rest =>
      rw [List.getLast?_cons]
      exact starts

theorem last_linkPrevious (ends : arena.last = (before ++ behind).getLast?)
    (others : List ValueId) :
    (arena.linkPrevious others.getLast? behind.head?).last = (others ++ behind).getLast? := by
  cases behind with
  | nil => rw [List.append_nil]; rfl
  | cons first rest =>
      rw [List.getLast?_append, List.getLast?_cons] at ends ⊢
      exact ends

theorem first_linkPrevious (arena : Arena) (previous next : Option ValueId) :
    (arena.linkPrevious previous next).first = arena.first := by
  cases next <;> rfl

theorem last_linkNext (arena : Arena) (previous next : Option ValueId) :
    (arena.linkNext previous next).last = arena.last := by
  cases previous <;> rfl

/-! ## Segments -/

/-- The nodes of a part of a list know each other, what comes before them and what comes behind. -/
def Linked (arena : Arena) : Option ValueId → List ValueId → Option ValueId → Prop
  | _, [], _ => True
  | previous, id :: rest, next =>
    (arena.node id).previous = previous ∧ (arena.node id).next = rest.head?.or next ∧
      Linked arena (some id) rest next

theorem linked_append : Linked arena previous (before ++ behind) next ↔
    Linked arena previous before (behind.head?.or next) ∧
      Linked arena (before.getLast?.or previous) behind next := by
  induction before generalizing previous with
  | nil => simp [Linked]
  | cons id rest ih =>
      have last : (id :: rest).getLast?.or previous = rest.getLast?.or (some id) := by
        rw [List.getLast?_cons]
        cases rest.getLast? <;> rfl
      have head : (rest ++ behind).head?.or next = rest.head?.or (behind.head?.or next) := by
        cases rest <;> simp
      rw [List.cons_append, Linked, Linked, ih, last, head]
      constructor
      · rintro ⟨left, right, here, there⟩
        exact ⟨⟨left, right, here⟩, there⟩
      · rintro ⟨⟨left, right, here⟩, there⟩
        exact ⟨left, right, here, there⟩

theorem Linked.of_links (linked : Linked arena previous segment next)
    (same : ∀ id ∈ segment, (other.node id).previous = (arena.node id).previous ∧
      (other.node id).next = (arena.node id).next) : Linked other previous segment next := by
  induction segment generalizing previous with
  | nil => trivial
  | cons id rest ih =>
      obtain ⟨left, right, linked⟩ := linked
      obtain ⟨before, behind⟩ := same id List.mem_cons_self
      refine ⟨before.trans left, behind.trans right, ih linked fun other member => ?_⟩
      exact same other (List.mem_cons_of_mem _ member)

theorem Linked.congr (linked : Linked arena previous segment next)
    (same : ∀ id ∈ segment, other.node id = arena.node id) :
    Linked other previous segment next :=
  linked.of_links fun id member =>
    ⟨congrArg Node.previous (same id member), congrArg Node.next (same id member)⟩

theorem Linked.linkNext (linked : Linked arena previous segment next) (distinct : segment.Nodup)
    (inside : ∀ id ∈ segment, id < arena.bound) (behind : Option ValueId) :
    Linked (arena.linkNext segment.getLast? behind) previous segment behind := by
  rcases List.eq_nil_or_concat' segment with rfl | ⟨early, last, rfl⟩
  · trivial
  · have apart : last ∉ early := by
      rw [List.nodup_append] at distinct
      exact fun member => distinct.2.2 last member last List.mem_cons_self rfl
    rw [linked_append] at linked ⊢
    obtain ⟨first, alone, -, -⟩ := linked
    rw [List.getLast?_concat]
    have here := node_update arena (inside last (by simp)) fun node => { node with next := behind }
    constructor
    · refine first.congr fun id member => ?_
      exact node_update_of_ne arena _ fun same => apart (same ▸ member)
    · refine ⟨?_, ?_, trivial⟩
      · exact (congrArg Node.previous (here last)).trans (by rw [if_pos rfl]; exact alone)
      · exact (congrArg Node.next (here last)).trans (by rw [if_pos rfl]; rfl)

theorem Linked.linkPrevious (linked : Linked arena previous segment next)
    (distinct : segment.Nodup) (inside : ∀ id ∈ segment, id < arena.bound)
    (before : Option ValueId) :
    Linked (arena.linkPrevious before segment.head?) before segment next := by
  cases segment with
  | nil => trivial
  | cons id rest =>
      obtain ⟨left, right, linked⟩ := linked
      have apart := (List.nodup_cons.mp distinct).1
      have here := node_update arena (inside id List.mem_cons_self)
        (fun node => { node with previous := before })
      refine ⟨?_, ?_, linked.congr fun other member => ?_⟩
      · exact (congrArg Node.previous (here id)).trans (by rw [if_pos rfl])
      · exact (congrArg Node.next (here id)).trans (by rw [if_pos rfl]; exact right)
      · exact node_update_of_ne arena _ fun same => apart (same ▸ member)

/-- Without a value, its neighbours are next to each other. -/
theorem Linked.unlink (linked : Linked arena none (before ++ id :: behind) none)
    (distinct : (before ++ id :: behind).Nodup)
    (inside : ∀ other ∈ before ++ id :: behind, other < arena.bound) :
    Linked ((arena.linkNext before.getLast? behind.head?).linkPrevious before.getLast?
      behind.head?) none (before ++ behind) none := by
  obtain ⟨first, here, second⟩ := linked_append.mp linked
  obtain ⟨early, late, apart⟩ := List.nodup_append.mp distinct
  have lower (other : ValueId) (member : other ∈ before) : other < arena.bound :=
    inside other (List.mem_append_left _ member)
  have upper (other : ValueId) (member : other ∈ behind) : other < arena.bound :=
    inside other (List.mem_append_right _ (List.mem_cons_of_mem _ member))
  have distinct := (List.nodup_cons.mp late).2
  rw [linked_append, Option.or_none, Option.or_none]
  constructor
  · refine (first.linkNext early lower behind.head?).congr fun other member => ?_
    refine node_linkPrevious_of_ne _ _ fun same => ?_
    exact apart other member other (List.mem_cons_of_mem _ (List.mem_of_head? same)) rfl
  · have kept : Linked (arena.linkNext before.getLast? behind.head?) (some id) behind none :=
      second.2.congr fun other member => by
        refine node_linkNext_of_ne _ _ fun same => ?_
        exact apart other (List.mem_of_getLast? same) other (List.mem_cons_of_mem _ member) rfl
    exact kept.linkPrevious distinct (by simpa using upper) before.getLast?

/-! ## Appending, replacing and removing -/

@[simp] theorem bound_append (arena : Arena) (value : Value) :
    (arena.append value).2.bound = arena.bound + 1 := by
  show (linkNext _ _ _).bound = _
  rw [bound_linkNext]
  simp [bound]

theorem value_append (arena : Arena) (value : Value) (id : ValueId) :
    (arena.append value).2.value id = if id = arena.bound then value else arena.value id := by
  show (linkNext _ _ _).value id = _
  rw [value_linkNext, Arena.value, node_push]
  split <;> rfl

theorem remove_cases (arena : Arena) (id : ValueId) :
    arena.remove id = arena ∨ arena.remove id =
      { ((arena.linkNext (arena.node id).previous (arena.node id).next).linkPrevious
          (arena.node id).previous (arena.node id).next).update id Node.alone with
        size := arena.size - 1 } := by
  by_cases unlinked : (arena.node id).previous = none ∧ (arena.node id).next = none ∧
      arena.first ≠ some id
  · exact .inl (if_pos unlinked)
  · exact .inr (if_neg unlinked)

@[simp] theorem bound_remove (arena : Arena) (id : ValueId) :
    (arena.remove id).bound = arena.bound := by
  rcases arena.remove_cases id with same | taken
  · rw [same]
  · rw [taken]
    show (update _ _ _).bound = _
    rw [bound_update, bound_linkPrevious, bound_linkNext]

@[simp] theorem value_remove (arena : Arena) (id other : ValueId) :
    (arena.remove id).value other = arena.value other := by
  rcases arena.remove_cases id with same | taken
  · rw [same]
  · rw [taken]
    show Node.value ((update _ id Node.alone).node other) = _
    rw [read_update _ id Node.alone Node.value fun _ => rfl, ← Arena.value, value_linkPrevious,
      value_linkNext]

@[simp] theorem bound_replace (arena : Arena) (id : ValueId) (value : Value) :
    (arena.replace id value).bound = arena.bound :=
  bound_update _ _ _

theorem links_replace (arena : Arena) (id : ValueId) (value : Value) (other : ValueId) :
    ((arena.replace id value).node other).previous = (arena.node other).previous ∧
      ((arena.replace id value).node other).next = (arena.node other).next :=
  ⟨read_update _ _ (fun node => { node with value }) Node.previous (fun _ => rfl) _,
    read_update _ _ (fun node => { node with value }) Node.next (fun _ => rfl) _⟩

theorem remove_of_unlinked (previous : (arena.node id).previous = none)
    (next : (arena.node id).next = none) (first : arena.first ≠ some id) :
    arena.remove id = arena :=
  if_pos ⟨previous, next, first⟩

theorem remove_of_linked (linked : (arena.node id).previous = none → (arena.node id).next = none →
    arena.first = some id) :
    arena.remove id =
      { ((arena.linkNext (arena.node id).previous (arena.node id).next).linkPrevious
          (arena.node id).previous (arena.node id).next).update id Node.alone with
        size := arena.size - 1 } :=
  if_neg fun unlinked => unlinked.2.2 (linked unlinked.1 unlinked.2.1)

/-- The first and the last value of a list are known, all others are linked between them, and what
is not in the list has no neighbours. -/
structure Chain (arena : Arena) (ids : List ValueId) : Prop where
  first : arena.first = ids.head?
  last : arena.last = ids.getLast?
  linked : arena.Linked none ids none
  apart : ∀ id, id ∉ ids → (arena.node id).previous = none ∧ (arena.node id).next = none
  distinct : ids.Nodup
  inside : ∀ id ∈ ids, id < arena.bound

namespace Chain

theorem empty : Arena.empty.Chain [] where
  first := rfl
  last := rfl
  linked := trivial
  apart _ _ := ⟨rfl, rfl⟩
  distinct := List.nodup_nil
  inside := nofun

theorem append (chain : arena.Chain segment) (value : Value) :
    (arena.append value).2.Chain (segment ++ [arena.bound]) := by
  let pushed : Arena := { arena with nodes := arena.nodes.push ⟨value, arena.last, none⟩ }
  let linked : Arena := pushed.linkNext arena.last (some arena.bound)
  have fresh : arena.bound ∉ segment := fun member => Nat.lt_irrefl _ (chain.inside _ member)
  have old (id : ValueId) (differs : id ≠ arena.bound) : pushed.node id = arena.node id := by
    rw [node_push, if_neg differs]
  have within (id : ValueId) (member : id ∈ segment) : id < pushed.bound := by
    simpa [pushed, Arena.bound] using Nat.lt_succ_of_lt (chain.inside id member)
  have before : pushed.Linked none segment none :=
    chain.linked.congr fun id member => old id (Nat.ne_of_lt (chain.inside id member))
  -- Of the old nodes only the last one learns of the new value.
  have relinked := before.linkNext chain.distinct within (some arena.bound)
  rw [← chain.last] at relinked
  have here : linked.node arena.bound = ⟨value, arena.last, none⟩ := by
    rw [node_linkNext_of_ne, node_push, if_pos rfl]
    rw [chain.last]
    exact fun same => fresh (List.mem_of_getLast? same)
  constructor
  · have starts : pushed.first = (segment ++ []).head? := by rw [List.append_nil, ← chain.first]
    rw [← first_linkNext starts [arena.bound], ← chain.last]
    rfl
  · show some arena.bound = _
    rw [List.getLast?_concat]
  · refine linked_append.mpr ⟨relinked.congr fun _ _ => rfl, ?_, ?_, trivial⟩
    · rw [Option.or_none, ← chain.last]
      exact congrArg Node.previous here
    · exact congrArg Node.next here
  · intro id absent
    rw [List.mem_append, List.mem_singleton, not_or] at absent
    have unlinked : arena.last ≠ some id := by
      rw [chain.last]
      exact fun same => absent.1 (List.mem_of_getLast? same)
    have kept : linked.node id = arena.node id :=
      (node_linkNext_of_ne _ _ unlinked).trans (old id absent.2)
    have alone := chain.apart id absent.1
    rw [← kept] at alone
    exact alone
  · rw [← List.concat_eq_append]
    exact chain.distinct.concat fresh
  · intro id member
    rw [bound_append]
    rcases List.mem_append.mp member with early | new
    · exact Nat.lt_succ_of_lt (chain.inside id early)
    · rw [List.mem_singleton.mp new]
      exact Nat.lt_succ_self _

theorem replace (chain : arena.Chain segment) (id : ValueId) (value : Value) :
    (arena.replace id value).Chain segment where
  first := chain.first
  last := chain.last
  linked := chain.linked.of_links fun other _ => links_replace arena id value other
  apart other absent := by
    obtain ⟨previous, next⟩ := links_replace arena id value other
    rw [previous, next]
    exact chain.apart other absent
  distinct := chain.distinct
  inside other member := by
    rw [bound_replace]
    exact chain.inside other member

/-- Taking out again what is not in the list changes nothing. -/
theorem remove_gone (chain : arena.Chain segment) (gone : id ∉ segment) :
    arena.remove id = arena := by
  obtain ⟨previous, next⟩ := chain.apart id gone
  refine remove_of_unlinked previous next ?_
  rw [chain.first]
  exact fun same => gone (List.mem_of_head? same)

theorem neighbours (chain : arena.Chain (before ++ id :: behind)) :
    (arena.node id).previous = before.getLast? ∧ (arena.node id).next = behind.head? := by
  obtain ⟨-, previous, next, -⟩ := linked_append.mp chain.linked
  rw [Option.or_none] at previous next
  exact ⟨previous, next⟩

theorem remove_eq (chain : arena.Chain (before ++ id :: behind)) :
    arena.remove id =
      { ((arena.linkNext before.getLast? behind.head?).linkPrevious before.getLast?
          behind.head?).update id Node.alone with size := arena.size - 1 } := by
  obtain ⟨previous, next⟩ := chain.neighbours
  have only : (arena.node id).previous = none → (arena.node id).next = none →
      arena.first = some id := by
    rw [previous, next, List.getLast?_eq_none_iff, List.head?_eq_none_iff, chain.first]
    rintro rfl rfl
    rfl
  rw [remove_of_linked only, previous, next]

theorem remove (chain : arena.Chain (before ++ id :: behind)) :
    (arena.remove id).Chain (before ++ behind) := by
  let linked := (arena.linkNext before.getLast? behind.head?).linkPrevious before.getLast?
    behind.head?
  have fewer : (before ++ behind).Sublist (before ++ id :: behind) :=
    (List.Sublist.refl before).append (List.sublist_cons_self id behind)
  have absent : id ∉ before ++ behind :=
    (List.nodup_cons.mp (List.nodup_middle.mp chain.distinct)).1
  have bounded : linked.bound = arena.bound := by rw [bound_linkPrevious, bound_linkNext]
  have unlinked := chain.linked.unlink chain.distinct chain.inside
  have ends : arena.last = ((before ++ [id]) ++ behind).getLast? := by
    rw [List.append_assoc]
    exact chain.last
  rw [chain.remove_eq]
  constructor
  · show linked.first = _
    rw [first_linkPrevious, first_linkNext chain.first]
  · show linked.last = _
    rw [last_linkPrevious ((last_linkNext _ _ _).trans ends)]
  · refine unlinked.congr fun other member => node_update_of_ne _ _ fun same => ?_
    exact absent (same ▸ member)
  · intro other missing
    show ((linked.update id Node.alone).node other).previous = none ∧
      ((linked.update id Node.alone).node other).next = none
    -- Its own links are cut last: until then the value still points at its neighbours.
    by_cases same : other = id
    · have inside : id < linked.bound := bounded ▸ chain.inside id (by simp)
      rw [node_update linked inside, if_pos same]
      exact ⟨rfl, rfl⟩
    · have lower : before.getLast? ≠ some other := fun last =>
        missing (List.mem_append_left _ (List.mem_of_getLast? last))
      have upper : behind.head? ≠ some other := fun first =>
        missing (List.mem_append_right _ (List.mem_of_head? first))
      rw [node_update_of_ne _ _ same, node_linkPrevious_of_ne _ _ upper,
        node_linkNext_of_ne _ _ lower]
      refine chain.apart other fun member => missing ?_
      simpa [same] using member
  · exact chain.distinct.sublist fewer
  · intro other member
    show other < (linked.update id Node.alone).bound
    rw [bound_update, bounded]
    exact chain.inside other (fewer.subset member)

end Chain

/-! ## Blocks -/

/-- An arena that keeps the values of a block, and links those that the block lists. -/
structure Holds (arena : Arena) (block : Block) : Prop where
  bound : arena.bound = block.bound
  values : ∀ id, arena.value id = block.value id
  size : arena.size = block.size
  chain : arena.Chain block.ids

theorem Holds.empty : Arena.empty.Holds .empty where
  bound := rfl
  values _ := rfl
  size := rfl
  chain := .empty

theorem reset_eq (arena : Arena) : arena.reset = .empty := by
  have nodes : arena.nodes.take 0 = #[] := by simp
  rw [reset, nodes]
  rfl

namespace Holds

variable (holds : arena.Holds block)

include holds

theorem congr {same : Block} (bound : same.bound = block.bound)
    (value : ∀ id, same.value id = block.value id) (ids : same.ids = block.ids) :
    arena.Holds same where
  bound := by rw [holds.bound, bound]
  values id := by rw [holds.values, value]
  size := by rw [holds.size, Block.size, Block.size, ids]
  chain := by rw [ids]; exact holds.chain

theorem append (value : Value) : (arena.append value).2.Holds (block.push value).2 where
  bound := by rw [bound_append, Block.bound_push, holds.bound]
  values id := by rw [value_append, Block.value_push, holds.bound, holds.values]
  size := by
    show arena.size + 1 = _
    rw [holds.size, Block.size, Block.size, Block.ids_push, List.length_append]
    rfl
  chain := by
    rw [Block.ids_push, ← holds.bound]
    exact holds.chain.append value

theorem replace (id : ValueId) (value : Value) :
    (arena.replace id value).Holds (block.replace id value) := by
  constructor
  · rw [bound_replace, Block.bound_replace, holds.bound]
  · intro other
    by_cases inside : id < arena.bound
    · rw [Block.value_replace_of_lt value (holds.bound ▸ inside), Arena.value, Arena.replace,
        node_update arena inside]
      split
      · rfl
      · exact holds.values other
    · have outside : block.bound ≤ id := holds.bound ▸ Nat.le_of_not_lt inside
      rw [Block.value_replace_of_le value outside, Arena.value, Arena.replace,
        node_update_of_le arena (Nat.le_of_not_lt inside)]
      exact holds.values other
  · rw [Block.size, Block.ids_replace, ← Block.size, ← holds.size]
    rfl
  · rw [Block.ids_replace]
    exact holds.chain.replace id value

theorem remove (id : ValueId) : (arena.remove id).Holds (block.remove id) := by
  by_cases listed : id ∈ block.ids
  · obtain ⟨before, behind, split⟩ := List.append_of_mem listed
    have chain := holds.chain
    rw [split] at chain
    have ids := Block.ids_remove_of_split split
    constructor
    · rw [bound_remove, Block.bound_remove, holds.bound]
    · intro other
      rw [value_remove, Block.value_remove, holds.values]
    · rw [chain.remove_eq]
      show arena.size - 1 = _
      rw [holds.size, Block.size, Block.size, ids, split]
      simp
    · rw [ids]
      exact chain.remove
  · rw [holds.chain.remove_gone listed]
    exact holds.congr (block.bound_remove id) (block.value_remove id)
      (Block.ids_remove_of_not_mem listed)

end Holds

/-- Before any value is taken from it, an arena links all values. -/
theorem holds_appended (value : ValueId → Value) (count : Nat) :
    ∃ whole : Block,
      ((List.range count).foldl (fun arena id => (Arena.append arena (value id)).2) .empty).Holds
        whole ∧
      whole.bound = count ∧ (∀ id < count, whole.value id = value id) ∧
      ∀ id, whole.isListed id = decide (id < count) := by
  induction count with
  | zero => exact ⟨.empty, .empty, rfl, nofun, fun _ => rfl⟩
  | succ count ih =>
      obtain ⟨whole, holds, bound, values, listed⟩ := ih
      refine ⟨(whole.push (value count)).2, ?_, ?_, fun id inside => ?_, fun id => ?_⟩
      · rw [List.range_succ, List.foldl_append]
        exact holds.append _
      · rw [Block.bound_push, bound]
      · rw [Block.value_push, bound]
        split
        · rename_i last
          rw [last]
        · rename_i differs
          exact values id (Nat.lt_of_le_of_ne (Nat.le_of_lt_succ inside) differs)
      · rw [Block.isListed_push, bound, listed, Bool.eq_iff_iff, Bool.or_eq_true, beq_iff_eq,
          decide_eq_true_iff, decide_eq_true_iff, or_comm]
        exact Nat.lt_succ_iff_lt_or_eq.symm

/-- Taking values from an arena takes them from the block. -/
theorem Holds.removed (holds : arena.Holds block) (keeps : ValueId → Bool)
    (numbers : List ValueId) :
    ∃ left : Block,
      (numbers.foldr (fun id arena => if keeps id then arena else arena.remove id) arena).Holds
        left ∧
      left.bound = block.bound ∧ (∀ id, left.value id = block.value id) ∧
      ∀ id, left.isListed id = (block.isListed id && (keeps id || decide (id ∉ numbers))) := by
  induction numbers with
  | nil => exact ⟨block, holds, rfl, fun _ => rfl, fun id => by simp⟩
  | cons number numbers ih =>
      obtain ⟨left, holds, bound, values, listed⟩ := ih
      rw [List.foldr_cons]
      by_cases kept : keeps number = true
      · refine ⟨left, by rwa [if_pos kept], bound, values, fun id => ?_⟩
        rw [listed]
        by_cases same : id = number <;> simp [same, kept]
      · refine ⟨left.remove number, ?_, ?_, fun id => ?_, fun id => ?_⟩
        · rw [if_neg kept]
          exact holds.remove number
        · rw [Block.bound_remove, bound]
        · rw [Block.value_remove, values]
        · rw [Block.isListed_remove, listed]
          by_cases same : id = number <;> simp [same, kept]

end Arena

theorem Block.arena_holds (block : Block) : block.arena.Holds block := by
  obtain ⟨whole, holds, bound, values, listed⟩ := Arena.holds_appended block.value block.bound
  obtain ⟨left, holds, same, kept, rest⟩ :=
    holds.removed block.isListed (List.range block.bound)
  have ids : block.ids = left.ids := by
    rw [Block.ids, Block.ids, same, bound]
    refine List.filter_congr fun id member => ?_
    have inside := List.mem_range.mp member
    simp [rest, listed, inside]
  refine holds.congr (same.trans bound).symm (fun id => ?_) ids
  rw [kept]
  by_cases inside : id < block.bound
  · exact (values id inside).symm
  · rw [Block.value_of_le (Nat.le_of_not_lt inside),
      Block.value_of_le (Nat.le_of_not_lt (bound ▸ inside))]

end MipsRecompiler.Ir
