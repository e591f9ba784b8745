import MipsRecompiler.CodeUnit.Basic
import MipsRecompiler.Engine.CodeCache
import MipsRecompiler.Emission.Basic
import Std.Data.TreeMap

/-!
# The block directory

Which block starts at a physical address, page by page, and which words some block was compiled
from. A write to such a word drops its page, and with it every page whose blocks took a delay
slot from a dropped page.
-/

set_option autoImplicit false

namespace MipsRecompiler

/-- A compiled unit, and what it was compiled for. -/
structure CompiledBlock where
  code : CodeRange
  startPc : DoubleWord
  /-- The number of guest instructions. -/
  length : Nat
  configuration : Configuration
  idleLoop : Bool
  deriving DecidableEq, Repr, Inhabited

/-- The blocks that start on a page, and its words that are code. Places are word numbers. -/
structure DirectoryPage where
  blocks : Vector (Option CompiledBlock) 1024
  code : Vector Bool 1024

namespace DirectoryPage

def blank : DirectoryPage := ⟨Vector.replicate 1024 none, Vector.replicate 1024 false⟩

instance : Inhabited DirectoryPage := ⟨blank⟩

def mark (page : DirectoryPage) (place : Fin 1024) : DirectoryPage :=
  { page with code := page.code.set place true }

end DirectoryPage

/-- All compiled blocks by physical address. -/
structure BlockDirectory where
  /-- The resident pages by number. -/
  pages : Std.TreeMap Nat DirectoryPage
  /-- For a page, the other pages whose blocks took a word from it. -/
  dependents : Std.TreeMap Nat (List Nat)
  /-- The number of resident pages, counted along. -/
  resident : Nat

namespace BlockDirectory

def empty : BlockDirectory := ⟨∅, ∅, 0⟩

instance : Inhabited BlockDirectory := ⟨empty⟩

/-- The page of a physical address. -/
def pageOf (physical : Word) : Nat :=
  CodeUnit.pageOf physical

/-- The number of a word within its page. -/
def wordOf (physical : Word) : Fin 1024 :=
  ⟨physical.toNat / 4 % 1024, Nat.mod_lt _ (by decide)⟩

def page? (directory : BlockDirectory) (physical : Word) : Option DirectoryPage :=
  directory.pages[pageOf physical]?

def isResident (directory : BlockDirectory) (physical : Word) : Bool :=
  (directory.page? physical).isSome

def get? (directory : BlockDirectory) (physical : Word) : Option CompiledBlock :=
  match directory.page? physical with
  | some page => page.blocks[wordOf physical]
  | none => none

/-- Whether some resident block was compiled from the word at a physical address. -/
def isCode (directory : BlockDirectory) (physical : Word) : Bool :=
  match directory.page? physical with
  | some page => page.code[wordOf physical]
  | none => false

/-- The addresses among `low`, `low + 4` and so on below `high` at which a block starts. -/
def startsBetween (directory : BlockDirectory) (low high : Word) : List Word :=
  directory.pages.keys.flatMap fun number =>
    (List.range 1024).filterMap fun word =>
      let physical := BitVec.ofNat 32 (CodeUnit.pageSize * number + 4 * word + low.toNat % 4)
      if low ≤ physical ∧ physical < high ∧ (directory.get? physical).isSome then some physical
      else none

def residentPages (directory : BlockDirectory) : Nat :=
  directory.resident

/-- The number of pages that others took words from. -/
def linkedPages (directory : BlockDirectory) : Nat :=
  directory.dependents.size

def updatePage (directory : BlockDirectory) (physical : Word)
    (change : DirectoryPage → DirectoryPage) : BlockDirectory :=
  { directory with
    pages := directory.pages.alter (pageOf physical) fun page =>
      some (change (page.getD .blank))
    resident := directory.resident + if directory.isResident physical then 0 else 1 }

/-- Notes that the blocks of page `home` took a word from another page. -/
def linkPage (directory : BlockDirectory) (source home : Nat) : BlockDirectory :=
  { directory with
    dependents := directory.dependents.alter source fun homes =>
      let homes := homes.getD []
      some (if homes.contains home then homes else homes ++ [home]) }

/-- Marks a word as code of a block that starts on page `home`. -/
def markWord (home : Nat) (directory : BlockDirectory) (word : Word) : BlockDirectory :=
  let marked := directory.updatePage word fun page => page.mark (wordOf word)
  if pageOf word = home then marked else marked.linkPage (pageOf word) home

/-- Enters a block at a physical address, and marks the words it was compiled from. -/
def insert (directory : BlockDirectory) (physical : Word) (block : CompiledBlock)
    (words : List Word) : BlockDirectory :=
  let entered := directory.updatePage physical fun page =>
    { page with blocks := page.blocks.set (wordOf physical) (some block) }
  words.foldl (markWord (pageOf physical)) entered

/-- Drops one page and the links from it. Returns the pages that depend on it. -/
def dropPage (directory : BlockDirectory) (number : Nat) : List Nat × BlockDirectory :=
  let homes := (directory.dependents[number]?).getD []
  let links := (directory.dependents.erase number).filterMap fun _ others =>
    let kept := others.filter (· ≠ number)
    if kept.isEmpty then none else some kept
  let count := if (directory.pages[number]?).isSome then 1 else 0
  (homes, { pages := directory.pages.erase number, dependents := links
            resident := directory.resident - count })

/-- The number of pages named in links, as links and as their dependents. -/
def linkWeight (directory : BlockDirectory) : Nat :=
  directory.dependents.foldl (fun weight _ homes => weight + 1 + homes.length) 0

private theorem toList_erase_perm (map : Std.TreeMap Nat (List Nat)) (number : Nat) :
    map.toList.Perm (map[number]?.toList.map (number, ·) ++ (map.erase number).toList) := by
  have distinct (map : Std.TreeMap Nat (List Nat)) : map.toList.Nodup :=
    Std.TreeMap.distinct_keys_toList.imp fun differs same => differs (by rw [same]; simp)
  have members (key : Nat) (value : List Nat) : (key, value) ∈ (map.erase number).toList ↔
      number ≠ key ∧ map[key]? = some value := by
    rw [Std.TreeMap.mem_toList_iff_getElem?_eq_some, Std.TreeMap.getElem?_erase]
    by_cases same : number = key <;> simp [same]
  refine (List.perm_ext_iff_of_nodup (distinct map) ?_).mpr ?_
  · refine List.nodup_append.mpr ⟨?_, distinct _, ?_⟩
    · cases map[number]? <;> simp
    · rintro ⟨key, value⟩ first _ second rfl
      obtain ⟨_, -, pair⟩ := List.mem_map.mp first
      cases pair
      exact ((members _ _).mp second).1 rfl
  · rintro ⟨key, value⟩
    rw [List.mem_append, members, Std.TreeMap.mem_toList_iff_getElem?_eq_some]
    by_cases same : number = key
    · subst same
      simp
    · simp [same]

private def weigh (entry : Nat × List Nat) : Nat :=
  1 + entry.2.length

private theorem linkWeight_eq (directory : BlockDirectory) :
    directory.linkWeight = (directory.dependents.toList.map weigh).foldr (· + ·) 0 := by
  have add (entries : List (Nat × List Nat)) (weight : Nat) :
      entries.foldl (fun weight entry => weight + 1 + entry.2.length) weight =
        weight + (entries.map weigh).sum := by
    induction entries generalizing weight with
    | nil => rfl
    | cons entry rest ih =>
        rw [List.foldl_cons, ih, List.map_cons, List.sum_cons, weigh]
        omega
  rw [linkWeight, Std.TreeMap.foldl_eq_foldl_toList, add, Nat.zero_add, List.sum_eq_foldr]

/-- A dropped page takes the weight of its links with it. -/
private theorem dropPage_weight (directory : BlockDirectory) (number : Nat) :
    (directory.dropPage number).2.linkWeight + (directory.dropPage number).1.length ≤
      directory.linkWeight := by
  have fewer (entries : List (Nat × List Nat)) :
      ((entries.filterMap fun entry =>
        (if (entry.2.filter (· ≠ number)).isEmpty then none
          else some (entry.2.filter (· ≠ number))).map fun kept => (entry.1, kept)).map
        weigh).sum ≤ (entries.map weigh).sum := by
    induction entries with
    | nil => exact Nat.le_refl _
    | cons entry rest ih =>
        have shorter := List.length_filter_le (· ≠ number) entry.2
        rw [List.filterMap_cons]
        split
        · rw [List.map_cons, List.sum_cons]
          omega
        · rename_i kept is
          simp only [Option.map_eq_some_iff, Option.ite_none_left_eq_some] at is
          obtain ⟨_, ⟨-, same⟩, pair⟩ := is
          cases same
          subst pair
          simp only [List.map_cons, List.sum_cons, weigh]
          omega
  have erased : ((directory.dependents.erase number).toList.map weigh).sum +
      ((directory.dependents[number]?).getD []).length ≤
        (directory.dependents.toList.map weigh).sum := by
    rw [((toList_erase_perm directory.dependents number).map weigh).sum_nat, List.map_append,
      List.sum_append]
    cases directory.dependents[number]? with
    | some homes =>
        simp [weigh]
        omega
    | none => simp
  rw [linkWeight_eq, linkWeight_eq, ← List.sum_eq_foldr, ← List.sum_eq_foldr]
  refine Nat.le_trans (Nat.add_le_add_right ?_ _) erased
  simp only [dropPage, Std.TreeMap.toList_filterMap]
  exact fewer _

/-- Drops pages, and whatever depends on them, as long as there are any. The page named last is
dropped first. -/
def dropPages (directory : BlockDirectory) : List Nat → BlockDirectory
  | [] => directory
  | number :: pending =>
    dropPages (directory.dropPage number).2 ((directory.dropPage number).1.reverse ++ pending)
termination_by pending => directory.linkWeight + pending.length
decreasing_by
  have lighter := directory.dropPage_weight number
  simp only [List.length_append, List.length_reverse, List.length_cons]
  omega

/-- The word at a physical address was written. If it is code, its page and all pages that
depend on it are dropped. Returns whether it was. -/
def invalidate (directory : BlockDirectory) (physical : Word) : Bool × BlockDirectory :=
  if directory.isCode physical then
    (true, dropPages directory [pageOf physical])
  else (false, directory)

end BlockDirectory

end MipsRecompiler
