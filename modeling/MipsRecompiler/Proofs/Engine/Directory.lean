import MipsRecompiler.Engine.BlockDirectory
import Mathlib.Logic.Relation

/-!
# Entering and dropping blocks

A block stays findable until its page is dropped. Its words stay marked as code for as long. A
dropped page takes those pages with it that depend on it, directly or through others, and no
other page.
-/

set_option autoImplicit false

namespace MipsRecompiler.BlockDirectory

variable {directory : BlockDirectory} {physical start word : Word} {block : CompiledBlock}
  {source home number : Nat}

/-- Some block of page `home` took a word from another page. -/
def Linked (directory : BlockDirectory) (source home : Nat) : Prop :=
  home ∈ (directory.dependents[source]?).getD []

/-- A word is marked as code, and the page where a block starts depends on it. -/
structure Covers (directory : BlockDirectory) (start word : Word) : Prop where
  code : directory.isCode word = true
  linked : pageOf word = pageOf start ∨ directory.Linked (pageOf word) (pageOf start)

/-- The resident pages are counted rightly, and every page with links has a dependent one. -/
structure Tidy (directory : BlockDirectory) : Prop where
  counted : directory.resident = directory.pages.size
  links : ∀ (source : Nat) (homes : List Nat),
    directory.dependents[source]? = some homes → homes ≠ []

theorem empty_tidy : empty.Tidy where
  counted := by simp [empty]
  links := by simp [empty]

/-! ## Entering a block -/

section Insert

variable {words : List Word}

theorem page?_updatePage (directory : BlockDirectory) (physical other : Word)
    (change : DirectoryPage → DirectoryPage) :
    (directory.updatePage physical change).page? other =
      if pageOf physical = pageOf other then
        some (change ((directory.page? physical).getD .blank))
      else directory.page? other := by
  simp only [updatePage, page?, Std.TreeMap.getElem?_alter, Nat.compare_eq_eq]

theorem page?_linkPage (directory : BlockDirectory) (source home : Nat) (other : Word) :
    (directory.linkPage source home).page? other = directory.page? other := rfl

theorem updatePage_resident (physical : Word) (change : DirectoryPage → DirectoryPage)
    (resident : pageOf physical = number ∨ (directory.pages[number]?).isSome = true) :
    ((directory.updatePage physical change).pages[number]?).isSome = true := by
  simp only [updatePage, Std.TreeMap.getElem?_alter, Nat.compare_eq_eq]
  split
  · rfl
  · exact resident.resolve_left ‹_›

theorem Tidy.updatePage (tidy : directory.Tidy) (physical : Word)
    (change : DirectoryPage → DirectoryPage) : (directory.updatePage physical change).Tidy where
  counted := by
    have counted := tidy.counted
    simp only [BlockDirectory.updatePage, isResident, page?, Std.TreeMap.size_alter,
      Std.TreeMap.mem_iff_isSome_getElem?, Option.isNone_some, Option.isSome_some]
    by_cases resident : (directory.pages[pageOf physical]?).isSome = true
    · simp [resident, counted]
    · simp [resident, counted]
  links := tidy.links

theorem linked_linkPage {other place : Nat} :
    (directory.linkPage source home).Linked other place ↔
      directory.Linked other place ∨ (other = source ∧ place = home) := by
  simp only [Linked, linkPage, Std.TreeMap.getElem?_alter, Nat.compare_eq_eq]
  by_cases same : source = other
  · subst same
    rw [if_pos rfl, Option.getD_some]
    split
    · rename_i there
      constructor
      · exact .inl
      · rintro (linked | ⟨-, rfl⟩)
        · exact linked
        · exact List.contains_iff_mem.mp there
    · simp
  · rw [if_neg same]
    simp [Ne.symm same]

theorem Tidy.linkPage (tidy : directory.Tidy) (source home : Nat) :
    (directory.linkPage source home).Tidy where
  counted := tidy.counted
  links := by
    intro other homes listed
    simp only [BlockDirectory.linkPage, Std.TreeMap.getElem?_alter, Nat.compare_eq_eq] at listed
    split at listed
    · injection listed with same
      subst same
      split
      · rename_i there
        intro empty
        rw [empty] at there
        cases there
      · simp
    · exact tidy.links other homes listed

private theorem page?_congr {other : Word} (same : pageOf physical = pageOf other) :
    directory.page? physical = directory.page? other := by
  rw [page?, page?, same]

private theorem get?_mark (directory : BlockDirectory) (word physical : Word) :
    (directory.updatePage word fun page => page.mark (wordOf word)).get? physical =
      directory.get? physical := by
  rw [get?, get?, page?_updatePage]
  by_cases same : pageOf word = pageOf physical
  · rw [if_pos same, page?_congr same]
    cases directory.page? physical with
    | some page => rfl
    | none => simp [DirectoryPage.mark, DirectoryPage.blank]
  · rw [if_neg same]

private theorem isCode_mark (directory : BlockDirectory) (word other : Word) :
    (directory.updatePage word fun page => page.mark (wordOf word)).isCode other =
      (decide (pageOf word = pageOf other ∧ wordOf word = wordOf other) ||
        directory.isCode other) := by
  rw [isCode, isCode, page?_updatePage]
  by_cases same : pageOf word = pageOf other
  · rw [if_pos same, page?_congr same]
    have number : (wordOf word).val = (wordOf other).val ↔ wordOf word = wordOf other :=
      Fin.ext_iff.symm
    cases directory.page? other with
    | some page =>
        simp only [Option.getD_some, DirectoryPage.mark, Fin.getElem_fin, Vector.getElem_set, number,
          same]
        by_cases slot : wordOf word = wordOf other <;> simp [slot]
    | none =>
        simp only [Option.getD_none, DirectoryPage.mark, DirectoryPage.blank, Fin.getElem_fin,
          Vector.getElem_set, number, same]
        by_cases slot : wordOf word = wordOf other <;> simp [slot]
  · rw [if_neg same]
    simp [same]

theorem get?_markWord (home : Nat) (directory : BlockDirectory) (word physical : Word) :
    (markWord home directory word).get? physical = directory.get? physical := by
  have marked := get?_mark directory word physical
  unfold markWord
  dsimp only
  split
  · exact marked
  · rw [get?, page?_linkPage]
    exact marked

theorem isCode_markWord (home : Nat) (directory : BlockDirectory) (word other : Word) :
    (markWord home directory word).isCode other =
      (decide (pageOf word = pageOf other ∧ wordOf word = wordOf other) ||
        directory.isCode other) := by
  have marked := isCode_mark directory word other
  unfold markWord
  dsimp only
  split
  · exact marked
  · rw [isCode, page?_linkPage]
    exact marked

theorem linked_markWord {place : Nat} :
    (markWord place directory word).Linked source home ↔
      directory.Linked source home ∨ (pageOf word ≠ place ∧ source = pageOf word ∧ home = place) := by
  have marked : (directory.updatePage word fun page => page.mark (wordOf word)).Linked source home ↔
      directory.Linked source home := Iff.rfl
  unfold markWord
  dsimp only
  split
  · rename_i same
    simp [marked, same]
  · rename_i differs
    rw [linked_linkPage, marked]
    simp [differs]

theorem markWord_resident (place : Nat) (word : Word)
    (resident : (directory.pages[number]?).isSome = true) :
    ((markWord place directory word).pages[number]?).isSome = true := by
  have marked := updatePage_resident word (fun page => page.mark (wordOf word)) (.inr resident)
  unfold markWord
  dsimp only
  split <;> exact marked

theorem Tidy.markWord (tidy : directory.Tidy) (place : Nat) (word : Word) :
    (BlockDirectory.markWord place directory word).Tidy := by
  have marked := tidy.updatePage word fun page => page.mark (wordOf word)
  unfold BlockDirectory.markWord
  dsimp only
  split
  · exact marked
  · exact marked.linkPage _ _

theorem get?_insert (directory : BlockDirectory) (physical : Word) (block : CompiledBlock)
    (words : List Word) (other : Word) :
    (directory.insert physical block words).get? other =
      if pageOf physical = pageOf other ∧ wordOf physical = wordOf other then some block
      else directory.get? other := by
  have folded (directory : BlockDirectory) (words : List Word) :
      (words.foldl (markWord (pageOf physical)) directory).get? other = directory.get? other := by
    induction words generalizing directory with
    | nil => rfl
    | cons word rest ih => rw [List.foldl_cons, ih, get?_markWord]
  rw [insert, folded, get?, get?, page?_updatePage]
  by_cases same : pageOf physical = pageOf other
  · rw [if_pos same, page?_congr same]
    have number : (wordOf physical).val = (wordOf other).val ↔ wordOf physical = wordOf other :=
      Fin.ext_iff.symm
    cases directory.page? other with
    | some page =>
        simp only [Option.getD_some, Fin.getElem_fin, Vector.getElem_set, number, same, true_and]
    | none =>
        simp only [Option.getD_none, DirectoryPage.blank, Fin.getElem_fin, Vector.getElem_set,
          number, same, true_and, Vector.getElem_replicate]
  · rw [if_neg same, if_neg fun both => same both.1]

/-- Exactly the words of a block become code when it is entered. -/
theorem isCode_insert {other : Word} :
    (directory.insert physical block words).isCode other = true ↔
      directory.isCode other = true ∨
        ∃ word ∈ words, pageOf word = pageOf other ∧ wordOf word = wordOf other := by
  have folded (directory : BlockDirectory) (words : List Word) :
      (words.foldl (markWord (pageOf physical)) directory).isCode other = true ↔
        directory.isCode other = true ∨
          ∃ word ∈ words, pageOf word = pageOf other ∧ wordOf word = wordOf other := by
    induction words generalizing directory with
    | nil => simp
    | cons word rest ih =>
        rw [List.foldl_cons, ih, isCode_markWord, Bool.or_eq_true, decide_eq_true_iff]
        simp only [List.mem_cons, exists_eq_or_imp, or_assoc, or_left_comm]
  rw [insert, folded, isCode, isCode, page?_updatePage]
  by_cases same : pageOf physical = pageOf other
  · rw [if_pos same, page?_congr same]
    cases directory.page? other with
    | some page => rfl
    | none => simp [DirectoryPage.blank]
  · rw [if_neg same]

/-- The page of an entered block depends on exactly the other pages that it took words from. -/
theorem linked_insert :
    (directory.insert physical block words).Linked source home ↔
      directory.Linked source home ∨
        (home = pageOf physical ∧ source ≠ home ∧ ∃ word ∈ words, pageOf word = source) := by
  have folded (directory : BlockDirectory) (words : List Word) :
      (words.foldl (markWord (pageOf physical)) directory).Linked source home ↔
        directory.Linked source home ∨
          (home = pageOf physical ∧ source ≠ home ∧ ∃ word ∈ words, pageOf word = source) := by
    induction words generalizing directory with
    | nil => simp
    | cons word rest ih =>
        rw [List.foldl_cons, ih, linked_markWord]
        simp only [List.mem_cons, exists_eq_or_imp]
        constructor
        · rintro ((linked | ⟨differs, rfl, rfl⟩) | ⟨rfl, differs, member⟩)
          · exact .inl linked
          · exact .inr ⟨rfl, differs, .inl rfl⟩
          · exact .inr ⟨rfl, differs, .inr member⟩
        · rintro (linked | ⟨rfl, differs, rfl | member⟩)
          · exact .inl (.inl linked)
          · exact .inl (.inr ⟨differs, rfl, rfl⟩)
          · exact .inr ⟨rfl, differs, member⟩
  exact folded _ words

theorem insert_resident (physical : Word) (block : CompiledBlock) (words : List Word)
    (resident : pageOf physical = number ∨ (directory.pages[number]?).isSome = true) :
    ((directory.insert physical block words).pages[number]?).isSome = true := by
  have entered := updatePage_resident physical
    (fun page => { page with blocks := page.blocks.set (wordOf physical) (some block) }) resident
  rw [insert]
  generalize directory.updatePage physical _ = between at entered
  induction words generalizing between with
  | nil => exact entered
  | cons word rest ih => exact ih _ (markWord_resident _ word entered)

theorem Tidy.insert (tidy : directory.Tidy) (physical : Word) (block : CompiledBlock)
    (words : List Word) : (directory.insert physical block words).Tidy := by
  have entered := tidy.updatePage physical fun page =>
    { page with blocks := page.blocks.set (wordOf physical) (some block) }
  rw [BlockDirectory.insert]
  generalize directory.updatePage physical _ = between at entered
  induction words generalizing between with
  | nil => exact entered
  | cons word rest ih => exact ih _ (entered.markWord _ word)

/-- A block was entered: it is found where it starts, exactly its words became code, and its page
depends on exactly the other pages that it took words from. -/
structure Enters (before after : BlockDirectory) (start : Word) (block : CompiledBlock)
    (words : List Word) : Prop where
  blocks : ∀ other, after.get? other =
    if pageOf start = pageOf other ∧ wordOf start = wordOf other then some block
    else before.get? other
  code : ∀ other, after.isCode other = true ↔ before.isCode other = true ∨
    ∃ word ∈ words, pageOf word = pageOf other ∧ wordOf word = wordOf other
  linked : ∀ source home, after.Linked source home ↔ before.Linked source home ∨
    (home = pageOf start ∧ source ≠ home ∧ ∃ word ∈ words, pageOf word = source)

theorem insert_enters (directory : BlockDirectory) (start : Word) (block : CompiledBlock)
    (words : List Word) : Enters directory (directory.insert start block words) start block words where
  blocks := directory.get?_insert start block words
  code _ := isCode_insert
  linked _ _ := linked_insert

theorem insert_covers (member : word ∈ words) :
    (directory.insert physical block words).Covers physical word where
  code := isCode_insert.mpr (.inr ⟨word, member, rfl, rfl⟩)
  linked := by
    by_cases same : pageOf word = pageOf physical
    · exact .inl same
    · exact .inr (linked_insert.mpr (.inr ⟨rfl, same, word, member, rfl⟩))

theorem Covers.insert (covers : directory.Covers start word) (physical : Word)
    (block : CompiledBlock) (words : List Word) :
    (directory.insert physical block words).Covers start word where
  code := isCode_insert.mpr (.inl covers.code)
  linked := covers.linked.imp_right fun linked => linked_insert.mpr (.inl linked)

end Insert

/-! ## Dropping pages -/

section Drop

variable {pending : List Nat}

theorem getElem?_dropPage (directory : BlockDirectory) (number other : Nat) :
    (directory.dropPage number).2.pages[other]? =
      if number = other then none else directory.pages[other]? := by
  simp [dropPage, Std.TreeMap.getElem?_erase]

theorem linked_dropPage :
    (directory.dropPage number).2.Linked source home ↔
      directory.Linked source home ∧ source ≠ number ∧ home ≠ number := by
  simp only [Linked, dropPage, Std.TreeMap.getElem?_filterMap', Std.TreeMap.getElem?_erase,
    Nat.compare_eq_eq]
  by_cases same : number = source
  · subst same
    simp
  · rw [if_neg same]
    cases directory.dependents[source]? with
    | none => simp
    | some homes =>
        have kept : home ∈ homes.filter (· ≠ number) ↔ home ∈ homes ∧ home ≠ number := by
          simp
        rw [Option.bind_some, Option.getD_some]
        cases left : homes.filter (· ≠ number) with
        | nil =>
            rw [left] at kept
            simp only [List.isEmpty_nil, if_true, Option.getD_none]
            rw [kept]
            simp [Ne.symm same]
        | cons first rest =>
            rw [← left]
            simp only [left, List.isEmpty_cons, Bool.false_eq_true, if_false, Option.getD_some]
            rw [← left, kept]
            simp [Ne.symm same]

theorem Tidy.dropPage (tidy : directory.Tidy) (number : Nat) :
    (directory.dropPage number).2.Tidy where
  counted := by
    have counted := tidy.counted
    simp only [BlockDirectory.dropPage, Std.TreeMap.size_erase,
      ← Std.TreeMap.isSome_getElem?_eq_contains]
    cases directory.pages[number]? with
    | none => simp [counted]
    | some page => simp [counted]
  links := by
    intro source homes listed
    simp only [BlockDirectory.dropPage, Std.TreeMap.getElem?_filterMap', Option.bind_eq_some_iff,
      Option.ite_none_left_eq_some] at listed
    obtain ⟨others, -, some, same⟩ := listed
    injection same with same
    subst same
    intro empty
    rw [empty] at some
    exact some rfl

/-- A page is among some pages, or depends on one of them, directly or through others. -/
def Reaches (directory : BlockDirectory) (pending : List Nat) (number : Nat) : Prop :=
  ∃ start ∈ pending, Relation.ReflTransGen directory.Linked start number

theorem Reaches.linked (reaches : directory.Reaches pending source)
    (linked : directory.Linked source home) : directory.Reaches pending home := by
  obtain ⟨start, member, path⟩ := reaches
  exact ⟨start, member, path.tail linked⟩

/-- What depends on a page that is dropped first is reached from its links without it. -/
theorem reaches_dropPage {other : Nat} :
    directory.Reaches (number :: pending) other ↔ other = number ∨
      (directory.dropPage number).2.Reaches ((directory.dropPage number).1.reverse ++ pending)
        other := by
  have homes (home : Nat) : home ∈ (directory.dropPage number).1 ↔ directory.Linked number home :=
    Iff.rfl
  constructor
  · rintro ⟨start, member, path⟩
    -- a path goes through the dropped page, and then on from one of its links, or avoids it
    have avoid : other = number ∨ (start ≠ number ∧
          Relation.ReflTransGen (directory.dropPage number).2.Linked start other) ∨
        ∃ home, directory.Linked number home ∧
          Relation.ReflTransGen (directory.dropPage number).2.Linked home other := by
      clear member
      induction path using Relation.ReflTransGen.head_induction_on with
      | refl =>
          by_cases same : other = number
          · exact .inl same
          · exact .inr (.inl ⟨same, .refl⟩)
      | @head source home linked _ ih =>
          rcases ih with same | ⟨apart, path⟩ | through
          · exact .inl same
          · by_cases same : source = number
            · subst same
              exact .inr (.inr ⟨home, linked, path⟩)
            · exact .inr (.inl ⟨same, path.head (linked_dropPage.mpr ⟨linked, same, apart⟩)⟩)
          · exact .inr (.inr through)
    rcases avoid with same | ⟨apart, path⟩ | ⟨home, linked, path⟩
    · exact .inl same
    · have later : start ∈ pending := (List.mem_cons.mp member).resolve_left apart
      exact .inr ⟨start, List.mem_append_right _ later, path⟩
    · refine .inr ⟨home, List.mem_append_left _ (List.mem_reverse.mpr ?_), path⟩
      exact (homes home).mpr linked
  · rintro (rfl | ⟨start, member, path⟩)
    · exact ⟨other, List.mem_cons_self, .refl⟩
    · have path : Relation.ReflTransGen directory.Linked start other :=
        path.lift id fun _ _ linked => (linked_dropPage.mp linked).1
      rcases List.mem_append.mp member with home | later
      · have linked := (homes start).mp (List.mem_reverse.mp home)
        exact ⟨number, List.mem_cons_self, path.head linked⟩
      · exact ⟨start, List.mem_cons_of_mem _ later, path⟩

/-- Pages were dropped with all that depends on them, and the other pages are as before. -/
structure Dropped (before after : BlockDirectory) (pending : List Nat) : Prop where
  gone : ∀ number, before.Reaches pending number → after.pages[number]? = none
  kept : ∀ number, ¬ before.Reaches pending number → after.pages[number]? = before.pages[number]?
  linked : ∀ source home, after.Linked source home ↔
    before.Linked source home ∧ ¬ before.Reaches pending source ∧ ¬ before.Reaches pending home
  tidy : before.Tidy → after.Tidy

theorem dropPages_dropped (directory : BlockDirectory) (pending : List Nat) :
    Dropped directory (directory.dropPages pending) pending := by
  induction directory, pending using dropPages.induct with
  | case1 directory =>
      have none (number : Nat) : ¬ directory.Reaches [] number := by
        rintro ⟨_, member, -⟩
        cases member
      rw [dropPages]
      constructor
      · intro number reaches
        exact absurd reaches (none number)
      · intro number _
        rfl
      · intro source home
        simp [none]
      · exact id
  | case2 directory number pending rest =>
      rw [dropPages]
      constructor
      · intro other reaches
        rcases reaches_dropPage.mp reaches with rfl | later
        · by_cases later : (directory.dropPage other).2.Reaches
              ((directory.dropPage other).1.reverse ++ pending) other
          · exact rest.gone other later
          · rw [rest.kept other later, getElem?_dropPage, if_pos rfl]
        · exact rest.gone other later
      · intro other avoids
        rw [reaches_dropPage, not_or] at avoids
        rw [rest.kept other avoids.2, getElem?_dropPage, if_neg (Ne.symm avoids.1)]
      · intro source home
        rw [rest.linked, linked_dropPage, reaches_dropPage, reaches_dropPage, not_or, not_or]
        constructor
        · rintro ⟨⟨linked, apart, away⟩, left, stays⟩
          exact ⟨linked, ⟨apart, left⟩, away, stays⟩
        · rintro ⟨linked, ⟨apart, left⟩, away, stays⟩
          exact ⟨⟨linked, apart, away⟩, left, stays⟩
      · intro tidy
        exact rest.tidy (tidy.dropPage number)

end Drop

/-! ## Writes -/

section Invalidate

theorem resident_of_isCode (code : directory.isCode word = true) :
    (directory.pages[pageOf word]?).isSome = true := by
  rw [isCode, page?] at code
  cases resident : directory.pages[pageOf word]? with
  | none => simp [resident] at code
  | some page => rfl

theorem invalidate_of_not_code (plain : directory.isCode physical = false) :
    directory.invalidate physical = (false, directory) := by
  rw [invalidate, plain]
  rfl

theorem invalidate_of_code (code : directory.isCode physical = true) :
    directory.invalidate physical = (true, directory.dropPages [pageOf physical]) := by
  rw [invalidate, code]
  rfl

theorem Tidy.invalidate (tidy : directory.Tidy) (physical : Word) :
    (directory.invalidate physical).2.Tidy := by
  cases code : directory.isCode physical with
  | false =>
      rw [invalidate_of_not_code code]
      exact tidy
  | true =>
      rw [invalidate_of_code code]
      exact (dropPages_dropped directory _).tidy tidy

private theorem invalidate_dropped (directory : BlockDirectory) (physical : Word) :
    Dropped directory (directory.invalidate physical).2
      (if directory.isCode physical then [pageOf physical] else []) := by
  cases code : directory.isCode physical with
  | false =>
      have nothing := dropPages_dropped directory []
      rw [dropPages] at nothing
      rw [invalidate_of_not_code code]
      exact nothing
  | true =>
      rw [invalidate_of_code code]
      exact dropPages_dropped directory _

private theorem not_reaches_of_get? {pending : List Nat} {after : BlockDirectory}
    (dropped : Dropped directory after pending) (found : after.get? start = some block) :
    ¬ directory.Reaches pending (pageOf start) := by
  intro reaches
  rw [get?, page?, dropped.gone _ reaches] at found
  cases found

theorem get?_of_invalidate (found : (directory.invalidate physical).2.get? start = some block) :
    directory.get? start = some block := by
  have dropped := invalidate_dropped directory physical
  have stays := not_reaches_of_get? dropped found
  rw [get?, page?, dropped.kept _ stays] at found
  exact found

/-- What a block took words from is not dropped while the block is there. -/
private theorem Covers.not_reaches (covers : directory.Covers start word) {pending : List Nat}
    (stays : ¬ directory.Reaches pending (pageOf start)) :
    ¬ directory.Reaches pending (pageOf word) := by
  intro reaches
  rcases covers.linked with same | linked
  · exact stays (same ▸ reaches)
  · exact stays (reaches.linked linked)

/-- The words of a block stay covered while it is there. -/
theorem Covers.invalidate (covers : directory.Covers start word)
    (found : (directory.invalidate physical).2.get? start = some block) :
    (directory.invalidate physical).2.Covers start word := by
  have dropped := invalidate_dropped directory physical
  have stays := not_reaches_of_get? dropped found
  have left := covers.not_reaches stays
  constructor
  · rw [isCode, page?, dropped.kept _ left]
    exact covers.code
  · rcases covers.linked with same | linked
    · exact .inl same
    · exact .inr ((dropped.linked _ _).mpr ⟨linked, left, stays⟩)

/-- A write to code drops every block with a word on its page. -/
theorem Covers.dropped (covers : directory.Covers start word)
    (code : directory.isCode physical = true) (page : pageOf word = pageOf physical) :
    (directory.invalidate physical).2.get? start = none := by
  cases found : (directory.invalidate physical).2.get? start with
  | none => rfl
  | some block =>
      have dropped := invalidate_dropped directory physical
      have left := covers.not_reaches (not_reaches_of_get? dropped found)
      rw [code, if_pos rfl, page] at left
      exact absurd ⟨pageOf physical, List.mem_singleton.mpr rfl, .refl⟩ left

end Invalidate

end MipsRecompiler.BlockDirectory
