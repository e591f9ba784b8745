import MipsRecompiler.Proofs.Engine.Directory

/-!
# Whole histories of a directory

A history keeps what the directory itself forgets: which words each page was given, and what was
entered last at each place. After any number of changes the marks and the links of the directory
say the same about pages as their history, so a write drops what it has to, and no more.
-/

set_option autoImplicit false

namespace MipsRecompiler.BlockDirectory

inductive Change where
  | insert (physical : Word) (block : CompiledBlock) (words : List Word)
  | invalidate (physical : Word)
  | clear

structure History where
  directory : BlockDirectory
  /-- The words that blocks of a page were compiled from, since the page was last dropped. -/
  given : Nat → Word → Prop
  /-- The block that was last entered at a place, and its words. -/
  entered : Nat → Fin 1024 → Option (CompiledBlock × List Word)

namespace History

variable {history : History} {physical start word : Word} {block : CompiledBlock}
  {source home number : Nat}

/-- Some block of page `home` was given a word that lies on page `source`. -/
def Pulls (history : History) (source home : Nat) : Prop :=
  ∃ word, history.given home word ∧ pageOf word = source

/-- A write to code on page `source` concerns a page: it is that page, or some block on it was
given a word on a page that the write concerns. -/
def Concerns (history : History) : Nat → Nat → Prop :=
  Relation.ReflTransGen history.Pulls

def begin : History :=
  { directory := .empty, given := fun _ _ => False, entered := fun _ _ => none }

def extend (history : History) : Change → History
  | .insert physical block words =>
    { directory := history.directory.insert physical block words
      given := fun home word => history.given home word ∨ (home = pageOf physical ∧ word ∈ words)
      entered := fun page place =>
        if page = pageOf physical ∧ place = wordOf physical then some (block, words)
        else history.entered page place }
  | .invalidate physical =>
    { history with
      directory := (history.directory.invalidate physical).2
      given := fun home word => history.given home word ∧
        (history.directory.isCode physical = true → ¬ history.Concerns (pageOf physical) home) }
  | .clear => { history with directory := .empty, given := fun _ _ => False }

def ofChanges (changes : List Change) : History :=
  changes.foldl extend begin

/-! ## What the directory remembers -/

/-- The directory remembers what matters of its history. -/
structure Faithful (history : History) : Prop where
  linked : ∀ source home,
    history.directory.Linked source home ↔ source ≠ home ∧ history.Pulls source home
  marked : ∀ home word, history.given home word → history.directory.isCode word = true
  resident : ∀ home word, history.given home word →
    (history.directory.pages[home]?).isSome = true
  entered : ∀ start block, history.directory.get? start = some block → ∃ words,
    history.entered (pageOf start) (wordOf start) = some (block, words) ∧
      ∀ word ∈ words, history.given (pageOf start) word
  tidy : history.directory.Tidy

private theorem faithful_empty (given : Nat → Word → Prop) (none : ∀ home word, ¬ given home word)
    (entered : Nat → Fin 1024 → Option (CompiledBlock × List Word)) :
    Faithful { directory := .empty, given, entered } where
  linked := by simp [Linked, BlockDirectory.empty, Pulls, none]
  marked := by simp [none]
  resident := by simp [none]
  entered := by simp [get?, page?, BlockDirectory.empty]
  tidy := empty_tidy

theorem Faithful.reaches (faithful : history.Faithful) :
    history.directory.Reaches [source] home ↔ history.Concerns source home := by
  constructor
  · rintro ⟨start, member, path⟩
    rw [List.mem_singleton.mp member] at path
    exact path.lift id fun _ _ linked => ((faithful.linked _ _).mp linked).2
  · intro concerns
    induction concerns with
    | refl => exact ⟨source, List.mem_singleton.mpr rfl, .refl⟩
    | @tail between home _ pulls ih =>
        by_cases same : between = home
        · exact same ▸ ih
        · exact ih.linked ((faithful.linked between home).mpr ⟨same, pulls⟩)

theorem Faithful.insert (faithful : history.Faithful) (physical : Word) (block : CompiledBlock)
    (words : List Word) : (history.extend (.insert physical block words)).Faithful where
  linked := by
    intro source home
    have before := faithful.linked source home
    rw [extend, linked_insert, before]
    constructor
    · rintro (⟨differs, word, given, page⟩ | ⟨same, differs, word, member, page⟩)
      · exact ⟨differs, word, .inl given, page⟩
      · exact ⟨differs, word, .inr ⟨same, member⟩, page⟩
    · rintro ⟨differs, word, given | ⟨same, member⟩, page⟩
      · exact .inl ⟨differs, word, given, page⟩
      · exact .inr ⟨same, differs, word, member, page⟩
  marked := by
    rintro home word (given | ⟨-, member⟩)
    · exact isCode_insert.mpr (.inl (faithful.marked home word given))
    · exact isCode_insert.mpr (.inr ⟨word, member, rfl, rfl⟩)
  resident := by
    rintro home word (given | ⟨rfl, -⟩)
    · exact insert_resident _ _ _ (.inr (faithful.resident home word given))
    · exact insert_resident _ _ _ (.inl rfl)
  entered := by
    intro start found resides
    simp only [extend, get?_insert] at resides ⊢
    by_cases here : pageOf physical = pageOf start ∧ wordOf physical = wordOf start
    · obtain ⟨page, place⟩ := here
      rw [if_pos ⟨page, place⟩] at resides
      rw [if_pos ⟨page.symm, place.symm⟩]
      cases resides
      exact ⟨words, rfl, fun word member => .inr ⟨page.symm, member⟩⟩
    · rw [if_neg here] at resides
      rw [if_neg fun there => here ⟨there.1.symm, there.2.symm⟩]
      obtain ⟨others, last, given⟩ := faithful.entered start found resides
      exact ⟨others, last, fun word member => .inl (given word member)⟩
  tidy := faithful.tidy.insert physical block words

theorem Faithful.invalidate (faithful : history.Faithful) (physical : Word) :
    (history.extend (.invalidate physical)).Faithful := by
  cases code : history.directory.isCode physical with
  | false =>
      have same : history.extend (.invalidate physical) = history := by
        simp [extend, invalidate_of_not_code code, code]
      rw [same]
      exact faithful
  | true =>
      have dropped := dropPages_dropped history.directory [pageOf physical]
      -- what a concerned page pulled from is concerned as well, so marks and links stay together
      have apart (home : Nat) (word : Word) (given : history.given home word)
          (stays : ¬ history.Concerns (pageOf physical) home) :
          ¬ history.Concerns (pageOf physical) (pageOf word) := by
        intro concerns
        exact stays (concerns.tail ⟨word, given, rfl⟩)
      have kept (number : Nat) (stays : ¬ history.Concerns (pageOf physical) number) :
          (history.directory.dropPages [pageOf physical]).pages[number]? =
            history.directory.pages[number]? :=
        dropped.kept number fun reaches => stays (faithful.reaches.mp reaches)
      constructor
      · intro source home
        simp only [extend, Pulls, invalidate_of_code code, code, forall_const]
        rw [dropped.linked, faithful.linked, faithful.reaches, faithful.reaches]
        constructor
        · rintro ⟨⟨differs, word, given, page⟩, -, stays⟩
          exact ⟨differs, word, ⟨given, stays⟩, page⟩
        · rintro ⟨differs, word, ⟨given, stays⟩, rfl⟩
          exact ⟨⟨differs, word, given, rfl⟩, apart home word given stays, stays⟩
      · rintro home word ⟨given, stays⟩
        have marked := faithful.marked home word given
        simp only [extend, invalidate_of_code code]
        rw [isCode, page?, kept _ (apart home word given (stays code))]
        exact marked
      · rintro home word ⟨given, stays⟩
        simp only [extend, invalidate_of_code code]
        rw [kept home (stays code)]
        exact faithful.resident home word given
      · intro start block found
        have before := get?_of_invalidate found
        obtain ⟨words, last, given⟩ := faithful.entered start block before
        refine ⟨words, last, fun word member => ⟨given word member, fun _ concerns => ?_⟩⟩
        simp only [extend, invalidate_of_code code] at found
        rw [get?, page?, dropped.gone _ (faithful.reaches.mpr concerns)] at found
        cases found
      · exact faithful.tidy.invalidate physical

theorem Faithful.extend (faithful : history.Faithful) (change : Change) :
    (history.extend change).Faithful := by
  cases change with
  | insert physical block words => exact faithful.insert physical block words
  | invalidate physical => exact faithful.invalidate physical
  | clear => exact faithful_empty _ (fun _ _ => id) _

theorem ofChanges_faithful (changes : List Change) : (ofChanges changes).Faithful := by
  have run (history : History) (faithful : history.Faithful) :
      (changes.foldl extend history).Faithful := by
    induction changes generalizing history with
    | nil => exact faithful
    | cons change rest ih => exact ih _ (faithful.extend change)
  exact run begin (faithful_empty _ (fun _ _ => id) _)

/-! ## What a write drops -/

/-- A write to code drops exactly the pages that it concerns. -/
theorem Faithful.drops (faithful : history.Faithful)
    (code : history.directory.isCode physical = true) :
    (history.directory.invalidate physical).1 = true ∧ ∀ number : Nat,
      (history.Concerns (pageOf physical) number →
        (history.directory.pages[number]?).isSome = true ∧
        (history.directory.invalidate physical).2.pages[number]? = none) ∧
      (¬ history.Concerns (pageOf physical) number →
        (history.directory.invalidate physical).2.pages[number]? =
          history.directory.pages[number]?) := by
  have dropped := dropPages_dropped history.directory [pageOf physical]
  rw [invalidate_of_code code]
  refine ⟨rfl, fun number => ⟨fun concerns => ⟨?_, ?_⟩, fun stays => ?_⟩⟩
  · cases concerns with
    | refl => exact resident_of_isCode code
    | tail _ pulls =>
        obtain ⟨word, given, -⟩ := pulls
        exact faithful.resident number word given
  · exact dropped.gone number (faithful.reaches.mpr concerns)
  · exact dropped.kept number fun reaches => stays (faithful.reaches.mp reaches)

/-- A write to a word that a resident block was compiled from drops the block. -/
theorem Faithful.forgets (faithful : history.Faithful)
    (given : history.given (pageOf start) word) :
    (history.directory.invalidate word).2.get? start = none := by
  obtain ⟨-, drops⟩ := faithful.drops (faithful.marked _ _ given)
  have concerns : history.Concerns (pageOf word) (pageOf start) := .single ⟨word, given, rfl⟩
  rw [get?, page?, ((drops _).1 concerns).2]

/-- After any changes, a block that is entered is found, its words are marked, and the pages of
its words are linked. The words of each block that is found are marked, and a write to one of
them drops the block. A write to another word changes nothing. A write to a marked word drops the
pages that it concerns, and leaves the others as they are. Resident pages are counted rightly, and
only resident pages are linked. -/
theorem invalidate_exact (changes : List Change) :
    (∀ start block words, Enters (ofChanges changes).directory
      (ofChanges (changes ++ [.insert start block words])).directory start block words) ∧
    (∀ start block, (ofChanges changes).directory.get? start = some block → ∃ words,
      (ofChanges changes).entered (pageOf start) (wordOf start) = some (block, words) ∧
      ∀ word ∈ words, (ofChanges changes).directory.isCode word = true ∧
        ((ofChanges changes).directory.invalidate word).2.get? start = none) ∧
    (∀ physical, (ofChanges changes).directory.isCode physical = false →
      (ofChanges changes).directory.invalidate physical =
        (false, (ofChanges changes).directory)) ∧
    (∀ physical, (ofChanges changes).directory.isCode physical = true →
      ((ofChanges changes).directory.invalidate physical).1 = true ∧ ∀ number : Nat,
        ((ofChanges changes).Concerns (pageOf physical) number →
          ((ofChanges changes).directory.pages[number]?).isSome = true ∧
          ((ofChanges changes).directory.invalidate physical).2.pages[number]? = none) ∧
        (¬ (ofChanges changes).Concerns (pageOf physical) number →
          ((ofChanges changes).directory.invalidate physical).2.pages[number]? =
            (ofChanges changes).directory.pages[number]?)) ∧
    (ofChanges changes).directory.residentPages = (ofChanges changes).directory.pages.size ∧
    ∀ (source : Nat) (homes : List Nat),
      (ofChanges changes).directory.dependents[source]? = some homes →
      ((ofChanges changes).directory.pages[source]?).isSome = true ∧
      ∀ home ∈ homes, ((ofChanges changes).directory.pages[home]?).isSome = true := by
  have faithful := ofChanges_faithful changes
  simp only [ofChanges, List.foldl_append] at faithful ⊢
  generalize changes.foldl extend begin = history at faithful
  refine ⟨fun start block words => insert_enters _ _ _ _, fun start block found => ?_,
    fun physical plain => invalidate_of_not_code plain, fun physical code => faithful.drops code,
    faithful.tidy.counted, fun source homes listed => ?_⟩
  · obtain ⟨words, last, given⟩ := faithful.entered start block found
    exact ⟨words, last, fun word member =>
      ⟨faithful.marked _ _ (given word member), faithful.forgets (given word member)⟩⟩
  · have pulls (home : Nat) (member : home ∈ homes) : history.Pulls source home := by
      have linked : history.directory.Linked source home := by
        rw [Linked, listed]
        exact member
      exact ((faithful.linked source home).mp linked).2
    constructor
    · have some := faithful.tidy.links source homes listed
      obtain ⟨home, member⟩ := List.exists_mem_of_ne_nil homes some
      obtain ⟨word, given, rfl⟩ := pulls home member
      exact resident_of_isCode (faithful.marked home word given)
    · intro home member
      obtain ⟨word, given, -⟩ := pulls home member
      exact faithful.resident home word given

/-- A block on the first page, with its delay slot on the next one. -/
def pulledBlock : CompiledBlock :=
  { code := default, startPc := 0xffffffff80000ffc, length := 2
    configuration := default, idleLoop := false }

/-- A write to the delay slot drops the block, and both pages with it. -/
theorem pulledBlock_invalidated :
    let directory := (ofChanges [.insert 0xffc pulledBlock [0xffc, 0x1000]]).directory
    directory.get? 0xffc = some pulledBlock ∧ directory.isCode 0x1000 = true ∧
      directory.Linked 1 0 ∧ directory.residentPages = 2 ∧
      (directory.invalidate 0x1000).1 = true ∧
      (directory.invalidate 0x1000).2.get? 0xffc = none ∧
      (directory.invalidate 0x1000).2.pages[0]? = none ∧
      (directory.invalidate 0x1000).2.pages[1]? = none := by
  intro directory
  have entered := (invalidate_exact []).1 0xffc pulledBlock [0xffc, 0x1000]
  obtain ⟨-, found, -, written, -, -⟩ :=
    invalidate_exact [.insert 0xffc pulledBlock [0xffc, 0x1000]]
  have code : directory.isCode 0x1000 = true :=
    (entered.code 0x1000).mpr (.inr ⟨0x1000, by simp, rfl, rfl⟩)
  have linked : directory.Linked 1 0 :=
    (entered.linked 1 0).mpr (.inr ⟨by decide, by decide, 0x1000, by simp, by decide⟩)
  have resides : directory.get? 0xffc = some pulledBlock :=
    (entered.blocks 0xffc).trans (if_pos ⟨rfl, rfl⟩)
  obtain ⟨words, last, marked⟩ := found 0xffc pulledBlock resides
  obtain ⟨drops, pages⟩ := written 0x1000 code
  have pulls : (ofChanges [.insert 0xffc pulledBlock [0xffc, 0x1000]]).Concerns (pageOf 0x1000) 0 :=
    .single ⟨0x1000, .inr ⟨by decide, by simp⟩, rfl⟩
  cases last
  exact ⟨resides, code, linked, rfl, drops, (marked 0x1000 (by simp)).2, ((pages 0).1 pulls).2,
    ((pages 1).1 .refl).2⟩

end History

end MipsRecompiler.BlockDirectory
