/-!
# Byte stores

Bytes at natural number addresses, all zero at first. Storage is taken only where something was
written, so a large store is cheap to make and to compare. `get_set` describes a store by the
bytes it shows.
-/

set_option autoImplicit false

namespace MipsRecompiler

/-- Bytes at every address, kept in pages that grow when they are written. -/
structure ByteStore where
  /-- A missing page, and what lies behind the end of a page, is zero. -/
  pages : Array (Array UInt8)
  deriving Repr

namespace ByteStore

def pageSize : Nat := 4096

/-- The store that is zero everywhere. -/
def empty : ByteStore := ⟨#[]⟩

instance : Inhabited ByteStore := ⟨empty⟩

def page (store : ByteStore) (number : Nat) : Array UInt8 :=
  store.pages.getD number #[]

def get (store : ByteStore) (address : Nat) : UInt8 :=
  (store.page (address / pageSize)).getD (address % pageSize) 0

/-- An array of at least this size. -/
def padTo {α : Type} (values : Array α) (size : Nat) (fill : α) : Array α :=
  values ++ Array.replicate (size - values.size) fill

def setInPage (bytes : Array UInt8) (offset : Nat) (value : UInt8) : Array UInt8 :=
  (padTo bytes (offset + 1) 0).setIfInBounds offset value

def set (store : ByteStore) (address : Nat) (value : UInt8) : ByteStore :=
  let number := address / pageSize
  ⟨(padTo store.pages (number + 1) #[]).modify number fun bytes =>
    setInPage bytes (address % pageSize) value⟩

private theorem padTo_size {α : Type} (values : Array α) (size : Nat) (fill : α) :
    size ≤ (padTo values size fill).size := by
  simp only [padTo, Array.size_append, Array.size_replicate]
  omega

private theorem padTo_getD {α : Type} (values : Array α) (size index : Nat) (fill : α) :
    (padTo values size fill).getD index fill = values.getD index fill := by
  simp only [padTo, Array.getD_eq_getD_getElem?, Array.getElem?_append, Array.getElem?_replicate]
  by_cases inside : index < values.size
  · simp [inside]
  · by_cases padded : index - values.size < size - values.size <;> simp [inside, padded]

private theorem setInPage_getD (bytes : Array UInt8) (offset index : Nat) (value : UInt8) :
    (setInPage bytes offset value).getD index 0 =
      if offset = index then value else bytes.getD index 0 := by
  have fits : offset < (padTo bytes (offset + 1) 0).size := padTo_size bytes (offset + 1) 0
  by_cases same : offset = index
  · subst same
    simp [setInPage, Array.getD_eq_getD_getElem?, fits]
  · rw [if_neg same, ← padTo_getD bytes (offset + 1) index 0]
    simp [setInPage, Array.getD_eq_getD_getElem?, same]

private theorem page_set (store : ByteStore) (address number : Nat) (value : UInt8) :
    (store.set address value).page number =
      if address / pageSize = number then
        setInPage (store.page number) (address % pageSize) value
      else store.page number := by
  have fits : address / pageSize < (padTo store.pages (address / pageSize + 1) #[]).size :=
    padTo_size store.pages (address / pageSize + 1) #[]
  by_cases same : address / pageSize = number
  · subst same
    have shown := padTo_getD store.pages (address / pageSize + 1) (address / pageSize) #[]
    simp only [Array.getD_eq_getD_getElem?, Array.getElem?_eq_getElem fits,
      Option.getD_some] at shown
    simp only [set, page, Array.getD_eq_getD_getElem?, Array.getElem?_modify,
      Array.getElem?_eq_getElem fits, if_true, Option.map_some, Option.getD_some, shown]
  · rw [if_neg same, page, page, ← padTo_getD store.pages (address / pageSize + 1) number #[]]
    simp [set, Array.getD_eq_getD_getElem?, Array.getElem?_modify, same]

/-- A write shows at its own address and nowhere else. -/
theorem get_set (store : ByteStore) (target address : Nat) (value : UInt8) :
    (store.set target value).get address =
      if target = address then value else store.get address := by
  simp only [get, page_set]
  by_cases samePage : target / pageSize = address / pageSize
  · rw [if_pos samePage, setInPage_getD]
    have split : (target % pageSize = address % pageSize) ↔ target = address := by
      simp only [pageSize] at *
      omega
    simp only [split]
  · have differs : target ≠ address := fun equal => samePage (by rw [equal])
    rw [if_neg samePage, if_neg differs]

def getBytes (store : ByteStore) (start count : Nat) : List UInt8 :=
  (List.range count).map fun offset => store.get (start + offset)

def setBytes (store : ByteStore) (start : Nat) : List UInt8 → ByteStore
  | [] => store
  | byte :: bytes => (store.set start byte).setBytes (start + 1) bytes

/-- The addresses at which two stores differ, ascending. -/
def differences (before after : ByteStore) : List Nat :=
  (List.range (max before.pages.size after.pages.size)).flatMap fun number =>
    let old := before.page number
    let new := after.page number
    if old == new then []
    else (List.range (max old.size new.size)).filterMap fun offset =>
      if old.getD offset 0 == new.getD offset 0 then none
      else some (number * pageSize + offset)

end ByteStore

end MipsRecompiler
