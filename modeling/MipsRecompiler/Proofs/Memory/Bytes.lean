import MipsRecompiler.Memory.ByteStore

/-!
# Ranges of bytes

Writing a range of bytes shows there, and nowhere else.
-/

set_option autoImplicit false

namespace MipsRecompiler.ByteStore

variable {store : ByteStore} {start : Nat} {bytes : List UInt8}

theorem get_setBytes (store : ByteStore) (start : Nat) (bytes : List UInt8) (address : Nat) :
    (store.setBytes start bytes).get address =
      if start ≤ address ∧ address < start + bytes.length then bytes.getD (address - start) 0
      else store.get address := by
  induction bytes generalizing store start with
  | nil =>
      rw [setBytes, if_neg]
      simp only [List.length_nil]
      omega
  | cons byte bytes ih =>
      rw [setBytes, ih, get_set, List.length_cons]
      by_cases first : start = address
      · subst first
        rw [if_neg (by omega), if_pos rfl, if_pos (by omega), Nat.sub_self]
        rfl
      · rw [if_neg first]
        by_cases inside : start + 1 ≤ address ∧ address < start + 1 + bytes.length
        · obtain ⟨offset, behind⟩ := Nat.exists_eq_add_of_le inside.1
          rw [if_pos inside, if_pos (by omega), show address - start = offset + 1 by omega,
            show address - (start + 1) = offset by omega]
          rfl
        · rw [if_neg inside, if_neg (by omega)]

theorem getBytes_setBytes_self (store : ByteStore) (start : Nat) (bytes : List UInt8) :
    (store.setBytes start bytes).getBytes start bytes.length = bytes := by
  apply List.ext_getElem
  · simp [getBytes]
  · intro index left right
    simp only [getBytes, List.getElem_map, List.getElem_range, get_setBytes]
    rw [if_pos (by omega), Nat.add_sub_cancel_left]
    simp [List.getD_eq_getElem?_getD, right]

theorem getBytes_setBytes_of_apart {first count : Nat}
    (apart : first + count ≤ start ∨ start + bytes.length ≤ first) :
    (store.setBytes start bytes).getBytes first count = store.getBytes first count := by
  refine List.map_congr_left fun offset member => ?_
  have inside := List.mem_range.mp member
  rw [get_setBytes, if_neg (by omega)]

end MipsRecompiler.ByteStore
