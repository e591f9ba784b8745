import Mathlib.Data.List.Perm.Basic
import MipsRecompiler.Proofs.Ir.Linking

/-!
# Walking along links

A cursor that follows links takes the same values as a walk that is given the whole list, whichever
ends are asked, and neither skips a value nor gives one twice.
-/

set_option autoImplicit false

namespace MipsRecompiler.Ir

/-! ## Walks over a list -/

namespace Walk

variable {id : ValueId} {rest : List ValueId}

theorem take_front (id : ValueId) (rest : List ValueId) :
    Walk.take .front ⟨id :: rest⟩ = some (id, ⟨rest⟩) := rfl

theorem take_back (rest : List ValueId) (id : ValueId) :
    Walk.take .back ⟨rest ++ [id]⟩ = some (id, ⟨rest⟩) := by
  simp [Walk.take, Walk.nextBack?]

theorem answers_nil (sides : List End) :
    End.answers Walk.take sides ⟨[]⟩ = List.replicate sides.length none := by
  induction sides with
  | nil => rfl
  | cons side sides ih =>
      have nothing : Walk.take side ⟨[]⟩ = none := by cases side <;> rfl
      rw [End.answers, nothing]
      exact congrArg (none :: ·) ih

theorem answers_front (rounds : Nat) (rest : List ValueId) :
    End.answers Walk.take (List.replicate rounds .front) ⟨rest⟩ =
      (rest.map some).take rounds ++ List.replicate (rounds - rest.length) none := by
  induction rounds generalizing rest with
  | zero => simp [End.answers]
  | succ rounds ih =>
      cases rest with
      | nil => rw [answers_nil]; simp
      | cons id rest =>
          rw [List.replicate_succ, End.answers, take_front]
          dsimp only
          rw [ih]
          simp

theorem answers_back (rounds : Nat) (rest : List ValueId) :
    End.answers Walk.take (List.replicate rounds .back) ⟨rest⟩ =
      (rest.reverse.map some).take rounds ++ List.replicate (rounds - rest.length) none := by
  induction rounds generalizing rest with
  | zero => simp [End.answers]
  | succ rounds ih =>
      rcases List.eq_nil_or_concat' rest with rfl | ⟨early, id, rfl⟩
      · rw [answers_nil]
        simp
      · rw [List.replicate_succ, End.answers, take_back]
        dsimp only
        rw [ih]
        simp

theorem take_perm (side : End) (some : rest ≠ []) :
    ∃ id left, Walk.take side ⟨rest⟩ = .some (id, ⟨left⟩) ∧ (id :: left).Perm rest := by
  cases side with
  | front =>
      obtain ⟨id, left, rfl⟩ := List.exists_cons_of_ne_nil some
      exact ⟨id, left, take_front id left, List.Perm.refl _⟩
  | back =>
      rcases List.eq_nil_or_concat' rest with rfl | ⟨left, id, rfl⟩
      · exact absurd rfl some
      · exact ⟨id, left, take_back left id, (List.perm_append_singleton id left).symm⟩

/-- Whichever ends are asked, a walk gives values as long as there are some, each of them once. -/
theorem answers_perm (sides : List End) (rest : List ValueId) :
    ∃ taken left : List ValueId,
      End.answers Walk.take sides ⟨rest⟩ =
        taken.map some ++ List.replicate (sides.length - rest.length) none ∧
      (taken ++ left).Perm rest ∧ (rest.length ≤ sides.length → left = []) := by
  induction sides generalizing rest with
  | nil =>
      refine ⟨[], rest, by simp [End.answers], List.Perm.refl _, fun short => ?_⟩
      exact List.eq_nil_of_length_eq_zero (Nat.le_zero.mp short)
  | cons side sides ih =>
      by_cases none : rest = []
      · rw [none, answers_nil]
        exact ⟨[], [], by simp, List.Perm.refl _, fun _ => rfl⟩
      · obtain ⟨id, others, takes, perm⟩ := take_perm side none
        obtain ⟨taken, left, answers, whole, all⟩ := ih others
        have longer : rest.length = others.length + 1 := perm.length_eq.symm
        refine ⟨id :: taken, left, ?_, (whole.cons id).trans perm, fun enough => all ?_⟩
        · rw [End.answers, takes]
          dsimp only
          rw [answers, longer]
          simp
        · rw [longer] at enough
          exact Nat.le_of_succ_le_succ enough

end Walk

/-! ## Cursors -/

namespace Cursor

variable {arena : Arena} {cursor : Cursor} {rest : List ValueId}

/-- A cursor between whose ends a part of the list is left. -/
def Spans (arena : Arena) (cursor : Cursor) (rest : List ValueId) : Prop :=
  ∃ before behind, arena.Chain (before ++ rest ++ behind) ∧
    cursor = ⟨rest.head?, rest.getLast?⟩

theorem Spans.front {id : ValueId} (spans : Spans arena cursor (id :: rest)) :
    ∃ next, cursor.next? arena = some (id, next) ∧ Spans arena next rest := by
  obtain ⟨before, behind, chain, rfl⟩ := spans
  rw [List.append_assoc, List.cons_append] at chain
  obtain ⟨-, next⟩ := chain.neighbours
  have split : before ++ id :: (rest ++ behind) = before ++ [id] ++ rest ++ behind := by simp
  have chained := split ▸ chain
  cases rest with
  | nil =>
      refine ⟨⟨none, none⟩, ?_, before ++ [id], behind, chained, rfl⟩
      rw [next?]
      exact if_pos rfl
  | cons second rest =>
      obtain ⟨absent, -⟩ := List.nodup_cons.mp (List.nodup_append.mp chain.distinct).2.1
      -- The ends have not met, since no number is listed twice.
      have apart : (id :: second :: rest).getLast? ≠ some id := by
        rw [List.getLast?_cons_cons]
        exact fun last => absent (List.mem_append_left _ (List.mem_of_getLast? last))
      refine ⟨⟨some second, (second :: rest).getLast?⟩, ?_, before ++ [id], behind, chained, rfl⟩
      rw [next?]
      refine (if_neg apart).trans ?_
      rw [next]
      rfl

theorem Spans.back {id : ValueId} (spans : Spans arena cursor (rest ++ [id])) :
    ∃ next, cursor.nextBack? arena = some (id, next) ∧ Spans arena next rest := by
  obtain ⟨before, behind, chain, rfl⟩ := spans
  have split : before ++ (rest ++ [id]) ++ behind = before ++ rest ++ id :: behind := by simp
  rw [split] at chain
  obtain ⟨previous, -⟩ := chain.neighbours
  rw [List.getLast?_concat]
  cases rest with
  | nil =>
      refine ⟨⟨none, none⟩, ?_, before, id :: behind, chain, rfl⟩
      rw [nextBack?]
      exact if_pos rfl
  | cons first rest =>
      obtain ⟨-, -, cross⟩ := List.nodup_append.mp chain.distinct
      have apart : (first :: rest ++ [id]).head? ≠ some id := by
        have differs := cross first (by simp) id List.mem_cons_self
        exact fun same => differs (Option.some.inj same)
      refine ⟨⟨some first, (first :: rest).getLast?⟩, ?_, before, id :: behind, chain, rfl⟩
      rw [nextBack?]
      refine (if_neg apart).trans ?_
      rw [previous, List.getLast?_append, List.getLast?_cons]
      rfl

theorem Spans.nil (spans : Spans arena cursor []) (side : End) :
    Cursor.take arena side cursor = none := by
  obtain ⟨before, behind, -, rfl⟩ := spans
  cases side <;> rfl

theorem Spans.step {id : ValueId} {left : List ValueId} (spans : Spans arena cursor rest)
    (side : End) (takes : Walk.take side ⟨rest⟩ = some (id, ⟨left⟩)) :
    ∃ next, Cursor.take arena side cursor = some (id, next) ∧ Spans arena next left := by
  cases side with
  | front =>
      cases rest with
      | nil => cases takes
      | cons first others =>
          cases takes
          exact spans.front
  | back =>
      rcases List.eq_nil_or_concat' rest with rfl | ⟨early, last, rfl⟩
      · cases takes
      · rw [Walk.take_back] at takes
        cases takes
        exact spans.back

/-- Following links is walking over the list. -/
theorem Spans.answers (spans : Spans arena cursor rest) (sides : List End) :
    End.answers (Cursor.take arena) sides cursor = End.answers Walk.take sides ⟨rest⟩ := by
  induction sides generalizing cursor rest with
  | nil => rfl
  | cons side sides ih =>
      by_cases none : rest = []
      · subst none
        rw [Walk.answers_nil, End.answers, spans.nil side]
        dsimp only
        rw [ih spans, Walk.answers_nil]
        rfl
      · obtain ⟨id, left, takes, -⟩ := Walk.take_perm side none
        obtain ⟨next, follows, onward⟩ := spans.step side takes
        rw [End.answers, End.answers, takes, follows]
        dsimp only
        rw [ih onward]

end Cursor

namespace Arena

theorem Chain.answers {arena : Arena} {segment : List ValueId} (chain : arena.Chain segment)
    (sides : List End) : arena.answers sides = End.answers Walk.take sides ⟨segment⟩ := by
  have spans : Cursor.Spans arena arena.cursor segment := by
    refine ⟨[], [], by rwa [List.append_nil], ?_⟩
    rw [cursor, chain.first, chain.last]
  exact spans.answers sides

end Arena

end MipsRecompiler.Ir
