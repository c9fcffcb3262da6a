import Mathlib.Algebra.BigOperators.Group.List.Basic
import Mathlib.Tactic.Abel

/-!
# Rows of a table

The parties of a system (requests, servers, handlers) are the rows of a list, and a step changes one
row. A quantity of the whole system is the sum of a quantity over the rows; it changes by what the
row changes. A second list may have one entry for each row.
-/

set_option autoImplicit false

namespace Ava.Lib

theorem sum_map_modify {α M : Type} [AddCommMonoid M] (F : α → M) (f : α → α) (l : List α)
    (i : Nat) (x : α) (h : l[i]? = some x) :
    ((l.modify i f).map F).sum + F x = (l.map F).sum + F (f x) := by
  induction l generalizing i with
  | nil => simp at h
  | cons a l ih =>
    cases i with
    | zero =>
      cases h
      simp only [List.modify_zero_cons, List.map_cons, List.sum_cons]
      abel
    | succ i =>
      simp only [List.modify_succ_cons, List.map_cons, List.sum_cons, add_assoc, ih i h]

theorem sum_map_set {α M : Type} [AddCommMonoid M] (F : α → M) {l : List α} {i : Nat} {x : α}
    (h : l[i]? = some x) (y : α) :
    ((l.set i y).map F).sum + F x = (l.map F).sum + F y := by
  rw [List.set_eq_modify]
  exact sum_map_modify F (fun _ => y) l i x h

/-- What the change of a row keeps is the same in the whole list. -/
theorem map_modify_of_keeps {α β : Type} {F : α → β} {f : α → α} (h : ∀ x, F (f x) = F x)
    (l : List α) (i : Nat) : (l.modify i f).map F = l.map F := by
  refine List.ext_getElem? fun j => ?_
  rw [List.getElem?_map, List.getElem?_map, List.getElem?_modify]
  cases l[j]? with
  | none => rfl
  | some x =>
    rw [Option.map_eq_map, Option.map_some, Option.map_some, Option.map_some]
    split_ifs
    · rw [h]
    · rfl

theorem zip_modify_left {α β : Type} (f : α → α) (l : List α) (m : List β) (i : Nat) :
    (l.modify i f).zip m = (l.zip m).modify i fun x => (f x.1, x.2) := by
  induction l generalizing m i with
  | nil => simp
  | cons a l ih =>
    cases m with
    | nil => simp
    | cons b m =>
      cases i with
      | zero => rfl
      | succ i => exact congrArg ((a, b) :: ·) (ih m i)

theorem zip_modify_right {α β : Type} (f : β → β) (l : List α) (m : List β) (i : Nat) :
    l.zip (m.modify i f) = (l.zip m).modify i fun x => (x.1, f x.2) := by
  induction l generalizing m i with
  | nil => simp
  | cons a l ih =>
    cases m with
    | nil => simp
    | cons b m =>
      cases i with
      | zero => rfl
      | succ i => exact congrArg ((a, b) :: ·) (ih m i)

theorem cons_set_perm {α : Type} {x : α} (y : α) {l : List α} {j : Nat} (h : l[j]? = some x) :
    (x :: l.set j y).Perm (y :: l) := by
  induction l generalizing j with
  | nil => simp at h
  | cons a l ih =>
    cases j with
    | zero =>
      cases h
      exact .swap _ _ _
    | succ j => exact (List.Perm.swap a x _).trans (((ih h).cons a).trans (.swap y a _))

theorem zip_set {α β : Type} (a : α) {b : β} {l : List α} {m : List β} {j : Nat}
    (h : m[j]? = some b) : (l.set j a).zip m = (l.zip m).set j (a, b) := by
  induction l generalizing m j with
  | nil => simp
  | cons x l ih =>
    cases m with
    | nil => simp at h
    | cons y m =>
      cases j with
      | zero =>
        cases h
        rfl
      | succ j => exact congrArg ((x, y) :: ·) (ih h)

end Ava.Lib
