import Mathlib.Data.List.Sort

/-!
# Sorting by a comparison

The sorting function of a standard library gets a comparison and promises an order in which no
element stands before one that is to come first, if the comparison is a strict weak order. It need
not be stable, so it is not determined by its promise; a development that calls it is about every
`Sorter`. The first element of an ordered list that meets a condition is a best one.
-/

set_option autoImplicit false

namespace Ava.Lib

universe u

variable {κ : Type u} {before : κ → κ → Bool}

/-- The comparison is a strict weak order. -/
structure StrictWeak (before : κ → κ → Bool) : Prop where
  asymm : ∀ a b, before a b = true → before b a = false
  negTrans : ∀ a b c, before a b = false → before b c = false → before a c = false

/-- No element stands before one that is to come first. -/
def InOrder (before : κ → κ → Bool) (l : List κ) : Prop := l.Pairwise fun a b => before b a = false

/-- A sorting function. -/
structure Sorter (κ : Type u) where
  sort : (κ → κ → Bool) → List κ → List κ
  perm : ∀ before, StrictWeak before → ∀ l, (sort before l).Perm l
  ordered : ∀ before, StrictWeak before → ∀ l, InOrder before (sort before l)

theorem StrictWeak.irrefl (h : StrictWeak before) (a : κ) : before a a = false := by
  cases haa : before a a with
  | false => rfl
  | true => exact haa.symm.trans (h.asymm a a haa)

/-- The first element that meets a condition is a best one. -/
theorem InOrder.find?_best (hweak : StrictWeak before) {l : List κ} (h : InOrder before l)
    {p : κ → Bool} {x : κ} (hx : l.find? p = some x) :
    ∀ y ∈ l, p y = true → before y x = false := by
  induction l with
  | nil => cases hx
  | cons a l ih =>
    obtain ⟨hfirst, hrest⟩ := List.pairwise_cons.1 h
    intro y hy hp
    rw [List.find?_cons] at hx
    cases ha : p a with
    | true =>
      rw [ha] at hx
      cases hx
      rcases List.mem_cons.1 hy with rfl | hy
      · exact hweak.irrefl y
      · exact hfirst y hy
    | false =>
      rw [ha] at hx
      rcases List.mem_cons.1 hy with rfl | hy
      · rw [ha] at hp
        cases hp
      · exact ih hrest hx y hy hp

theorem InOrder.congr {before' : κ → κ → Bool} {l : List κ} (h : InOrder before l)
    (heq : ∀ a b, before' a b = before a b) : InOrder before' l :=
  h.imp fun {a b} hab => (heq b a).trans hab

/-- Insertion sort is a sorting function. -/
def insertionSorter : Sorter κ where
  sort before l := l.insertionSort fun a b => before b a = false
  perm before _ l := List.perm_insertionSort _ l
  ordered before h l := by
    have : Std.Total fun a b => before b a = false := ⟨fun a b => by
      cases hba : before b a with
      | false => exact Or.inl rfl
      | true => exact Or.inr (h.asymm b a hba)⟩
    have : IsTrans κ fun a b => before b a = false := ⟨fun a b c hba hcb =>
      h.negTrans c b a hcb hba⟩
    exact List.pairwise_insertionSort _ l

end Ava.Lib
