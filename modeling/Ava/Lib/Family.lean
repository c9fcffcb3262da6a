import Ava.Lib.HashTable
import Mathlib.Data.List.Nodup
import Mathlib.Logic.Function.Basic

/-!
# Containers that hold a family of items

Items with keys of their own, calls, requests, tasks, are spread over the containers of a program: a
table, a queue, the heap, the threads that work on them. Where an item is can be said by a function
from keys, the family; a container then holds its part of the family. Each operation on a container
changes the family at one key, so an invariant over all items follows from what an operation does to
the one item that it is about.

A family can be a view of the states of the items. When the state of one item changes, a container
that does not see the difference keeps its part (`view_keep`), and the others get the new value at
that key (`view_become`).
-/

set_option autoImplicit false

namespace Ava.Lib

open Function (update apply_update update_apply update_eq_self update_self update_of_ne)

universe u v w

variable {κ : Type u} [DecidableEq κ]

/-! ## Views -/

section View

variable {σ : Type v} {α : Type w}

/-- What is seen of the state of every item. -/
def view (f : κ → σ → α) (state : κ → σ) : κ → α := fun k => f k (state k)

variable {P : (κ → α) → Prop} {f : κ → σ → α} {state : κ → σ} {k : κ} {x y : σ}

theorem view_update : view f (update state k y) = update (view f state) k (f k y) :=
  funext fun k' => apply_update f state k y k'

theorem view_become (h : P (update (view f state) k (f k y))) : P (view f (update state k y)) := by
  rwa [view_update]

theorem view_keep (hx : state k = x) (h : P (view f state)) (hsame : f k y = f k x) :
    P (view f (update state k y)) := by
  have hself : f k y = view f state k := hsame.trans (hx ▸ rfl)
  rwa [view_update, hself, update_eq_self]

end View

/-! ## Tables -/

/-- The table has exactly the values of the family. -/
def TableOf {ν : Type v} (table : HashTable κ ν) (g : κ → Option ν) : Prop :=
  ∀ k, table.lookup k = g k

section TableOf

variable {ν : Type v} {table : HashTable κ ν} {g : κ → Option ν}

theorem TableOf.insert (h : TableOf table g) (k : κ) (x : ν) :
    TableOf (table.insert k x) (update g k (some x)) := by
  intro k'
  rw [HashTable.lookup_insert_eq, update_apply, h k']

theorem TableOf.erase (h : TableOf table g) (k : κ) :
    TableOf (table.erase k) (update g k none) := by
  intro k'
  rw [HashTable.lookup_erase_eq, update_apply, h k']

end TableOf

/-! ## Lists and queues -/

/-- The list has exactly the items of the family, each once. -/
def ListOf {α : Type v} (list : List α) (key : α → κ) (g : κ → Option α) : Prop :=
  list.Nodup ∧ ∀ x, x ∈ list ↔ g (key x) = some x

section ListOf

variable {α : Type v} {list : List α} {key : α → κ} {g : κ → Option α}

theorem ListOf.append (h : ListOf list key g) {k : κ} (hnone : g k = none) {x : α}
    (hx : key x = k) :
    ListOf (list ++ [x]) key (update g k (some x)) := by
  obtain ⟨hnodup, hmem⟩ := h
  have hnew : x ∉ list := by
    intro hin
    have hsome := (hmem x).1 hin
    rw [hx, hnone] at hsome
    exact nomatch hsome
  refine ⟨hnodup.append (List.nodup_singleton x) (by simpa using hnew), ?_⟩
  intro y
  rw [List.mem_append, List.mem_singleton, update_apply, hmem y]
  by_cases hy : key y = k
  · rw [if_pos hy, hy, hnone]
    simp [eq_comm]
  · rw [if_neg hy]
    have hne : y ≠ x := fun heq => hy (heq ▸ hx)
    simp [hne]

omit [DecidableEq κ] in
theorem ListOf.of_perm (h : ListOf list key g) {list' : List α} (hperm : list.Perm list') :
    ListOf list' key g :=
  ⟨hperm.nodup_iff.1 h.1, fun x => hperm.mem_iff.symm.trans (h.2 x)⟩

theorem ListOf.tail {x : α} (h : ListOf (x :: list) key g) :
    ListOf list key (update g (key x) none) := by
  obtain ⟨hnodup, hmem⟩ := h
  obtain ⟨hout, hnodup⟩ := List.nodup_cons.1 hnodup
  refine ⟨hnodup, ?_⟩
  intro y
  have hy := hmem y
  rw [update_apply]
  by_cases hkey : key y = key x
  · -- the family has one item for the key
    have hx := (hmem x).1 List.mem_cons_self
    rw [if_pos hkey]
    constructor
    · intro hin
      have hsame := hy.1 (List.mem_cons_of_mem x hin)
      rw [hkey, hx] at hsame
      exact absurd (Option.some.inj hsame ▸ hin) hout
    · exact nofun
  · rw [if_neg hkey, ← hy, List.mem_cons]
    have hne : y ≠ x := fun heq => hkey (congrArg key heq)
    simp [hne]

theorem ListOf.eraseIdx (h : ListOf list key g) {i : Nat} {x : α} (hx : list[i]? = some x) :
    ListOf (list.eraseIdx i) key (update g (key x) none) := by
  obtain ⟨hi, rfl⟩ := List.getElem?_eq_some_iff.1 hx
  have hperm : list.Perm (list[i] :: list.eraseIdx i) := by
    have hsplit : list.take i ++ list[i] :: list.drop (i + 1) = list := by
      rw [← List.drop_eq_getElem_cons hi, List.take_append_drop]
    rw [List.eraseIdx_eq_take_drop_succ]
    nth_rewrite 1 [← hsplit]
    exact List.perm_middle
  exact (h.of_perm hperm).tail

end ListOf

/-! ## Holders -/

/-- Thread `t` works on item `x` if the family says so, and on no other. -/
def HolderOf {τ : Type v} {α : Type w} (holds : τ → Option α) (key : α → κ)
    (g : κ → Option (τ × α)) : Prop :=
  ∀ t x, holds t = some x ↔ g (key x) = some (t, x)

section HolderOf

variable {τ : Type v} [DecidableEq τ] {α : Type w} {holds : τ → Option α} {key : α → κ}
  {g : κ → Option (τ × α)} {k : κ} {t : τ}

/-- The item that a thread works on is replaced by another one of the same key, or is dropped. -/
theorem HolderOf.replace (h : HolderOf holds key g) {x : α} (hx : holds t = some x) (hk : key x = k)
    {y : Option α} (hy : ∀ x' ∈ y, key x' = k) :
    HolderOf (update holds t y) key (update g k (y.map (t, ·))) := by
  intro t' x'
  have hg : g k = some (t, x) := hk ▸ (h t x).1 hx
  rw [update_apply, update_apply]
  by_cases ht : t' = t
  · subst ht
    rw [if_pos rfl]
    by_cases hx' : key x' = k
    · rw [if_pos hx']
      cases y <;> simp
    · rw [if_neg hx', ← h t' x', hx]
      constructor
      · intro hsome
        exact absurd (hy x' hsome) hx'
      · intro hsome
        exact absurd (Option.some.inj hsome ▸ hk) hx'
  · rw [if_neg ht]
    by_cases hx' : key x' = k
    · rw [if_pos hx', h t' x', hx', hg]
      cases y with
      | none => simp [Ne.symm ht]
      | some y => simp [Ne.symm ht]
    · rw [if_neg hx', h t' x']

theorem HolderOf.enter (h : HolderOf holds key g) (hfree : holds t = none) (hnone : g k = none)
    {x : α} (hk : key x = k) :
    HolderOf (update holds t (some x)) key (update g k (some (t, x))) := by
  intro t' x'
  rw [update_apply, update_apply]
  by_cases ht : t' = t
  · subst ht
    rw [if_pos rfl]
    by_cases hx' : key x' = k
    · rw [if_pos hx']
      simp
    · rw [if_neg hx', ← h t' x', hfree]
      constructor
      · intro hsome
        exact absurd (Option.some.inj hsome ▸ hk) hx'
      · exact nofun
  · rw [if_neg ht]
    by_cases hx' : key x' = k
    · rw [if_pos hx', h t' x', hx', hnone]
      simp [Ne.symm ht]
    · rw [if_neg hx', h t' x']

end HolderOf

/-! ## Cells -/

/-- Every item has a cell of its own, with the content that the family says. -/
def CellsOf {α : Type v} (cells : List α) (g : κ → Option (Nat × α)) : Prop :=
  (∀ k i x, g k = some (i, x) → cells[i]? = some x) ∧
    ∀ k k' i x x', g k = some (i, x) → g k' = some (i, x') → k = k'

section CellsOf

variable {α : Type v} {cells : List α} {g : κ → Option (Nat × α)} {k : κ}

theorem CellsOf.alloc (h : CellsOf cells g) (x : α) :
    CellsOf (cells ++ [x]) (update g k (some (cells.length, x))) := by
  obtain ⟨hcell, hinj⟩ := h
  have hold : ∀ {k' i y}, g k' = some (i, y) → i < cells.length := fun hg =>
    (List.getElem?_eq_some_iff.1 (hcell _ _ _ hg)).1
  refine ⟨?_, ?_⟩
  · intro k' i y hg
    rw [update_apply] at hg
    split_ifs at hg with hk
    · cases hg
      exact List.getElem?_concat_length
    · rw [List.getElem?_append_left (hold hg)]
      exact hcell k' i y hg
  · intro k₁ k₂ i x₁ x₂ h₁ h₂
    rw [update_apply] at h₁ h₂
    split_ifs at h₁ h₂ with hk₁ hk₂ hk₂
    · rw [hk₁, hk₂]
    · cases h₁
      exact absurd (hold h₂) (Nat.lt_irrefl _)
    · cases h₂
      exact absurd (hold h₁) (Nat.lt_irrefl _)
    · exact hinj k₁ k₂ i x₁ x₂ h₁ h₂

theorem CellsOf.set (h : CellsOf cells g) {i : Nat} {x : α} (hk : g k = some (i, x)) (y : α) :
    CellsOf (cells.set i y) (update g k (some (i, y))) := by
  obtain ⟨hcell, hinj⟩ := h
  have hi : i < cells.length := (List.getElem?_eq_some_iff.1 (hcell k i x hk)).1
  refine ⟨?_, ?_⟩
  · intro k' j z hg
    rw [update_apply] at hg
    split_ifs at hg with hk'
    · cases hg
      exact List.getElem?_set_self hi
    · have hne : i ≠ j := by
        rintro rfl
        exact hk' (hinj k' k i z x hg hk)
      rw [List.getElem?_set_ne hne]
      exact hcell k' j z hg
  · intro k₁ k₂ j x₁ x₂ h₁ h₂
    rw [update_apply] at h₁ h₂
    split_ifs at h₁ h₂ with hk₁ hk₂ hk₂
    · rw [hk₁, hk₂]
    · cases h₁
      exact hk₁.trans (hinj k k₂ i x x₂ hk h₂)
    · cases h₂
      exact (hinj k₁ k i x₁ x h₁ hk).trans hk₂.symm
    · exact hinj k₁ k₂ j x₁ x₂ h₁ h₂

end CellsOf

/-! ## Traces -/

/-- The events of every item, in the order in which they happened. -/
def TraceOf {ε : Type v} (trace : List ε) (key : ε → κ) (g : κ → List ε) : Prop :=
  ∀ k, trace.filter (key · = k) = g k

theorem TraceOf.append {ε : Type v} {trace : List ε} {key : ε → κ} {g : κ → List ε}
    (h : TraceOf trace key g) {k : κ} {es : List ε} (hes : g k = es) {e : ε} (he : key e = k) :
    TraceOf (trace ++ [e]) key (update g k (es ++ [e])) := by
  intro k'
  rw [List.filter_append, h k', update_apply]
  by_cases hk : k' = k
  · subst hk
    rw [if_pos rfl, List.filter_singleton, he, hes]
    simp
  · have hne : key e ≠ k' := fun heq => hk (heq.symm.trans he)
    rw [if_neg hk, List.filter_singleton]
    simp [hne]

/-! ## Loops -/

section Loop

variable {α : Type v} {β : Type w}

/-- A loop over items that changes the family at the key of each item. -/
def updateAll (key : α → κ) (change : α → β → β) (f : κ → β) (items : List α) : κ → β :=
  items.foldl (fun f a => update f (key a) (change a (f (key a)))) f

theorem updateAll_cons (key : α → κ) (change : α → β → β) (f : κ → β) (a : α) (items : List α) :
    updateAll key change f (a :: items) =
      updateAll key change (update f (key a) (change a (f (key a)))) items := rfl

theorem updateAll_apply (key : α → κ) (change : α → β → β) (items : List α) (f : κ → β) (k : κ) :
    updateAll key change f items k =
      (items.filter fun a => key a = k).foldl (fun x a => change a x) (f k) := by
  induction items generalizing f with
  | nil => rfl
  | cons a items ih =>
    rw [updateAll_cons, ih]
    by_cases h : key a = k
    · subst h
      rw [List.filter_cons_of_pos (by simp), List.foldl_cons, update_self]
    · rw [List.filter_cons_of_neg (by simp [h]), update_of_ne (Ne.symm h)]

end Loop

end Ava.Lib
