import Mathlib.Data.Finset.Card
import Mathlib.Data.Finset.SDiff
import Mathlib.Logic.Relation

/-!
# Depth-first traversal with a visited list

`visit` walks a graph given by its successor lists and appends every node it meets for the first
time to the visited list. The recursion depth is bounded by a fuel argument. If only the nodes of a
finite list have successors, one more unit of fuel than there are such nodes is enough
(`visitAll_isSome`), also on cyclic graphs, and the nodes visited from the empty list are exactly
those reachable from the start nodes (`mem_visitAll_iff`).
-/

set_option autoImplicit false

namespace Ava.Lib

universe u

variable {ν : Type u} (succ : ν → List ν)

/-- The visited list after the walk from `x`. -/
def visit [DecidableEq ν] : Nat → ν → List ν → Option (List ν)
  | 0, _, _ => none
  | n + 1, x, visited =>
    if x ∈ visited then some visited
    else (succ x).foldlM (fun visited y => visit n y visited) (visited ++ [x])

/-- The visited list after the walks from each of `xs`, in order. -/
def visitAll [DecidableEq ν] (n : Nat) (xs visited : List ν) : Option (List ν) :=
  xs.foldlM (fun visited x => visit succ n x visited) visited

/-- Reachability along successors. -/
def Reachable : ν → ν → Prop := Relation.ReflTransGen fun x y => y ∈ succ x

/-- What the walks from `xs` do to the visited list `v`: they add only nodes reachable from `xs`,
among them `xs`, and all successors of the nodes they add. -/
structure Extends (xs v w : List ν) : Prop where
  mono : ∀ y ∈ v, y ∈ w
  nodup : v.Nodup → w.Nodup
  starts : ∀ x ∈ xs, x ∈ w
  sound : ∀ y ∈ w, y ∈ v ∨ ∃ x ∈ xs, Reachable succ x y
  closed : ∀ y ∈ w, y ∉ v → ∀ z ∈ succ y, z ∈ w

namespace Extends

variable {succ} {x : ν} {xs v w w' : List ν}

theorem nil : Extends succ [] v v where
  mono := fun _ hy => hy
  nodup := fun h => h
  starts := fun _ hx => by cases hx
  sound := fun _ hy => .inl hy
  closed := fun _ hy hn => absurd hy hn

theorem visited (hx : x ∈ v) : Extends succ [x] v v where
  mono := fun _ hy => hy
  nodup := fun h => h
  starts := fun _ hy => by rwa [List.mem_singleton.1 hy]
  sound := fun _ hy => .inl hy
  closed := fun _ hy hn => absurd hy hn

theorem cons (h₁ : Extends succ [x] v w) (h₂ : Extends succ xs w w') :
    Extends succ (x :: xs) v w' where
  mono := fun y hy => h₂.mono y (h₁.mono y hy)
  nodup := fun h => h₂.nodup (h₁.nodup h)
  starts := fun y hy => by
    rcases List.mem_cons.1 hy with rfl | hy
    · exact h₂.mono y (h₁.starts y (List.mem_singleton_self y))
    · exact h₂.starts y hy
  sound := fun y hy => by
    rcases h₂.sound y hy with hw | ⟨z, hz, hr⟩
    · rcases h₁.sound y hw with hv | ⟨z, hz, hr⟩
      · exact .inl hv
      · exact .inr ⟨z, List.mem_cons.2 (.inl (List.mem_singleton.1 hz)), hr⟩
    · exact .inr ⟨z, List.mem_cons_of_mem x hz, hr⟩
  closed := fun y hy hn z hz => by
    by_cases hw : y ∈ w
    · exact h₂.mono z (h₁.closed y hw hn z hz)
    · exact h₂.closed y hy hw z hz

/-- The walk from a new node: the node, then its successors. -/
theorem descend (hx : x ∉ v) (h : Extends succ (succ x) (v ++ [x]) w) : Extends succ [x] v w where
  mono := fun y hy => h.mono y (List.mem_append_left [x] hy)
  nodup := fun hv => h.nodup (by rw [← List.concat_eq_append]; exact hv.concat hx)
  starts := fun y hy => h.mono y (List.mem_append_right v hy)
  sound := fun y hy => by
    rcases h.sound y hy with hv | ⟨z, hz, hr⟩
    · rcases List.mem_append.1 hv with hv | hv
      · exact .inl hv
      · rw [List.mem_singleton.1 hv]
        exact .inr ⟨x, List.mem_singleton_self x, Relation.ReflTransGen.refl⟩
    · exact .inr ⟨x, List.mem_singleton_self x, Relation.ReflTransGen.head hz hr⟩
  closed := fun y hy hn z hz => by
    by_cases hyx : y = x
    · subst hyx
      exact h.starts z hz
    · refine h.closed y hy ?_ z hz
      rw [List.mem_append, List.mem_singleton]
      rintro (hv | rfl)
      · exact hn hv
      · exact hyx rfl

end Extends

variable {succ} [DecidableEq ν]

variable {n : Nat} {v w xs : List ν}

/-- The walks from a list extend the visited list if each single walk does. -/
theorem visitAll_extends (hvisit : ∀ x v w, visit succ n x v = some w → Extends succ [x] v w)
    (h : visitAll succ n xs v = some w) : Extends succ xs v w := by
  induction xs generalizing v with
  | nil =>
    cases h
    exact Extends.nil
  | cons x xs ih =>
    rw [visitAll, List.foldlM_cons] at h
    obtain ⟨u, hu, hrest⟩ := Option.bind_eq_some_iff.1 h
    exact (hvisit x v u hu).cons (ih hrest)

theorem visit_extends (n : Nat) (x : ν) (v w : List ν) (h : visit succ n x v = some w) :
    Extends succ [x] v w := by
  induction n generalizing x v w with
  | zero => cases h
  | succ n ih =>
    rw [visit] at h
    by_cases hx : x ∈ v
    · rw [if_pos hx] at h
      cases h
      exact Extends.visited hx
    · rw [if_neg hx] at h
      exact Extends.descend hx (visitAll_extends ih h)

/-! ## Enough fuel -/

/-- The nodes of `dom` that were not visited yet. -/
def unvisited (dom : Finset ν) (v : List ν) : Nat := (dom \ v.toFinset).card

theorem unvisited_le (dom : Finset ν) (h : ∀ y ∈ v, y ∈ w) : unvisited dom w ≤ unvisited dom v := by
  refine Finset.card_le_card (Finset.sdiff_subset_sdiff (Finset.Subset.refl dom) ?_)
  intro y hy
  exact List.mem_toFinset.2 (h y (List.mem_toFinset.1 hy))

theorem unvisited_lt {dom : Finset ν} {x : ν} (hdom : x ∈ dom) (hx : x ∉ v) :
    unvisited dom (v ++ [x]) < unvisited dom v := by
  refine Finset.card_lt_card ((Finset.ssubset_iff_of_subset ?_).2 ⟨x, ?_, ?_⟩)
  · intro y hy
    simp only [Finset.mem_sdiff, List.mem_toFinset, List.mem_append, not_or] at hy ⊢
    exact ⟨hy.1, hy.2.1⟩
  · simp [hdom, hx]
  · simp

variable {dom : Finset ν} (hdom : ∀ x, succ x ≠ [] → x ∈ dom)

theorem visitAll_isSome_of (hvisit : ∀ x v, unvisited dom v < n → ∃ w, visit succ n x v = some w)
    (h : unvisited dom v < n) : ∃ w, visitAll succ n xs v = some w := by
  induction xs generalizing v with
  | nil => exact ⟨v, rfl⟩
  | cons x xs ih =>
    obtain ⟨u, hu⟩ := hvisit x v h
    have hle := unvisited_le dom (visit_extends n x v u hu).mono
    obtain ⟨w, hw⟩ := ih (lt_of_le_of_lt hle h)
    refine ⟨w, ?_⟩
    rw [visitAll, List.foldlM_cons, hu]
    exact hw

include hdom in
theorem visit_isSome (n : Nat) (x : ν) (v : List ν) (h : unvisited dom v < n) :
    ∃ w, visit succ n x v = some w := by
  induction n generalizing x v with
  | zero => exact absurd h (Nat.not_lt_zero _)
  | succ n ih =>
    rw [visit]
    by_cases hx : x ∈ v
    · exact ⟨v, if_pos hx⟩
    · rw [if_neg hx]
      by_cases hsucc : succ x = []
      · exact ⟨v ++ [x], by rw [hsucc]; rfl⟩
      · have hlt := unvisited_lt (hdom x hsucc) hx
        exact visitAll_isSome_of ih (by omega)

include hdom in
/-- With more fuel than there are nodes with successors, the walks end. -/
theorem visitAll_isSome (hn : dom.card < n) (xs : List ν) :
    ∃ w, visitAll succ n xs [] = some w := by
  refine visitAll_isSome_of (visit_isSome hdom n) (lt_of_le_of_lt ?_ hn)
  exact Finset.card_le_card Finset.sdiff_subset

/-- The nodes visited from the start are the reachable ones. -/
theorem mem_visitAll_iff (h : visitAll succ n xs [] = some w) (y : ν) :
    y ∈ w ↔ ∃ x ∈ xs, Reachable succ x y := by
  have hext := visitAll_extends (visit_extends n) h
  constructor
  · intro hy
    exact (hext.sound y hy).resolve_left List.not_mem_nil
  · rintro ⟨x, hx, hr⟩
    -- the visited set contains the start nodes and is closed under successors
    induction hr with
    | refl => exact hext.starts x hx
    | tail _ hstep ih => exact hext.closed _ ih List.not_mem_nil _ hstep

theorem nodup_visitAll (h : visitAll succ n xs [] = some w) : w.Nodup :=
  (visitAll_extends (visit_extends n) h).nodup List.nodup_nil

end Ava.Lib
