import Mathlib.Data.List.Pairwise
import Mathlib.Order.Nat
import Mathlib.Tactic.Common

/-!
# Search trees with a comparison function

A search goes down a tree and asks at every key whether to go left, to go right, or to stop. It
finds what it looks for in a tree of any shape if its answers, in the order of the keys, are first
to go right, then to stop, and then to go left (`Steers`). A lookup is a search that compares with a
given key, and its answers are of that kind if the tree is ordered by the comparison.

An insertion may change the shape of the tree; what it does is said about the list of the entries.
-/

set_option autoImplicit false

namespace Ava.Lib

universe u v

inductive SearchTree (κ : Type u) (ν : Type v) where
  | nil
  | node (left : SearchTree κ ν) (key : κ) (value : ν) (right : SearchTree κ ν)
deriving DecidableEq, Repr

namespace SearchTree

variable {κ : Type u} {ν : Type v}

/-- The entries in order. -/
def toList : SearchTree κ ν → List (κ × ν)
  | .nil => []
  | .node left key value right => left.toList ++ (key, value) :: right.toList

/-- Go left for a negative answer, right for a positive one. There is no result if there is no
answer at a key. -/
def search (answer : κ → Option Int) : SearchTree κ ν → Option (Option ν)
  | .nil => some none
  | .node left key value right =>
    (answer key).bind fun d =>
      if d = 0 then some (some value)
      else if d < 0 then left.search answer
      else right.search answer

/-- The value of a key. -/
def lookup (compare : κ → κ → Int) (key : κ) : SearchTree κ ν → Option ν
  | .nil => none
  | .node left k value right =>
    if compare key k = 0 then some value
    else if compare key k < 0 then left.lookup compare key
    else right.lookup compare key

/-- The answers, in the order of the keys, are to go right, then to stop, then to go left. -/
def Steers (answer : κ → Int) (entries : List (κ × ν)) : Prop :=
  entries.Pairwise fun a b => (0 < answer b.1 → 0 < answer a.1) ∧ (answer a.1 < 0 → answer b.1 < 0)

/-- The list of entries with a new one, or with the new value for a key that is there. -/
def insertEntry (compare : κ → κ → Int) (key : κ) (value : ν) : List (κ × ν) → List (κ × ν)
  | [] => [(key, value)]
  | e :: entries =>
    if compare key e.1 = 0 then (e.1, value) :: entries
    else if compare key e.1 < 0 then (key, value) :: e :: entries
    else e :: insertEntry compare key value entries

/-- A tree of some shape after an insertion. -/
def Inserts (compare : κ → κ → Int) (key : κ) (value : ν) (t t' : SearchTree κ ν) : Prop :=
  t'.toList = insertEntry compare key value t.toList

section Search

variable {t : SearchTree κ ν} {g : κ → Option Int} {f : κ → Int}

/-- A search that gets an answer at every key finds an entry at which it is told to stop. -/
theorem search_eq_some (hanswer : ∀ e ∈ t.toList, g e.1 = some (f e.1))
    (hsteers : Steers f t.toList) :
    ∃ found, t.search g = some found ∧
      (∀ v, found = some v → ∃ k, (k, v) ∈ t.toList ∧ f k = 0) ∧
      (found = none → ∀ e ∈ t.toList, f e.1 ≠ 0) := by
  induction t with
  | nil =>
    refine ⟨none, rfl, fun v hv => ?_, fun _ e he => ?_⟩
    · cases hv
    · cases he
  | node left key value right ihl ihr =>
    rw [toList, Steers, List.pairwise_append] at hsteers
    obtain ⟨hleft, hright, hacross⟩ := hsteers
    obtain ⟨hkey, hright⟩ := List.pairwise_cons.1 hright
    have hat : g key = some (f key) := hanswer (key, value) (by simp [toList])
    have hsearch : (node left key value right).search g =
        if f key = 0 then some (some value)
        else if f key < 0 then left.search g else right.search g := by
      rw [search, hat, Option.bind_some]
    rw [hsearch]
    split_ifs with hzero hneg
    · refine ⟨some value, rfl, fun v hv => ?_, fun h => ?_⟩
      · cases hv
        exact ⟨key, by simp [toList], hzero⟩
      · cases h
    · -- the answers to the right of the key are negative, too
      obtain ⟨found, hfound, hsome, hnone⟩ :=
        ihl (fun e he => hanswer e (by simp [toList, he])) hleft
      refine ⟨found, hfound, fun v hv => ?_, fun h e he => ?_⟩
      · obtain ⟨k, hk, hk0⟩ := hsome v hv
        exact ⟨k, by simp [toList, hk], hk0⟩
      · rw [toList, List.mem_append, List.mem_cons] at he
        rcases he with he | rfl | he
        · exact hnone h e he
        · exact hzero
        · have hlt := (hkey e he).2 hneg
          omega
    · obtain ⟨found, hfound, hsome, hnone⟩ :=
        ihr (fun e he => hanswer e (by simp [toList, he])) hright
      refine ⟨found, hfound, fun v hv => ?_, fun h e he => ?_⟩
      · obtain ⟨k, hk, hk0⟩ := hsome v hv
        exact ⟨k, by simp [toList, hk], hk0⟩
      · rw [toList, List.mem_append, List.mem_cons] at he
        rcases he with he | rfl | he
        · have hpos := (hacross e he (key, value) List.mem_cons_self).1 (by dsimp only; omega)
          omega
        · exact hzero
        · exact hnone h e he

theorem search_compare (compare : κ → κ → Int) (key : κ) (t : SearchTree κ ν) :
    t.search (fun k => some (compare key k)) = some (t.lookup compare key) := by
  induction t with
  | nil => rfl
  | node left k value right ihl ihr =>
    rw [search, lookup, Option.bind_some]
    split_ifs
    · rfl
    · exact ihl
    · exact ihr

end Search

/-! ## Trees that are ordered by their comparison -/

/-- The function compares the keys of a set by their ranks. -/
structure Compares (compare : κ → κ → Int) (rank : κ → Nat) (keys : Set κ) : Prop where
  lt : ∀ a ∈ keys, ∀ b ∈ keys, compare a b < 0 ↔ rank a < rank b
  eq : ∀ a ∈ keys, ∀ b ∈ keys, compare a b = 0 ↔ rank a = rank b

/-- The entries are in the order of their ranks. -/
def Sorted (rank : κ → Nat) (entries : List (κ × ν)) : Prop :=
  entries.Pairwise fun a b => rank a.1 < rank b.1

section Ordered

variable {compare : κ → κ → Int} {rank : κ → Nat} {keys : Set κ} {t : SearchTree κ ν}
  {entries : List (κ × ν)} {key : κ} {value : ν}

theorem Compares.pos (h : Compares compare rank keys) {a b : κ} (ha : a ∈ keys) (hb : b ∈ keys) :
    0 < compare a b ↔ rank b < rank a := by
  have hlt := h.lt a ha b hb
  have heq := h.eq a ha b hb
  omega

theorem Sorted.steers (hc : Compares compare rank keys) (hs : Sorted rank entries)
    (hkeys : ∀ e ∈ entries, e.1 ∈ keys) (hkey : key ∈ keys) : Steers (compare key) entries := by
  refine hs.imp_of_mem fun {a b} ha hb hlt => ?_
  rw [hc.pos hkey (hkeys a ha), hc.pos hkey (hkeys b hb), hc.lt key hkey _ (hkeys a ha),
    hc.lt key hkey _ (hkeys b hb)]
  omega

theorem Sorted.eq_of_rank_eq (hs : Sorted rank entries) {a b : κ × ν} (ha : a ∈ entries)
    (hb : b ∈ entries) (h : rank a.1 = rank b.1) : a = b := by
  induction entries with
  | nil => cases ha
  | cons e entries ih =>
    obtain ⟨hhead, htail⟩ := List.pairwise_cons.1 hs
    rcases List.mem_cons.1 ha with rfl | ha'
    · rcases List.mem_cons.1 hb with rfl | hb'
      · rfl
      · exact absurd h (Nat.ne_of_lt (hhead b hb'))
    · rcases List.mem_cons.1 hb with rfl | hb'
      · exact absurd h (Nat.ne_of_gt (hhead a ha'))
      · exact ih htail ha' hb'

theorem lookup_of_mem (hc : Compares compare rank keys) (hs : Sorted rank t.toList)
    (hkeys : ∀ e ∈ t.toList, e.1 ∈ keys) (hmem : (key, value) ∈ t.toList) :
    t.lookup compare key = some value := by
  have hkey := hkeys _ hmem
  obtain ⟨found, hfound, hsome, hnone⟩ := search_eq_some
    (g := fun k => some (compare key k)) (fun _ _ => rfl) (hs.steers hc hkeys hkey)
  rw [search_compare] at hfound
  cases hfound
  cases hlookup : t.lookup compare key with
  | none => exact absurd ((hc.eq key hkey key hkey).2 rfl) (hnone hlookup _ hmem)
  | some v =>
    obtain ⟨k, hk, hk0⟩ := hsome v hlookup
    have hrank := (hc.eq key hkey k (hkeys _ hk)).1 hk0
    rw [(Prod.mk.inj (hs.eq_of_rank_eq hmem hk hrank)).2]

/-- What an insertion of a new key does to an ordered list. -/
theorem sorted_insertEntry (hc : Compares compare rank keys) (hs : Sorted rank entries)
    (hkeys : ∀ e ∈ entries, e.1 ∈ keys) (hkey : key ∈ keys)
    (hnew : ∀ e ∈ entries, rank key ≠ rank e.1) :
    Sorted rank (insertEntry compare key value entries) ∧
      ∀ e, e ∈ insertEntry compare key value entries ↔ e = (key, value) ∨ e ∈ entries := by
  induction entries with
  | nil => exact ⟨List.pairwise_singleton _ _, fun e => by simp [insertEntry]⟩
  | cons e entries ih =>
    obtain ⟨hhead, htail⟩ := List.pairwise_cons.1 hs
    have he := hkeys e List.mem_cons_self
    have hne : ¬ compare key e.1 = 0 := fun h0 =>
      hnew e List.mem_cons_self ((hc.eq key hkey e.1 he).1 h0)
    rw [insertEntry, if_neg hne]
    split_ifs with hlt
    · rw [hc.lt key hkey e.1 he] at hlt
      refine ⟨List.pairwise_cons.2 ⟨fun d hd => ?_, hs⟩, fun d => List.mem_cons⟩
      rcases List.mem_cons.1 hd with rfl | hd
      · exact hlt
      · exact hlt.trans (hhead d hd)
    · obtain ⟨hsorted, hmem⟩ := ih htail (fun d hd => hkeys d (List.mem_cons_of_mem _ hd))
        (fun d hd => hnew d (List.mem_cons_of_mem _ hd))
      have hgt : rank e.1 < rank key := by
        rw [hc.lt key hkey e.1 he] at hlt
        have hrank := hnew e List.mem_cons_self
        omega
      refine ⟨List.pairwise_cons.2 ⟨fun d hd => ?_, hsorted⟩, fun d => ?_⟩
      · rcases (hmem d).1 hd with rfl | hd
        · exact hgt
        · exact hhead d hd
      · rw [List.mem_cons, hmem, List.mem_cons]
        tauto

end Ordered

end SearchTree

end Ava.Lib
