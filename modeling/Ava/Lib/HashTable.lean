import Mathlib.Data.List.AList

/-!
# Hash tables

A hash table is an association list without duplicate keys; the order of the keys is the order in
which an iteration meets them. The lemmas say what an insertion and a removal do to every lookup,
in one equation each.
-/

set_option autoImplicit false

namespace Ava.Lib

universe u v

/-- A table from keys to values. -/
abbrev HashTable (κ : Type u) (ν : Type v) := AList fun _ : κ => ν

namespace HashTable

variable {κ : Type u} {ν : Type v} [DecidableEq κ]

theorem lookup_insert_eq (t : HashTable κ ν) (k k' : κ) (v : ν) :
    (t.insert k v).lookup k' = if k' = k then some v else t.lookup k' := by
  by_cases h : k' = k
  · subst h
    rw [if_pos rfl]
    exact AList.lookup_insert t
  · rw [if_neg h]
    exact AList.lookup_insert_ne h

theorem lookup_erase_eq (t : HashTable κ ν) (k k' : κ) :
    (t.erase k).lookup k' = if k' = k then none else t.lookup k' := by
  by_cases h : k' = k
  · subst h
    rw [if_pos rfl]
    exact AList.lookup_erase k' t
  · rw [if_neg h]
    exact AList.lookup_erase_ne h

theorem mem_iff_lookup (t : HashTable κ ν) (k : κ) : k ∈ t ↔ ∃ v, t.lookup k = some v := by
  rw [← AList.lookup_isSome, Option.isSome_iff_exists]

/-! ## Tables that are inverse to each other -/

variable [DecidableEq ν] {t : HashTable κ ν} {t' : HashTable ν κ} {a : κ} {b : ν}

/-- The second table leads back from the values of the first to their keys. -/
def Inverse (t : HashTable κ ν) (t' : HashTable ν κ) : Prop :=
  ∀ a b, t.lookup a = some b ↔ t'.lookup b = some a

theorem Inverse.insert (h : Inverse t t') (ha : a ∉ t) (hb : b ∉ t') :
    Inverse (t.insert a b) (t'.insert b a) := by
  intro x y
  rw [lookup_insert_eq, lookup_insert_eq]
  rw [← AList.lookup_eq_none] at ha hb
  -- neither the key nor the value was in its table before
  by_cases hx : x = a <;> by_cases hy : y = b
  · simp [hx, hy]
  · subst hx
    rw [if_pos rfl, if_neg hy, ← h, ha]
    simp [Ne.symm hy]
  · subst hy
    rw [if_neg hx, if_pos rfl, h, hb]
    simp [Ne.symm hx]
  · rw [if_neg hx, if_neg hy, h]

theorem Inverse.erase (h : Inverse t t') (hab : t.lookup a = some b) :
    Inverse (t.erase a) (t'.erase b) := by
  intro x y
  have hba := (h a b).1 hab
  rw [lookup_erase_eq, lookup_erase_eq]
  -- the tables lose the same pair
  by_cases hx : x = a <;> by_cases hy : y = b
  · simp [hx, hy]
  · subst hx
    rw [if_pos rfl, if_neg hy, ← h, hab]
    simp [Ne.symm hy]
  · subst hy
    rw [if_neg hx, if_pos rfl, h, hba]
    simp [Ne.symm hx]
  · rw [if_neg hx, if_neg hy, h]

theorem Inverse.insert_again (h : Inverse t t') (hab : t.lookup a = some b) :
    Inverse t (t'.insert b a) := by
  intro x y
  rw [lookup_insert_eq]
  split_ifs with hy
  · subst hy
    rw [h, (h a y).1 hab]
  · exact h x y

end HashTable

end Ava.Lib
