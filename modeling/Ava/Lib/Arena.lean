import Ava.Lib.HashTable
import Mathlib.Data.List.Nodup
import Mathlib.Data.Option.Basic

/-!
# Allocated objects and their reference counts

An arena has the objects that are allocated. Every object gets a number of its own when it is
allocated, and no number is given twice, so that a pointer to an object that has been freed never
leads to another one.

A heap of objects with reference counts also keeps the list of the objects that have been released
because their last reference was dropped. To drop a reference to an object that has been released is
undefined.
-/

set_option autoImplicit false

namespace Ava.Lib

universe u

/-- Objects with their numbers. No number from `next` on is in use. -/
structure Arena (β : Type u) where
  cells : HashTable Nat β
  next : Nat
  fresh : ∀ a, next ≤ a → cells.lookup a = none

namespace Arena

variable {β : Type u}

def empty : Arena β := ⟨∅, 0, fun _ _ => AList.lookup_empty _⟩

def get (h : Arena β) (a : Nat) : Option β := h.cells.lookup a

theorem get_empty (a : Nat) : (empty : Arena β).get a = none := AList.lookup_empty a

theorem get_next (h : Arena β) : h.get h.next = none := h.fresh h.next (Nat.le_refl _)

/-- Allocate an object under the next number. -/
def new (h : Arena β) (v : β) : Arena β where
  cells := h.cells.insert h.next v
  next := h.next + 1
  fresh := by
    intro a ha
    rw [HashTable.lookup_insert_eq, if_neg (Nat.ne_of_gt ha), h.fresh a (Nat.le_of_lt ha)]

theorem get_new (h : Arena β) (v : β) (a : Nat) :
    (h.new v).get a = if a = h.next then some v else h.get a :=
  HashTable.lookup_insert_eq _ _ _ _

def free (h : Arena β) (a : Nat) : Arena β where
  cells := h.cells.erase a
  next := h.next
  fresh := by
    intro b hb
    rw [HashTable.lookup_erase_eq, h.fresh b hb, ite_self]

theorem get_free (h : Arena β) (a b : Nat) :
    (h.free a).get b = if b = a then none else h.get b :=
  HashTable.lookup_erase_eq _ _ _

/-- Write to an allocated object. -/
def set (h : Arena β) (a : Nat) (v : β) : Arena β :=
  if ha : a < h.next then
    { cells := h.cells.insert a v
      next := h.next
      fresh := by
        intro b hb
        rw [HashTable.lookup_insert_eq, if_neg (Nat.ne_of_gt (Nat.lt_of_lt_of_le ha hb)),
          h.fresh b hb] }
  else h

theorem lt_next_of_get {h : Arena β} {a : Nat} {v : β} (ha : h.get a = some v) : a < h.next := by
  by_contra hge
  have hnone := h.fresh a (Nat.le_of_not_lt hge)
  cases hnone.symm.trans ha

theorem get_set {h : Arena β} {a : Nat} {w : β} (ha : h.get a = some w) (v : β) (b : Nat) :
    (h.set a v).get b = if b = a then some v else h.get b := by
  rw [set, dif_pos (lt_next_of_get ha)]
  exact HashTable.lookup_insert_eq _ _ _ _

end Arena

/-! ## Reference counts -/

/-- An object with its reference count. -/
structure Counted (β : Type u) where
  refCount : Nat
  value : β
deriving DecidableEq, Repr

/-- Objects with reference counts, and those that have been released, in order. -/
structure RefHeap (β : Type u) where
  arena : Arena (Counted β)
  released : List Nat

namespace RefHeap

variable {β : Type u}

def empty : RefHeap β := ⟨.empty, []⟩

def get (h : RefHeap β) (a : Nat) : Option (Counted β) := h.arena.get a

/-- A new object has one reference. -/
def new (h : RefHeap β) (v : β) : RefHeap β := ⟨h.arena.new ⟨1, v⟩, h.released⟩

/-- Drop a reference, and release the object if it was the last one. -/
def unref (h : RefHeap β) (a : Nat) : Option (RefHeap β) :=
  (h.get a).map fun c =>
    if c.refCount = 1 then ⟨h.arena.free a, h.released ++ [a]⟩
    else ⟨h.arena.set a { c with refCount := c.refCount - 1 }, h.released⟩

/-- Drop one reference for each entry of a list. -/
def unrefAll (h : RefHeap β) (as : List Nat) : Option (RefHeap β) := as.foldlM unref h

theorem get_new (h : RefHeap β) (v : β) (a : Nat) :
    (h.new v).get a = if a = h.arena.next then some ⟨1, v⟩ else h.get a :=
  Arena.get_new _ _ _

theorem unref_single {h : RefHeap β} {a : Nat} {v : β} (ha : h.get a = some ⟨1, v⟩) :
    h.unref a = some ⟨h.arena.free a, h.released ++ [a]⟩ := by
  rw [unref, ha]
  rfl

/-- Objects with a single reference each are released, and no others. -/
theorem unrefAll_single {as : List Nat} (h : RefHeap β) (hnodup : as.Nodup)
    (hsingle : ∀ a ∈ as, ∃ v, h.get a = some ⟨1, v⟩) :
    ∃ h', h.unrefAll as = some h' ∧ h'.released = h.released ++ as ∧
      ∀ a, h'.get a = if a ∈ as then none else h.get a := by
  induction as generalizing h with
  | nil =>
    refine ⟨h, rfl, (List.append_nil _).symm, fun a => ?_⟩
    rw [if_neg (List.not_mem_nil)]
  | cons b as ih =>
    obtain ⟨hb, hnodup⟩ := List.nodup_cons.1 hnodup
    obtain ⟨v, hv⟩ := hsingle b List.mem_cons_self
    have hget : ∀ a, (⟨h.arena.free b, h.released ++ [b]⟩ : RefHeap β).get a =
        if a = b then none else h.get a := Arena.get_free h.arena b
    obtain ⟨h', hrun, hreleased, hrest⟩ := ih ⟨h.arena.free b, h.released ++ [b]⟩ hnodup (by
      intro a ha
      rw [hget, if_neg (ne_of_mem_of_not_mem ha hb)]
      exact hsingle a (List.mem_cons_of_mem _ ha))
    refine ⟨h', ?_, ?_, fun a => ?_⟩
    · rw [unrefAll, List.foldlM_cons, unref_single hv]
      exact hrun
    · rw [hreleased, List.append_assoc]
      rfl
    · rw [hrest, hget]
      simp only [List.mem_cons]
      split_ifs <;> tauto

end RefHeap

end Ava.Lib
