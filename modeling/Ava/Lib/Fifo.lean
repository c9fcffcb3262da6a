import Mathlib.Data.List.Basic
import Mathlib.Data.List.Sublists
import Mathlib.Logic.Relation

/-!
# First-in first-out queues that may lose

A `Flow` is what has entered a queue, what waits in it and what has left it. The queue is in order
if what has left, followed by what waits, is what has entered with gaps; it is complete if there are
no gaps. Every step of a queue keeps the order; the steps that lose nothing keep completeness.
-/

set_option autoImplicit false

namespace Ava.Lib

universe u

variable {β : Type u}

/-- The history of a queue. -/
structure Flow (β : Type u) where
  entered : List β
  waiting : List β
  left : List β

namespace Flow

variable {f g : Flow β}

/-- A step that loses nothing. -/
inductive Keeps : Flow β → Flow β → Prop where
  | refl (f : Flow β) : Keeps f f
  | enter (f : Flow β) (c : β) : Keeps f ⟨f.entered ++ [c], f.waiting ++ [c], f.left⟩
  | leave (entered : List β) (c : β) (waiting left : List β) :
      Keeps ⟨entered, c :: waiting, left⟩ ⟨entered, waiting, left ++ [c]⟩

/-- A step that loses what is new or what waits. -/
inductive Loses : Flow β → Flow β → Prop where
  | refuse (f : Flow β) (c : β) : Loses f ⟨f.entered ++ [c], f.waiting, f.left⟩
  | clear (f : Flow β) : Loses f ⟨f.entered, [], f.left⟩

/-- What leaves is in the order of what has entered, and nothing leaves twice. -/
def Ordered (f : Flow β) : Prop := (f.left ++ f.waiting).Sublist f.entered

/-- Everything that has entered waits or has left. -/
def Complete (f : Flow β) : Prop := f.left ++ f.waiting = f.entered

theorem Complete.keeps (h : f.Complete) (hstep : Keeps f g) : g.Complete := by
  rw [Complete] at h
  cases hstep with
  | refl => exact h
  | enter =>
    rw [Complete, ← List.append_assoc, h]
  | leave entered c waiting left =>
    rw [Complete, List.append_assoc]
    exact h

theorem Ordered.keeps (h : f.Ordered) (hstep : Keeps f g) : g.Ordered := by
  rw [Ordered] at h
  cases hstep with
  | refl => exact h
  | enter =>
    rw [Ordered, ← List.append_assoc]
    exact h.append_right _
  | leave entered c waiting left =>
    rw [Ordered, List.append_assoc]
    exact h

theorem Ordered.loses (h : f.Ordered) (hstep : Loses f g) : g.Ordered := by
  rw [Ordered] at h
  cases hstep with
  | refuse c => exact h.trans (List.sublist_append_left _ _)
  | clear => exact ((List.nil_sublist f.waiting).append_left f.left).trans h

theorem leaves (entered waiting rest left : List β) :
    Relation.ReflTransGen Keeps ⟨entered, waiting ++ rest, left⟩
      ⟨entered, rest, left ++ waiting⟩ := by
  induction waiting generalizing left with
  | nil =>
    rw [List.nil_append, List.append_nil]
  | cons c waiting ih =>
    have hrest := ih (left ++ [c])
    rw [List.append_assoc] at hrest
    exact .head (.leave entered c (waiting ++ rest) left) hrest

theorem Complete.run (h : f.Complete) (hrun : Relation.ReflTransGen Keeps f g) : g.Complete := by
  induction hrun with
  | refl => exact h
  | tail _ hstep ih => exact ih.keeps hstep

/-- What has left is what has entered, with gaps. -/
theorem Ordered.left_sublist (h : f.Ordered) : f.left.Sublist f.entered :=
  (List.sublist_append_left _ _).trans h

end Flow

end Ava.Lib
