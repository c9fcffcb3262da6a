import Mathlib.Algebra.Group.Nat.Defs
import Mathlib.Data.List.Pairwise
import Mathlib.Order.Nat
import Mathlib.Tactic.Common

/-!
# Spans of addresses

A span is a number of consecutive addresses. Spans without addresses have a position, too: they are
apart from every span, but may still be outside of another one.
-/

set_option autoImplicit false

namespace Ava.Lib

/-- The addresses from `start` on, `size` of them. -/
structure Span where
  start : Nat
  size : Nat
deriving DecidableEq, Repr

namespace Span

variable {s t : Span} {a : Nat}

/-- The first address behind the span. -/
def stop (s : Span) : Nat := s.start + s.size

instance : Membership Nat Span := ⟨fun s a => s.start ≤ a ∧ a < s.stop⟩

theorem mem_iff : a ∈ s ↔ s.start ≤ a ∧ a < s.start + s.size := Iff.rfl

instance (a : Nat) (s : Span) : Decidable (a ∈ s) := decidable_of_iff _ mem_iff.symm

/-- The span is inside of another one. -/
def Within (s t : Span) : Prop := t.start ≤ s.start ∧ s.stop ≤ t.stop

instance (s t : Span) : Decidable (s.Within t) := inferInstanceAs (Decidable (_ ∧ _))

/-- The spans have no address in common. -/
def Apart (s t : Span) : Prop := ∀ a, a ∈ s → a ∉ t

theorem apart_iff :
    s.Apart t ↔ s.size = 0 ∨ t.size = 0 ∨ s.stop ≤ t.start ∨ t.stop ≤ s.start := by
  constructor
  · intro h
    -- of two spans that overlap, the larger start is in both
    have hstart := h (max s.start t.start)
    simp only [mem_iff] at hstart
    simp only [stop]
    omega
  · intro h a hs ht
    simp only [mem_iff, stop] at h hs ht
    omega

theorem Apart.symm (h : s.Apart t) : t.Apart s := fun a ht hs => h a hs ht

theorem apart_of_stop_le (h : s.stop ≤ t.start) : s.Apart t := apart_iff.2 (.inr (.inr (.inl h)))

end Span

end Ava.Lib
