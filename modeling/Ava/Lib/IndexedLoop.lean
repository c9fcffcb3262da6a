import Mathlib.Tactic

/-!
# Loops over indexed elements

A loop visits the elements of a list with their indices, threads a state, may fail, and collects a
result for each element. The lemmas say what follows about a whole loop from what is known about
its steps.
-/

set_option autoImplicit false

namespace Ava.Lib

universe u v w

variable {α : Type u} {β : Type v} {σ : Type w}

/-- The loop over the elements of a list, whose first index is given. -/
def forIndexed (step : Nat → α → σ → Option (β × σ)) : Nat → List α → σ → Option (List β × σ)
  | _, [], s => some ([], s)
  | i, a :: as, s =>
    (step i a s).bind fun r =>
      (forIndexed step (i + 1) as r.2).map fun q => (r.1 :: q.1, q.2)

variable {step : Nat → α → σ → Option (β × σ)} {i : Nat} {a : α} {as : List α} {s s' : σ}
  {bs : List β}

theorem forIndexed_cons :
    forIndexed step i (a :: as) s =
      (step i a s).bind fun r =>
        (forIndexed step (i + 1) as r.2).map fun q => (r.1 :: q.1, q.2) := rfl

theorem forIndexed_cons_of_eq {b : β} {t : σ} (hstep : step i a s = some (b, t))
    (hloop : forIndexed step (i + 1) as t = some (bs, s')) :
    forIndexed step i (a :: as) s = some (b :: bs, s') := by
  rw [forIndexed_cons, hstep, Option.bind_some, hloop, Option.map_some]

theorem forIndexed_cons_eq_some (h : forIndexed step i (a :: as) s = some (bs, s')) :
    ∃ b t bs', step i a s = some (b, t) ∧ forIndexed step (i + 1) as t = some (bs', s') ∧
      bs = b :: bs' := by
  rw [forIndexed_cons, Option.bind_eq_some_iff] at h
  obtain ⟨⟨b, t⟩, hstep, h⟩ := h
  obtain ⟨⟨bs', t'⟩, hloop, h⟩ := Option.map_eq_some_iff.1 h
  cases h
  exact ⟨b, t, bs', hstep, hloop, rfl⟩

theorem forIndexed_pure (f : Nat → α → β)
    (hstep : ∀ k a, as[k]? = some a → ∀ s, step (i + k) a s = some (f (i + k) a, s)) :
    forIndexed step i as s = some (as.mapIdx fun k a => f (i + k) a, s) := by
  induction as generalizing i with
  | nil => rfl
  | cons a as ih =>
    have hrest := ih fun k e he t => by
      have hk := hstep (k + 1) e he t
      rwa [← Nat.add_assoc, Nat.add_right_comm] at hk
    have hfirst : step i a s = some (f i a, s) := hstep 0 a rfl s
    rw [forIndexed_cons_of_eq hfirst hrest, List.mapIdx_cons]
    simp only [Nat.add_zero, Nat.add_assoc, Nat.add_comm 1]

/-- Each element has a result, and what holds of the result of any step holds of all of them. -/
theorem forIndexed_results {P : β → Prop}
    (hstep : ∀ {k a s b t}, as[k]? = some a → step (i + k) a s = some (b, t) → P b)
    (h : forIndexed step i as s = some (bs, s')) : bs.length = as.length ∧ ∀ b ∈ bs, P b := by
  induction as generalizing i s bs with
  | nil =>
    cases h
    exact ⟨rfl, by simp⟩
  | cons a as ih =>
    obtain ⟨b, t, bs', hb, hloop, rfl⟩ := forIndexed_cons_eq_some h
    obtain ⟨hlen, hall⟩ := ih (fun {k e s b t} he hk => by
      rw [Nat.add_assoc, Nat.add_comm 1 k] at hk
      exact hstep he hk) hloop
    refine ⟨congrArg (· + 1) hlen, ?_⟩
    rintro q (_ | ⟨_, hq⟩)
    exacts [hstep (k := 0) rfl hb, hall q hq]

theorem exists_step_of_forIndexed {k : Nat} (h : forIndexed step i as s = some (bs, s'))
    (hk : as[k]? = some a) : ∃ t b u, step (i + k) a t = some (b, u) := by
  induction as generalizing i s bs k with
  | nil => simp at hk
  | cons e as ih =>
    obtain ⟨b, t, bs', hb, hloop, -⟩ := forIndexed_cons_eq_some h
    cases k with
    | zero =>
      cases hk
      exact ⟨s, b, t, hb⟩
    | succ k =>
      have hrest := ih hloop hk
      rwa [Nat.add_assoc, Nat.add_comm 1 k] at hrest

/-- A relation between states that every step keeps is kept by the loop. -/
theorem forIndexed_invariant (R : σ → σ → Prop) (hrefl : ∀ s, R s s)
    (htrans : ∀ {s t u}, R s t → R t u → R s u)
    (hstep : ∀ {i a s b t}, a ∈ as → step i a s = some (b, t) → R s t)
    (h : forIndexed step i as s = some (bs, s')) : R s s' := by
  induction as generalizing i s bs with
  | nil =>
    cases h
    exact hrefl _
  | cons a as ih =>
    obtain ⟨b, t, bs', hb, hloop, -⟩ := forIndexed_cons_eq_some h
    exact htrans (hstep List.mem_cons_self hb)
      (ih (fun ha => hstep (List.mem_cons_of_mem _ ha)) hloop)

/-- A property of the state that a step establishes only by itself holds after the loop if it held
before or some step establishes it. -/
theorem forIndexed_iff_or {P : σ → Prop} {Q : Nat → α → Prop}
    (hstep : ∀ {k a s b t}, as[k]? = some a → step (i + k) a s = some (b, t) →
      (P t ↔ P s ∨ Q (i + k) a))
    (h : forIndexed step i as s = some (bs, s')) :
    P s' ↔ P s ∨ ∃ k a, as[k]? = some a ∧ Q (i + k) a := by
  induction as generalizing i s bs with
  | nil =>
    cases h
    simp
  | cons a as ih =>
    obtain ⟨b, t, bs', hb, hloop, -⟩ := forIndexed_cons_eq_some h
    have hfirst : P t ↔ P s ∨ Q i a := hstep (k := 0) rfl hb
    have hrest := ih (fun {k e s b t} he hk => by
      have hk' := hstep (k := k + 1) (a := e) (s := s) (b := b) (t := t) he
      rw [← Nat.add_assoc, Nat.add_right_comm] at hk'
      exact hk' hk) hloop
    rw [hrest, hfirst, or_assoc]
    refine or_congr_right ⟨?_, ?_⟩
    · rintro (hq | ⟨k, e, he, hq⟩)
      · exact ⟨0, a, rfl, hq⟩
      · refine ⟨k + 1, e, he, ?_⟩
        rwa [Nat.add_assoc, Nat.add_comm 1 k] at hq
    · rintro ⟨k, e, he, hq⟩
      cases k with
      | zero =>
        cases he
        exact .inl hq
      | succ k =>
        refine .inr ⟨k, e, he, ?_⟩
        rwa [Nat.add_assoc, Nat.add_comm 1 k]

/-! ## Sums and concatenations over the elements -/

theorem mem_flatten_mapIdx {f : Nat → α → List β} {b : β} :
    b ∈ (as.mapIdx f).flatten ↔ ∃ k a, as[k]? = some a ∧ b ∈ f k a := by
  rw [List.mem_flatten]
  constructor
  · rintro ⟨l, hl, hb⟩
    obtain ⟨k, hk, rfl⟩ := List.mem_mapIdx.1 hl
    exact ⟨k, as[k], List.getElem?_eq_getElem hk, hb⟩
  · rintro ⟨k, a, ha, hb⟩
    obtain ⟨hk, rfl⟩ := List.getElem?_eq_some_iff.1 ha
    exact ⟨_, List.mem_mapIdx.2 ⟨k, hk, rfl⟩, hb⟩

theorem sum_flatten_mapIdx (f : Nat → α → List Nat) :
    (as.mapIdx f).flatten.sum = (as.mapIdx fun k a => (f k a).sum).sum := by
  induction as generalizing f with
  | nil => rfl
  | cons a as ih =>
    rw [List.mapIdx_cons, List.mapIdx_cons, List.flatten_cons, List.sum_append, List.sum_cons, ih]

theorem sum_mapIdx_modEq {f g : Nat → α → Nat} {m : Nat}
    (h : ∀ k a, as[k]? = some a → f k a ≡ g k a [MOD m]) :
    (as.mapIdx f).sum ≡ (as.mapIdx g).sum [MOD m] := by
  induction as generalizing f g with
  | nil => exact Nat.ModEq.rfl
  | cons a as ih =>
    rw [List.mapIdx_cons, List.mapIdx_cons, List.sum_cons, List.sum_cons]
    exact (h 0 a rfl).add (ih fun k e he => h (k + 1) e he)

end Ava.Lib
