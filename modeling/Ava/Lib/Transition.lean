import Mathlib.Data.Option.Basic
import Mathlib.Logic.Relation

/-!
# Transition systems with partial, guarded steps

A step function takes a state and an action to the next state, or fails. `Reaches step ok` is
reachability along steps that succeed and whose action meets the guard `ok` in the state before
the step; the unguarded system is `Reaches step fun _ _ => True`. Every invariant of a system is
proved with `Reaches.invariant`; concrete runs are executed by `runGuarded`.
-/

set_option autoImplicit false

namespace Ava.Lib

universe u v

variable {σ : Type u} {α : Type v}

/-- One guarded step by some action. -/
def StepBy (step : σ → α → Option σ) (ok : σ → α → Prop) (s t : σ) : Prop :=
  ∃ a, ok s a ∧ step s a = some t

/-- Reachability along guarded steps. -/
abbrev Reaches (step : σ → α → Option σ) (ok : σ → α → Prop) : σ → σ → Prop :=
  Relation.ReflTransGen (StepBy step ok)

variable {step : σ → α → Option σ} {ok : σ → α → Prop} {s t : σ}

/-- A property that every guarded step preserves holds along every run. -/
theorem Reaches.invariant {I : σ → Prop}
    (hstep : ∀ s a t, I s → ok s a → step s a = some t → I t)
    (h : Reaches step ok s t) (hs : I s) : I t := by
  induction h with
  | refl => exact hs
  | tail _ hbc ih =>
    obtain ⟨a, hok, hstep'⟩ := hbc
    exact hstep _ a _ ih hok hstep'

theorem Reaches.mono {ok' : σ → α → Prop} (hok : ∀ s a, ok s a → ok' s a)
    (h : Reaches step ok s t) : Reaches step ok' s t :=
  h.lift id fun _ _ ⟨a, ha, hstep⟩ => ⟨a, hok _ a ha, hstep⟩

variable {f : σ → α → Option σ}

/-- Two partial step functions that keep a relation, and fail together, keep it along a list of
actions. -/
theorem foldlM_rel {τ : Type u} {R : σ → τ → Prop} {g : τ → α → Option τ}
    (h : ∀ s t a, R s t → Option.Rel R (f s a) (g t a)) (as : List α) {t : τ} (hst : R s t) :
    Option.Rel R (as.foldlM f s) (as.foldlM g t) := by
  induction as generalizing s t with
  | nil => exact .some hst
  | cons a as ih =>
    have hrel := h s t a hst
    rw [List.foldlM_cons, List.foldlM_cons]
    cases hf : f s a with
    | none =>
      rw [hf] at hrel
      cases hg : g t a with
      | none => exact .none
      | some t' => rw [hg] at hrel; cases hrel
    | some s' =>
      rw [hf] at hrel
      cases hg : g t a with
      | none => rw [hg] at hrel; cases hrel
      | some t' =>
        rw [hg] at hrel
        cases hrel with
        | some hst' => exact ih hst'

/-- If one partial step function follows another, step by step, it follows it along a list of
actions. -/
theorem foldlM_follows {τ : Type u} {R : σ → τ → Prop} {g : τ → α → Option τ} {as : List α}
    (h : ∀ a ∈ as, ∀ s t s', R s t → f s a = some s' → ∃ t', g t a = some t' ∧ R s' t') {s' : σ}
    {t : τ} (hst : R s t) (hf : as.foldlM f s = some s') :
    ∃ t', as.foldlM g t = some t' ∧ R s' t' := by
  induction as generalizing s t with
  | nil =>
    cases hf
    exact ⟨t, rfl, hst⟩
  | cons a as ih =>
    rw [List.foldlM_cons] at hf
    obtain ⟨u, hu, hrest⟩ := Option.bind_eq_some_iff.1 hf
    obtain ⟨w, hw, huw⟩ := h a List.mem_cons_self s t u hst hu
    obtain ⟨t', ht', hst'⟩ := ih (fun b hb => h b (List.mem_cons_of_mem a hb)) huw hrest
    exact ⟨t', by rw [List.foldlM_cons, hw]; exact ht', hst'⟩

/-- What each partial step keeps holds after a list of actions. -/
theorem foldlM_keeps {I : σ → Prop} {as : List α} (h : ∀ a ∈ as, ∀ s t, I s → f s a = some t → I t)
    (hs : I s) (hf : as.foldlM f s = some t) : I t := by
  induction as generalizing s with
  | nil =>
    cases hf
    exact hs
  | cons a as ih =>
    rw [List.foldlM_cons] at hf
    obtain ⟨u, hu, hrest⟩ := Option.bind_eq_some_iff.1 hf
    exact ih (fun b hb => h b (List.mem_cons_of_mem a hb)) (h a List.mem_cons_self s u hs hu) hrest

/-! ## Steps that say why they fail -/

section Fallible

variable {ε β : Type u}

variable {b : β} {x : Except ε σ}

theorem bind_eq_ok {f : σ → Except ε β} : x.bind f = .ok b ↔ ∃ a, x = .ok a ∧ f a = .ok b := by
  cases x with
  | error e => simp [Except.bind]
  | ok a => simp [Except.bind]

theorem map_eq_ok {f : σ → β} : x.map f = .ok b ↔ ∃ a, x = .ok a ∧ f a = b := by
  cases x with
  | error e => simp [Except.map]
  | ok a => simp [Except.map]

theorem map_eq_error {f : σ → β} {e : ε} : x.map f = .error e ↔ x = .error e := by
  cases x with
  | error e' => simp [Except.map]
  | ok a => simp [Except.map]

theorem eq_ok_of_toOption {a : σ} (h : x.toOption = some a) : x = .ok a := by
  cases x with
  | error e => cases h
  | ok b =>
    cases h
    rfl

/-- What each step of a loop keeps holds after the loop. -/
theorem foldlM_invariant {I : σ → Prop} {f : σ → α → Except ε σ}
    (hf : ∀ s a t, I s → f s a = .ok t → I t) (as : List α) (hs : I s)
    (h : as.foldlM f s = .ok t) : I t := by
  induction as generalizing s with
  | nil =>
    cases h
    exact hs
  | cons a as ih =>
    rw [List.foldlM_cons] at h
    obtain ⟨u, hu, hrest⟩ := bind_eq_ok.1 h
    exact ih (hf s a u hs hu) hrest

variable {bs : List β} {f : α → Except ε β} {l : List α}

theorem mem_of_mapM_eq_ok (h : l.mapM f = .ok bs) : b ∈ bs ↔ ∃ a ∈ l, f a = .ok b := by
  induction l generalizing bs with
  | nil =>
    cases h
    simp
  | cons a l ih =>
    rw [List.mapM_cons] at h
    obtain ⟨c, hc, h⟩ := bind_eq_ok.1 h
    obtain ⟨cs, hcs, h⟩ := bind_eq_ok.1 h
    cases h
    rw [List.mem_cons, ih hcs]
    simp [hc, eq_comm]

theorem exists_ok_of_mapM_eq_ok (h : l.mapM f = .ok bs) {a : α} (ha : a ∈ l) :
    ∃ b ∈ bs, f a = .ok b := by
  induction l generalizing bs with
  | nil => cases ha
  | cons a' l ih =>
    rw [List.mapM_cons] at h
    obtain ⟨c, hc, h⟩ := bind_eq_ok.1 h
    obtain ⟨cs, hcs, h⟩ := bind_eq_ok.1 h
    cases h
    rcases List.mem_cons.1 ha with rfl | ha
    · exact ⟨c, List.mem_cons_self, hc⟩
    · obtain ⟨b, hb, hfb⟩ := ih hcs ha
      exact ⟨b, List.mem_cons_of_mem c hb, hfb⟩

/-- What the results of a loop have in common with their elements, in order. -/
theorem map_eq_of_mapM_eq_ok {γ : Type v} {g : β → γ} {k : α → γ}
    (hf : ∀ a b, f a = .ok b → g b = k a) (h : l.mapM f = .ok bs) : bs.map g = l.map k := by
  induction l generalizing bs with
  | nil =>
    cases h
    rfl
  | cons a l ih =>
    rw [List.mapM_cons] at h
    obtain ⟨c, hc, h⟩ := bind_eq_ok.1 h
    obtain ⟨cs, hcs, h⟩ := bind_eq_ok.1 h
    cases h
    rw [List.map_cons, List.map_cons, hf a c hc, ih hcs]

end Fallible

/-! ## Executed runs -/

/-- The run of a list of actions that checks the guard before each step. -/
def runGuarded (step : σ → α → Option σ) (ok : σ → α → Prop) [∀ s a, Decidable (ok s a)] :
    σ → List α → Option σ
  | s, [] => some s
  | s, a :: as => if ok s a then (step s a).bind fun t => runGuarded step ok t as else none

/-- A guarded run that succeeds is a path of the reachability relation. -/
theorem Reaches.of_runGuarded [∀ s a, Decidable (ok s a)] (as : List α)
    (h : runGuarded step ok s as = some t) : Reaches step ok s t := by
  induction as generalizing s with
  | nil =>
    cases h
    exact Relation.ReflTransGen.refl
  | cons a as ih =>
    rw [runGuarded] at h
    by_cases hok : ok s a
    · rw [if_pos hok] at h
      obtain ⟨u, hu, hrest⟩ := Option.bind_eq_some_iff.1 h
      exact Relation.ReflTransGen.head ⟨a, hok, hu⟩ (ih hrest)
    · rw [if_neg hok] at h
      cases h

end Ava.Lib
