import Ava.Endpoint.Ids

/-!
# Freshness of ids

Several endpoints with one tag each keep a counter. An endpoint issues ids with `nextId`, and an
id that some endpoint issued may be assigned at any endpoint, as the replay of a recorded call
does. The module follows all interleavings of these two operations.

The numbers of ids are issued in the order `64, 65, …, 2 ^ 36 - 1, 0, …, 63`; `issueOrder` is the
position of a number in it. As long as each `updateNextId` leaves the counter, in this order, not
before its old position and past the assigned id (`IdOp.ordered`), the next id is new at its
endpoint (`nextId_fresh_of_ordered`). The condition is not met by every assignment:
`nextId_repeats_after_assign` is a run in which assigning an old id makes the counter go back.
-/

set_option autoImplicit false

namespace Ava.Endpoint

open Ava.Lib

variable {ι : Type}

/-- Endpoints `ι` with one tag: the counters, the ids each endpoint issued, and the ids assigned at
each endpoint. The two lists are the history the statements are about; no step reads them. -/
structure IdState (ι : Type) where
  counter : ι → UInt64
  produced : List (ι × Ptr)
  assigned : List (ι × Ptr)

/-- `global_counter` starts at `counter_count_min`. -/
def IdState.init : IdState ι := ⟨fun _ => counterCountMin, [], []⟩

/-- The ids that endpoint `i` returned or that were assigned at it. -/
def IdState.Seen (s : IdState ι) (i : ι) (x : Ptr) : Prop :=
  (i, x) ∈ s.produced ∨ (i, x) ∈ s.assigned

/-- The two operations on a counter. -/
inductive IdOp (ι : Type) where
  | next (i : ι)
  | assign (i : ι) (id : Ptr)

/-- One operation. -/
def idStep [DecidableEq ι] (tag : UInt64) (s : IdState ι) : IdOp ι → Option (IdState ι)
  | .next i =>
    let r := nextId tag (s.counter i)
    some ⟨Function.update s.counter i r.2, (i, r.1) :: s.produced, s.assigned⟩
  | .assign i id =>
    some ⟨Function.update s.counter i (updateNextId (s.counter i) id), s.produced,
      (i, id) :: s.assigned⟩

/-- Fewer than `2 ^ 36` ids are produced in total, and an assigned id was produced by one of the
endpoints. -/
def IdOp.legal (s : IdState ι) : IdOp ι → Prop
  | .next _ => s.produced.length + 1 < 2 ^ 36
  | .assign _ id => id ∈ s.produced.map Prod.snd

instance IdOp.decidableLegal (s : IdState ι) : ∀ op : IdOp ι, Decidable (op.legal s)
  | .next _ => inferInstanceAs (Decidable (s.produced.length + 1 < 2 ^ 36))
  | .assign _ id => inferInstanceAs (Decidable (id ∈ s.produced.map Prod.snd))

/-- Position of a number in the order in which a counter that starts at 64 issues the numbers. -/
def issueOrder (n : Nat) : Nat := (n + 2 ^ 36 - 64) % 2 ^ 36

/-- An assignment that raises the counter is of an id not before the last issued one; one that
leaves the counter is of an id the counter has passed. -/
def IdOp.ordered (s : IdState ι) : IdOp ι → Prop
  | .next _ => True
  | .assign i id =>
    if s.counter i < updateTarget id then
      issueOrder (counterNumber (s.counter i)) ≤ issueOrder (idNumber id) + 1
    else issueOrder (idNumber id) < issueOrder (counterNumber (s.counter i))

instance IdOp.decidableOrdered (s : IdState ι) : ∀ op : IdOp ι, Decidable (op.ordered s)
  | .next _ => inferInstanceAs (Decidable True)
  | .assign i id => inferInstanceAs (Decidable (if s.counter i < updateTarget id then
        issueOrder (counterNumber (s.counter i)) ≤ issueOrder (idNumber id) + 1
      else issueOrder (idNumber id) < issueOrder (counterNumber (s.counter i))))

theorem issueOrder_succ {n : Nat} (h : issueOrder (n % 2 ^ 36) + 1 < 2 ^ 36) :
    issueOrder ((n + 1) % 2 ^ 36) = issueOrder (n % 2 ^ 36) + 1 := by
  unfold issueOrder at *
  omega

/-- A counter that is not further, in value and in issue order, than `N` issued ids allow. -/
structure CounterBounds (N : Nat) (c : UInt64) : Prop where
  lower : 64 ≤ c.toNat
  upper : c.toNat ≤ 16 * 2 ^ 36 + 64 + N
  order_le : issueOrder (counterNumber c) ≤ N

/-- The invariant of runs whose assignments are in order: every counter is past all ids seen at its
endpoint, and not further than the number of ids issued in total. -/
structure IdInv (tag : UInt64) (s : IdState ι) : Prop where
  total : s.produced.length < 2 ^ 36
  bounds : ∀ i, CounterBounds s.produced.length (s.counter i)
  produced_mkId : ∀ i x, (i, x) ∈ s.produced →
    ∃ n, x = mkId tag n ∧ issueOrder (counterNumber n) < s.produced.length
  seen_lt : ∀ i, ∀ x, s.Seen i x →
    issueOrder (idNumber x) < issueOrder (counterNumber (s.counter i))

variable {N : Nat} {c : UInt64}

theorem CounterBounds.mono {M : Nat} (h : CounterBounds M c) (hMN : M ≤ N) : CounterBounds N c :=
  ⟨h.lower, by have := h.upper; omega, by have := h.order_le; omega⟩

theorem idInv_init (tag : UInt64) : IdInv tag (IdState.init : IdState ι) where
  total := by simp [IdState.init]
  bounds := fun _ => by
    constructor <;> simp [IdState.init, counterNumber, counterCountMin_toNat, issueOrder]
  produced_mkId := fun i x h => by simp [IdState.init] at h
  seen_lt := fun i x h => by simp [IdState.init, IdState.Seen] at h

/-- The counter after an issued id: one further, in value and in issue order. -/
theorem CounterBounds.succ (h : CounterBounds N c) (hN : N + 1 < 2 ^ 36) :
    CounterBounds (N + 1) (c + 1) ∧
      issueOrder (counterNumber (c + 1)) = issueOrder (counterNumber c) + 1 := by
  obtain ⟨hlow, hup, hord⟩ := h
  have hval : (c + 1).toNat = c.toNat + 1 := by
    have hone : (1 : UInt64).toNat = 1 := by decide
    rw [UInt64.toNat_add, hone]
    omega
  -- the bound on issued ids keeps the counter from closing the circle
  have hsucc : issueOrder (counterNumber (c + 1)) = issueOrder (counterNumber c) + 1 := by
    rw [counterNumber, hval]
    exact issueOrder_succ (by rw [counterNumber] at hord; omega)
  exact ⟨⟨by omega, by omega, by omega⟩, hsucc⟩

variable {tag : UInt64}

theorem idInv_next [DecidableEq ι] (htag : tag.toNat < 16) {s : IdState ι} {i : ι}
    (hinv : IdInv tag s) (hlegal : s.produced.length + 1 < 2 ^ 36) :
    IdInv tag ⟨Function.update s.counter i (s.counter i + 1),
      (i, mkId tag (s.counter i)) :: s.produced, s.assigned⟩ := by
  obtain ⟨hbounds, hord⟩ := (hinv.bounds i).succ hlegal
  refine ⟨hlegal, ?_, ?_, ?_⟩
  · refine (Function.forall_update_iff _ fun _ c => CounterBounds _ c).2 ⟨hbounds, ?_⟩
    intro j _
    exact (hinv.bounds j).mono (Nat.le_succ _)
  · -- every issued id is built from a counter value, the new one from the counter before the step
    intro j x hx
    simp only [List.length_cons]
    rcases List.mem_cons.1 hx with hx | hx
    · cases hx
      exact ⟨s.counter i, rfl, Nat.lt_succ_of_le (hinv.bounds i).order_le⟩
    · obtain ⟨n, rfl, hn⟩ := hinv.produced_mkId j x hx
      exact ⟨n, rfl, Nat.lt_succ_of_lt hn⟩
  · intro j x hx
    -- only the counter of endpoint `i` moves, and it moves past its own id
    by_cases hj : j = i
    · subst hj
      simp only [Function.update_self, hord, Nat.lt_succ_iff_lt_or_eq]
      rcases hx with hx | hx
      · rcases List.mem_cons.1 hx with hx | hx
        · cases hx
          exact .inr (by rw [idNumber_mkId tag _ htag])
        · exact .inl (hinv.seen_lt j x (.inl hx))
      · exact .inl (hinv.seen_lt j x (.inr hx))
    · simp only [Function.update_of_ne hj]
      refine hinv.seen_lt j x ?_
      rcases hx with hx | hx
      · rcases List.mem_cons.1 hx with hx | hx
        · cases hx
          exact absurd rfl hj
        · exact .inl hx
      · exact .inr hx

/-- An assignment in order keeps the bounds, does not move the counter back, and moves it past the
assigned id. The id is one of the `N` issued ones. -/
theorem CounterBounds.updateNextId {n : UInt64} (htag : tag.toNat < 16) (hN : N < 2 ^ 36)
    (h : CounterBounds N c) (hn : issueOrder (counterNumber n) < N)
    (hordered : if c < updateTarget (mkId tag n)
      then issueOrder (counterNumber c) ≤ issueOrder (counterNumber n) + 1
      else issueOrder (counterNumber n) < issueOrder (counterNumber c)) :
    CounterBounds N (updateNextId c (mkId tag n)) ∧
      issueOrder (counterNumber c) ≤ issueOrder (counterNumber (updateNextId c (mkId tag n))) ∧
      issueOrder (counterNumber n) <
        issueOrder (counterNumber (updateNextId c (mkId tag n))) := by
  by_cases hlt : c < updateTarget (mkId tag n)
  · rw [if_pos hlt] at hordered
    rw [Endpoint.updateNextId, if_pos hlt]
    have htarget := updateTarget_toNat tag n htag
    -- the id with the last number has target 0, which never raises a counter
    have hpos : counterNumber n + 1 < 2 ^ 36 := by
      by_contra hlast
      rw [if_neg hlast] at htarget
      rw [UInt64.lt_iff_toNat_lt, htarget] at hlt
      omega
    rw [if_pos hpos] at htarget
    have hsucc : issueOrder (counterNumber (updateTarget (mkId tag n))) =
        issueOrder (counterNumber n) + 1 := by
      -- the bits of the prefix that survive the mask do not change the number
      have hmod : (15 * 2 ^ 36 + counterNumber n + 1) % 2 ^ 36
          = (counterNumber n + 1) % 2 ^ 36 := by
        omega
      have hself : counterNumber n % 2 ^ 36 = counterNumber n := Nat.mod_mod _ _
      rw [counterNumber, htarget, hmod, issueOrder_succ (by rw [hself]; omega), hself]
    exact ⟨⟨by omega, by omega, by omega⟩, by omega, by omega⟩
  · -- the counter stays, and the order says that it has passed the id already
    rw [if_neg hlt] at hordered
    rw [Endpoint.updateNextId, if_neg hlt]
    exact ⟨h, Nat.le_refl _, hordered⟩

theorem idInv_assign [DecidableEq ι] (htag : tag.toNat < 16) {s : IdState ι} {i : ι} {id : Ptr}
    (hinv : IdInv tag s) (hlegal : (IdOp.assign i id).legal s)
    (hordered : (IdOp.assign i id).ordered s) :
    IdInv tag ⟨Function.update s.counter i (updateNextId (s.counter i) id), s.produced,
      (i, id) :: s.assigned⟩ := by
  -- an assigned id was issued by some endpoint
  obtain ⟨⟨k, _⟩, hmem, rfl⟩ := List.mem_map.1 hlegal
  obtain ⟨n, rfl, hn⟩ := hinv.produced_mkId k _ hmem
  simp only [IdOp.ordered, idNumber_mkId tag n htag] at hordered
  obtain ⟨hbounds, hle, hlt⟩ := (hinv.bounds i).updateNextId htag hinv.total hn hordered
  refine ⟨hinv.total, ?_, hinv.produced_mkId, ?_⟩
  · refine (Function.forall_update_iff _ fun _ c => CounterBounds _ c).2 ⟨hbounds, ?_⟩
    intro j _
    exact hinv.bounds j
  · intro j x hx
    by_cases hj : j = i
    · subst hj
      simp only [Function.update_self]
      rcases hx with hx | hx
      · exact lt_of_lt_of_le (hinv.seen_lt j x (.inl hx)) hle
      · rcases List.mem_cons.1 hx with hx | hx
        · cases hx
          rwa [idNumber_mkId tag n htag]
        · exact lt_of_lt_of_le (hinv.seen_lt j x (.inr hx)) hle
    · simp only [Function.update_of_ne hj]
      refine hinv.seen_lt j x ?_
      rcases hx with hx | hx
      · exact .inl hx
      · rcases List.mem_cons.1 hx with hx | hx
        · cases hx
          exact absurd rfl hj
        · exact .inr hx

theorem idInv_step [DecidableEq ι] (htag : tag.toNat < 16) (s : IdState ι) (op : IdOp ι)
    (t : IdState ι) (hinv : IdInv tag s) (hok : op.legal s ∧ op.ordered s)
    (hstep : idStep tag s op = some t) : IdInv tag t := by
  cases op with
  | next i =>
    rw [idStep, nextId_of_min_le tag (hinv.bounds i).lower] at hstep
    cases hstep
    exact idInv_next htag hinv hok.1
  | assign i id =>
    cases hstep
    exact idInv_assign htag hinv hok.1 hok.2

/-- In a run whose assignments are all in order, an endpoint's next id is one that it neither
returned nor had assigned before. -/
theorem nextId_fresh_of_ordered [DecidableEq ι] {tag : UInt64} (htag : tag.toNat < 16)
    {s : IdState ι}
    (hrun : Reaches (idStep tag) (fun s op => op.legal s ∧ op.ordered s) IdState.init s)
    (i : ι) : ¬ s.Seen i (nextId tag (s.counter i)).1 := by
  have hinv : IdInv tag s := Reaches.invariant (idInv_step htag) hrun (idInv_init tag)
  rw [nextId_of_min_le tag (hinv.bounds i).lower]
  intro hseen
  -- a seen id is before the counter in issue order, the next id is at the counter
  have hlt := hinv.seen_lt i _ hseen
  rw [idNumber_mkId tag _ htag] at hlt
  exact Nat.lt_irrefl _ hlt

/-- The worker tag, one id issued at endpoint `true` and assigned at endpoint `false`. -/
theorem nextId_fresh_after_migration :
    ∃ s : IdState Bool,
      runGuarded (idStep 1) (fun s op => op.legal s ∧ op.ordered s) IdState.init
        [.next true, .assign false (mkId 1 64)] = some s ∧
      s.Seen false (mkId 1 64) ∧ ¬ s.Seen false (nextId 1 (s.counter false)).1 := by
  refine ⟨_, rfl, .inr (List.mem_cons_self ..), ?_⟩
  exact nextId_fresh_of_ordered (by decide)
    (Reaches.of_runGuarded [.next true, .assign false (mkId 1 64)] rfl) false

/-- Two ids are issued, the first one is assigned again, and the next id issued is the second one:
the assignment set the counter to `15 * 2 ^ 36 + 65`, whose number is 65. -/
theorem nextId_repeats_after_assign :
    ∃ s : IdState Unit,
      Reaches (idStep 1) (fun s op => op.legal s) IdState.init s ∧
        s.Seen () (nextId 1 (s.counter ())).1 := by
  refine ⟨_, Reaches.of_runGuarded [.next (), .next (), .assign () (mkId 1 64)] rfl, ?_⟩
  exact .inl (List.mem_cons_self ..)

end Ava.Endpoint
