import Ava.Endpoint.Freshness

/-!
# Threads that share the id counter

`next_id` and `update_next_id` are called by every thread of an endpoint without a common lock: the
pool has a mutex, but the shadow buffers draw ids of their own. What they share is one atomic
counter. `next_id` is a loop around `atomic_fetch_add`; `update_next_id` loads the counter and, if it
is below the target, tries a compare-and-swap, and starts again if another thread was faster.

The module follows the threads instruction by instruction. Each instruction of a thread either
returns from the call, and then it does to the counter what the whole call does when it runs alone
(`nextId`, `updateNextId`), or it leaves the counter as it is (`Instruction`). So every interleaving
is a run of the operations of `Ava.Endpoint.Freshness`, in the order of their returns, and the
invariant of ordered runs carries over to threads. A call of `update_next_id` can only be kept from
returning by changes of the counter, at most two instructions for each.
-/

set_option autoImplicit false

namespace Ava.Endpoint

open Ava.Lib

variable {τ : Type}

/-- Where a thread is in `next_id` or `update_next_id`: in neither, before the `atomic_fetch_add`,
before the load, or before the compare-and-swap with the value `old` that the load has read. -/
inductive IdThread where
  | idle
  | fetch
  | load (id : Ptr)
  | swap (id : Ptr) (old : UInt64)
deriving DecidableEq

/-- The counter and the threads. The two lists are the history, newest first: the ids that calls of
`next_id` returned, and those that calls of `update_next_id` have dealt with. -/
structure AtomicIds (τ : Type) where
  counter : UInt64
  thread : τ → IdThread
  produced : List (τ × Ptr)
  assigned : List (τ × Ptr)

def AtomicIds.init : AtomicIds τ := ⟨counterCountMin, fun _ => .idle, [], []⟩

/-- A thread enters one of the two functions, or executes its next instruction. -/
inductive IdAction (τ : Type) where
  | callNext (t : τ)
  | callUpdate (t : τ) (id : Ptr)
  | step (t : τ)
deriving DecidableEq

section

variable [DecidableEq τ]

/-- The next atomic instruction of a thread, with the test of the loop condition after it. -/
def AtomicIds.instruction (tag : UInt64) (s : AtomicIds τ) (t : τ) : Option (AtomicIds τ) :=
  match s.thread t with
  | .idle => none
  | .fetch =>
    -- `atomic_fetch_add`
    if s.counter < counterCountMin then some { s with counter := s.counter + 1 }
    else some ⟨s.counter + 1, Function.update s.thread t .idle,
      (t, mkId tag s.counter) :: s.produced, s.assigned⟩
  | .load id =>
    if s.counter < updateTarget id then
      some { s with thread := Function.update s.thread t (.swap id s.counter) }
    else some { s with
      thread := Function.update s.thread t .idle, assigned := (t, id) :: s.assigned }
  | .swap id old =>
    -- `atomic_compare_exchange_strong`
    if s.counter = old then
      some ⟨updateTarget id, Function.update s.thread t .idle, s.produced, (t, id) :: s.assigned⟩
    else some { s with thread := Function.update s.thread t (.load id) }

/-- One action. A thread is in one call at a time. -/
def atomicStep (tag : UInt64) (s : AtomicIds τ) : IdAction τ → Option (AtomicIds τ)
  | .callNext t =>
    if s.thread t = .idle then some { s with thread := Function.update s.thread t .fetch }
    else none
  | .callUpdate t id =>
    if s.thread t = .idle then some { s with thread := Function.update s.thread t (.load id) }
    else none
  | .step t => s.instruction tag t

end

/-- Fewer than `2 ^ 36` ids are produced in total, and an id that `update_next_id` is called with was
produced. -/
def IdAction.legal (s : AtomicIds τ) : IdAction τ → Prop
  | .callNext _ => True
  | .callUpdate _ id => id ∈ s.produced.map Prod.snd
  | .step _ => s.produced.length + 1 < 2 ^ 36

instance IdAction.decidableLegal (s : AtomicIds τ) : ∀ a : IdAction τ, Decidable (a.legal s)
  | .callNext _ => inferInstanceAs (Decidable True)
  | .callUpdate _ id => inferInstanceAs (Decidable (id ∈ s.produced.map Prod.snd))
  | .step _ => inferInstanceAs (Decidable (s.produced.length + 1 < 2 ^ 36))

/-- The state of the operations on one counter, without the threads. -/
def AtomicIds.sequential (s : AtomicIds τ) : IdState Unit where
  counter := fun _ => s.counter
  produced := s.produced.map fun x => ((), x.2)
  assigned := s.assigned.map fun x => ((), x.2)

/-- The operation that a thread is about to finish. -/
def IdThread.op : IdThread → Option (IdOp Unit)
  | .idle => none
  | .fetch => some (.next ())
  | .load id => some (.assign () id)
  | .swap id _ => some (.assign () id)

/-! ## One instruction -/

/-- What is known of a thread: the id of an update was produced, and a thread that goes for the swap
has read a value below its target. -/
def IdThread.Known (produced : List (τ × Ptr)) : IdThread → Prop
  | .idle => True
  | .fetch => True
  | .load id => id ∈ produced.map Prod.snd
  | .swap id old => id ∈ produced.map Prod.snd ∧ old < updateTarget id

/-- The counter is past its start, and so far from `2 ^ 64` that it does not go round. -/
structure AtomicInv (tag : UInt64) (s : AtomicIds τ) : Prop where
  lower : 64 ≤ s.counter.toNat
  upper : s.counter.toNat ≤ 2 ^ 40 + 64 + s.produced.length
  total : s.produced.length < 2 ^ 36
  produced_mkId : ∀ x ∈ s.produced, ∃ n, x.2 = mkId tag n
  known : ∀ t, (s.thread t).Known s.produced

theorem atomicInv_init (tag : UInt64) : AtomicInv tag (AtomicIds.init : AtomicIds τ) where
  lower := by simp [AtomicIds.init, counterCountMin_toNat]
  upper := by simp [AtomicIds.init, counterCountMin_toNat]
  total := by simp [AtomicIds.init]
  produced_mkId := fun x hx => by simp [AtomicIds.init] at hx
  known := fun _ => trivial

theorem IdThread.Known.mono {l : List (τ × Ptr)} {x : τ × Ptr} {p : IdThread} (h : p.Known l) :
    p.Known (x :: l) := by
  cases p with
  | idle => trivial
  | fetch => trivial
  | load id => exact List.mem_cons_of_mem _ h
  | swap id old => exact ⟨List.mem_cons_of_mem _ h.1, h.2⟩

/-- The target of an id that was produced. -/
theorem AtomicInv.updateTarget_le {tag : UInt64} (htag : tag.toNat < 16) {s : AtomicIds τ}
    (hinv : AtomicInv tag s) {id : Ptr} (hid : id ∈ s.produced.map Prod.snd) :
    (updateTarget id).toNat ≤ 2 ^ 40 := by
  obtain ⟨x, hx, rfl⟩ := List.mem_map.1 hid
  obtain ⟨n, hn⟩ := hinv.produced_mkId x hx
  rw [hn, updateTarget_toNat tag n htag]
  split_ifs with hlt
  · omega
  · exact Nat.zero_le _

section

variable [DecidableEq τ] {tag : UInt64} {s s' : AtomicIds τ} {t : τ}

/-- What an instruction can do: return an id, return from an update, or go on in an update. -/
inductive Instruction (tag : UInt64) (s : AtomicIds τ) (t : τ) : AtomicIds τ → Prop where
  | produce (hthread : s.thread t = .fetch) :
      Instruction tag s t ⟨s.counter + 1, Function.update s.thread t .idle,
        (t, mkId tag s.counter) :: s.produced, s.assigned⟩
  | assign (id : Ptr) (c : UInt64) (hop : (s.thread t).op = some (.assign () id))
      (hid : id ∈ s.produced.map Prod.snd) (hc : c = updateNextId s.counter id) :
      Instruction tag s t ⟨c, Function.update s.thread t .idle, s.produced, (t, id) :: s.assigned⟩
  | goOn (id : Ptr) (p : IdThread) (hop : (s.thread t).op = some (.assign () id))
      (hp : p.op = some (.assign () id)) (hknown : p.Known s.produced) :
      Instruction tag s t { s with thread := Function.update s.thread t p }

theorem instruction_cases (hinv : AtomicInv tag s) (h : s.instruction tag t = some s') :
    Instruction tag s t s' := by
  have hknown := hinv.known t
  rw [AtomicIds.instruction] at h
  cases hthread : s.thread t with
  | idle =>
    rw [hthread] at h
    cases h
  | fetch =>
    -- the counter has left the values below `counter_count_min` behind
    have hmin : ¬ s.counter < counterCountMin := by
      rw [UInt64.lt_iff_toNat_lt, counterCountMin_toNat]
      have := hinv.lower
      omega
    simp only [hthread, if_neg hmin, Option.some.injEq] at h
    rw [← h]
    exact .produce hthread
  | load id =>
    rw [hthread] at hknown
    simp only [hthread] at h
    split_ifs at h with hlt
    · cases h
      exact .goOn id (.swap id s.counter) (by rw [hthread]; rfl) rfl ⟨hknown, hlt⟩
    · cases h
      exact .assign id s.counter (by rw [hthread]; rfl) hknown
        (by rw [updateNextId, if_neg hlt])
  | swap id old =>
    rw [hthread] at hknown
    simp only [hthread] at h
    split_ifs at h with heq
    · cases h
      -- the counter is what the load has read, so it is still below the target
      exact .assign id (updateTarget id) (by rw [hthread]; rfl) hknown.1
        (by rw [updateNextId, if_pos (by rw [heq]; exact hknown.2)])
    · cases h
      exact .goOn id (.load id) (by rw [hthread]; rfl) rfl hknown.1

/-- Threads other than the one that acts keep what is known of them. -/
theorem AtomicInv.known_update (hinv : AtomicInv tag s) {p : IdThread} {l : List (τ × Ptr)}
    (hl : ∀ q : IdThread, q.Known s.produced → q.Known l) (hp : p.Known l) (u : τ) :
    (Function.update s.thread t p u).Known l := by
  by_cases hu : u = t
  · subst hu
    rwa [Function.update_self]
  · rw [Function.update_of_ne hu]
    exact hl _ (hinv.known u)

theorem Instruction.atomicInv (htag : tag.toNat < 16) (hinv : AtomicInv tag s)
    (hbound : s.produced.length + 1 < 2 ^ 36) (h : Instruction tag s t s') : AtomicInv tag s' := by
  have hone : (1 : UInt64).toNat = 1 := by decide
  have hlow := hinv.lower
  have hup := hinv.upper
  cases h with
  | produce hthread =>
    have hval : (s.counter + 1).toNat = s.counter.toNat + 1 := by
      rw [UInt64.toNat_add, hone]
      omega
    refine ⟨by rw [hval]; omega, by rw [hval, List.length_cons]; omega, hbound, ?_, ?_⟩
    · intro x hx
      rcases List.mem_cons.1 hx with rfl | hx
      · exact ⟨s.counter, rfl⟩
      · exact hinv.produced_mkId x hx
    · exact hinv.known_update (fun _ hq => hq.mono) trivial
  | assign id c hop hid hc =>
    have htarget := hinv.updateTarget_le htag hid
    have hbounds : 64 ≤ c.toNat ∧ c.toNat ≤ 2 ^ 40 + 64 + s.produced.length := by
      rw [hc, updateNextId]
      split_ifs with hlt
      · rw [UInt64.lt_iff_toNat_lt] at hlt
        omega
      · exact ⟨hlow, hup⟩
    exact ⟨hbounds.1, hbounds.2, hinv.total, hinv.produced_mkId,
      hinv.known_update (fun _ hq => hq) trivial⟩
  | goOn id p hop hp hknown =>
    exact ⟨hlow, hup, hinv.total, hinv.produced_mkId,
      hinv.known_update (fun _ hq => hq) hknown⟩

variable {a : IdAction τ}

/-- A call is only entered, and any other action is an instruction. -/
theorem atomicStep_cases (h : atomicStep tag s a = some s') :
    (∃ t, a = .step t ∧ s.instruction tag t = some s') ∨
      ∃ t p, s' = { s with thread := Function.update s.thread t p } ∧
        (a.legal s → p.Known s.produced) := by
  cases a with
  | callNext t =>
    rw [atomicStep] at h
    split_ifs at h
    exact .inr ⟨t, .fetch, (Option.some.inj h).symm, fun _ => trivial⟩
  | callUpdate t id =>
    rw [atomicStep] at h
    split_ifs at h
    exact .inr ⟨t, .load id, (Option.some.inj h).symm, fun hlegal => hlegal⟩
  | step t => exact .inl ⟨t, rfl, h⟩

theorem atomicInv_step (htag : tag.toNat < 16) (s : AtomicIds τ) (a : IdAction τ)
    (s' : AtomicIds τ) (hinv : AtomicInv tag s) (hlegal : a.legal s)
    (h : atomicStep tag s a = some s') : AtomicInv tag s' := by
  rcases atomicStep_cases h with ⟨t, rfl, h⟩ | ⟨t, p, rfl, hp⟩
  · exact (instruction_cases hinv h).atomicInv htag hinv hlegal
  · exact ⟨hinv.lower, hinv.upper, hinv.total, hinv.produced_mkId,
      hinv.known_update (fun _ hq => hq) (hp hlegal)⟩

/-! ## Runs of threads are runs of operations -/

/-- An instruction that returns does what its operation does, and any other leaves the counter and
the history alone. -/
theorem Instruction.sequential (hinv : AtomicInv tag s) (h : Instruction tag s t s') :
    (∃ op, (s.thread t).op = some op ∧ s'.thread t = .idle ∧
        idStep tag s.sequential op = some s'.sequential) ∨
      ((s'.thread t).op = (s.thread t).op ∧ s'.sequential = s.sequential) := by
  cases h with
  | produce hthread =>
    refine .inl ⟨.next (), by rw [hthread]; rfl, Function.update_self .., ?_⟩
    rw [idStep]
    simp only [AtomicIds.sequential, nextId_of_min_le tag hinv.lower, Option.some.injEq,
      IdState.mk.injEq, List.map_cons, and_true]
    funext u
    simp
  | assign id c hop hid hc =>
    refine .inl ⟨.assign () id, hop, Function.update_self .., ?_⟩
    rw [idStep]
    simp only [AtomicIds.sequential, Option.some.injEq, IdState.mk.injEq, List.map_cons, and_true,
      hc]
    funext u
    simp
  | goOn id p hop hp hknown =>
    refine .inr ⟨?_, rfl⟩
    rw [hop, ← hp]
    simp

omit [DecidableEq τ] in
/-- The operation that an instruction finishes meets the conditions on sequential runs. -/
theorem AtomicInv.legal_op (hinv : AtomicInv tag s) (hbound : s.produced.length + 1 < 2 ^ 36)
    {op : IdOp Unit} (hop : (s.thread t).op = some op) : op.legal s.sequential := by
  have hknown := hinv.known t
  have hids : s.sequential.produced.map Prod.snd = s.produced.map Prod.snd := by
    simp [AtomicIds.sequential]
  cases hthread : s.thread t with
  | idle =>
    rw [hthread] at hop
    cases hop
  | fetch =>
    rw [hthread] at hop
    cases hop
    simpa [IdOp.legal, AtomicIds.sequential] using hbound
  | load id =>
    rw [hthread] at hop hknown
    cases hop
    rw [IdOp.legal, hids]
    exact hknown
  | swap id old =>
    rw [hthread] at hop hknown
    cases hop
    rw [IdOp.legal, hids]
    exact hknown.1

/-- A call changes neither the counter nor the history, and an instruction is one operation or none
at all. So a run of threads is a run of operations, each of which meets what is known of the
operations that instructions finish. -/
theorem sequential_reaches (htag : tag.toNat < 16) {ok : AtomicIds τ → IdAction τ → Prop}
    {G : IdState Unit → IdOp Unit → Prop} (hok : ∀ s a, ok s a → a.legal s)
    (hG : ∀ s t s' op, AtomicInv tag s → ok s (.step t) → atomicStep tag s (.step t) = some s' →
      (s.thread t).op = some op → s'.thread t = .idle → G s.sequential op)
    (hrun : Reaches (atomicStep tag) ok AtomicIds.init s) :
    AtomicInv tag s ∧ Reaches (idStep tag) G IdState.init s.sequential := by
  refine Reaches.invariant (I := fun s => AtomicInv tag s ∧
    Reaches (idStep tag) G IdState.init s.sequential) ?_ hrun ⟨atomicInv_init tag, .refl⟩
  rintro s a s' ⟨hinv, hseq⟩ ha hstep
  refine ⟨atomicInv_step htag s a s' hinv (hok s a ha) hstep, ?_⟩
  rcases atomicStep_cases hstep with ⟨t, rfl, hinstruction⟩ | ⟨t, p, rfl, -⟩
  · rcases (instruction_cases hinv hinstruction).sequential hinv with
      ⟨op, hop, hidle, hs'⟩ | ⟨-, hs'⟩
    · exact hseq.tail ⟨op, hG s t s' op hinv ha hstep hop hidle, hs'⟩
    · rw [hs']
      exact hseq
  · exact hseq

/-- The calls of any number of threads take effect one after the other: what the threads have done
is a run of whole operations, and each instruction either finishes the operation of its thread, and
then it is the next one of that run, or changes nothing that another thread or the history shows. -/
theorem threads_linearize (htag : tag.toNat < 16)
    (hrun : Reaches (atomicStep tag) (fun s a => a.legal s) AtomicIds.init s) :
    Reaches (idStep tag) (fun s op => op.legal s) IdState.init s.sequential ∧
      ∀ t s', atomicStep tag s (.step t) = some s' →
        (∃ op, (s.thread t).op = some op ∧ s'.thread t = .idle ∧
            idStep tag s.sequential op = some s'.sequential) ∨
          ((s'.thread t).op = (s.thread t).op ∧ s'.sequential = s.sequential) := by
  obtain ⟨hinv, hseq⟩ := sequential_reaches htag (G := fun s op => op.legal s) (fun _ _ h => h)
    (fun s t s' op hinv hbound _ hop _ => hinv.legal_op hbound hop) hrun
  exact ⟨hseq, fun t s' hstep => (instruction_cases hinv hstep).sequential hinv⟩

/-- Two threads draw an id each, and the first one is then given to `update_next_id`, which needs a
load and a swap. -/
theorem threads_linearize_two :
    ∃ s : AtomicIds Bool,
      runGuarded (atomicStep 1) (fun s a => a.legal s) AtomicIds.init
        [.callNext true, .callNext false, .step false, .step true, .callUpdate true (mkId 1 64),
          .step true, .step true] = some s ∧
      s.produced = [(true, mkId 1 65), (false, mkId 1 64)] ∧
      Reaches (idStep 1) (fun s op => op.legal s) IdState.init s.sequential := by
  refine ⟨_, rfl, rfl, (threads_linearize (by decide) (Reaches.of_runGuarded [.callNext true,
    .callNext false, .step false, .step true, .callUpdate true (mkId 1 64), .step true, .step true]
    rfl)).1⟩

/-- Every update that an action finishes is in order, as in sequential runs. -/
def IdAction.ordered (tag : UInt64) (s : AtomicIds τ) : IdAction τ → Prop
  | .step t => ∀ s' ∈ s.instruction tag t, ∀ op ∈ (s.thread t).op, s'.thread t = .idle →
      op.ordered s.sequential
  | _ => True

instance IdAction.decidableOrdered (tag : UInt64) (s : AtomicIds τ) :
    ∀ a : IdAction τ, Decidable (a.ordered tag s)
  | .callNext _ => inferInstanceAs (Decidable True)
  | .callUpdate _ _ => inferInstanceAs (Decidable True)
  | .step t => inferInstanceAs (Decidable (∀ s' ∈ s.instruction tag t, ∀ op ∈ (s.thread t).op,
      s'.thread t = .idle → op.ordered s.sequential))

/-- What threads with updates in order leave is a state of sequential runs in order. -/
theorem idInv_sequential (htag : tag.toNat < 16)
    (hrun : Reaches (atomicStep tag) (fun s a => a.legal s ∧ a.ordered tag s) AtomicIds.init s) :
    AtomicInv tag s ∧ IdInv tag s.sequential := by
  obtain ⟨hinv, hseq⟩ := sequential_reaches htag (G := fun s op => op.legal s ∧ op.ordered s)
    (fun _ _ h => h.1)
    (fun s t s' op hinv hok hstep hop hidle =>
      ⟨hinv.legal_op hok.1 hop, hok.2 s' hstep op hop hidle⟩) hrun
  exact ⟨hinv, Reaches.invariant (idInv_step htag) hseq (idInv_init tag)⟩

omit [DecidableEq τ] in
theorem mkId_counter_fresh (htag : tag.toNat < 16) (hseq : IdInv tag s.sequential) :
    mkId tag s.counter ∉ s.produced.map Prod.snd ∧
      mkId tag s.counter ∉ s.assigned.map Prod.snd := by
  have hnot : ¬ s.sequential.Seen () (mkId tag s.counter) := by
    intro hseen
    have hlt := hseq.seen_lt () _ hseen
    rw [idNumber_mkId tag _ htag] at hlt
    exact Nat.lt_irrefl _ hlt
  constructor
  · intro hmem
    obtain ⟨x, hx, heq⟩ := List.mem_map.1 hmem
    exact hnot (.inl (List.mem_map.2 ⟨x, hx, by rw [heq]⟩))
  · intro hmem
    obtain ⟨x, hx, heq⟩ := List.mem_map.1 hmem
    exact hnot (.inr (List.mem_map.2 ⟨x, hx, by rw [heq]⟩))

/-- An action leaves the produced ids, or adds the id at the counter. -/
theorem produced_of_atomicStep (hinv : AtomicInv tag s) (hstep : atomicStep tag s a = some s') :
    s'.produced = s.produced ∨ ∃ t, s'.produced = (t, mkId tag s.counter) :: s.produced := by
  rcases atomicStep_cases hstep with ⟨t, -, hinstruction⟩ | ⟨t, p, rfl, -⟩
  · cases instruction_cases hinv hinstruction with
    | produce hthread => exact .inr ⟨t, rfl⟩
    | assign id c hop hid hc => exact .inl rfl
    | goOn id p hop hp hknown => exact .inl rfl
  · exact .inl rfl

/-- Threads that share the counter never get the same id, and never one that was assigned before,
if their updates are in order. -/
theorem threads_get_distinct_ids (htag : tag.toNat < 16)
    (hrun : Reaches (atomicStep tag) (fun s a => a.legal s ∧ a.ordered tag s) AtomicIds.init s) :
    (s.produced.map Prod.snd).Nodup ∧
      ∀ t s' id, atomicStep tag s (.step t) = some s' → s'.produced = (t, id) :: s.produced →
        id ∉ s.produced.map Prod.snd ∧ id ∉ s.assigned.map Prod.snd := by
  constructor
  · induction hrun with
    | refl => exact List.nodup_nil
    | @tail s s' hrun hlast ih =>
      obtain ⟨hinv, hseq⟩ := idInv_sequential htag hrun
      obtain ⟨a, -, hstep⟩ := hlast
      rcases produced_of_atomicStep hinv hstep with heq | ⟨t, heq⟩
      · rw [heq]
        exact ih
      · rw [heq, List.map_cons, List.nodup_cons]
        exact ⟨(mkId_counter_fresh htag hseq).1, ih⟩
  · intro t s' id hstep hid
    obtain ⟨hinv, hseq⟩ := idInv_sequential htag hrun
    rcases produced_of_atomicStep hinv hstep with heq | ⟨u, heq⟩
    · -- a list is not its own tail
      rw [heq] at hid
      exact absurd (congrArg List.length hid) (by simp)
    · rw [hid, List.cons.injEq, Prod.mk.injEq] at heq
      rw [heq.1.2]
      exact mkId_counter_fresh htag hseq

/-- Two threads draw an id each, the one that called last first. -/
theorem threads_get_distinct_ids_two :
    ∃ s : AtomicIds Bool,
      runGuarded (atomicStep 1) (fun s a => a.legal s ∧ a.ordered 1 s) AtomicIds.init
        [.callNext true, .callNext false, .step false, .step true] = some s ∧
      s.produced.length = 2 ∧ (s.produced.map Prod.snd).Nodup := by
  refine ⟨_, rfl, rfl, (threads_get_distinct_ids (by decide) (Reaches.of_runGuarded
    [.callNext true, .callNext false, .step false, .step true] rfl)).1⟩

/-! ## How long an update can take -/

/-- How often the counter changes along a run. -/
def counterChanges (tag : UInt64) : AtomicIds τ → List (IdAction τ) → Nat
  | _, [] => 0
  | s, a :: as =>
    (atomicStep tag s a).elim 0 fun s' =>
      (if s'.counter = s.counter then 0 else 1) + counterChanges tag s' as

/-- What an update has ahead of it, as long as the counter does not change: a thread before a swap
that will fail has used up one change already. -/
def AtomicIds.updateRank (s : AtomicIds τ) (t : τ) : Nat :=
  match s.thread t with
  | .load _ => 1
  | .swap _ old => if s.counter = old then 2 else 0
  | _ => 3

omit [DecidableEq τ] in
/-- An action of another thread: it takes at most two from the rank, and only by changing the
counter. -/
theorem updateRank_of_other (hthread : s'.thread t = s.thread t) :
    s.updateRank t ≤ 2 * (if s'.counter = s.counter then 0 else 1) + s'.updateRank t := by
  rw [AtomicIds.updateRank, AtomicIds.updateRank, hthread]
  cases s.thread t with
  | idle => simp
  | fetch => simp
  | load id => simp
  | swap id old =>
    by_cases hc : s'.counter = s.counter
    · simp [hc]
    · simp only [hc, if_false]
      split_ifs <;> omega

/-- An instruction of the update itself adds one to the rank. -/
theorem updateRank_of_instruction (hthread : s.thread t ≠ .fetch)
    (h : s.instruction tag t = some s') :
    1 + s.updateRank t ≤ s'.updateRank t ∧ s'.thread t ≠ .fetch := by
  rw [AtomicIds.instruction] at h
  cases hp : s.thread t with
  | idle =>
    rw [hp] at h
    cases h
  | fetch => exact absurd hp hthread
  | load id =>
    simp only [hp] at h
    split_ifs at h with hlt
    · cases h
      simp [AtomicIds.updateRank, hp]
    · cases h
      simp [AtomicIds.updateRank, hp]
  | swap id old =>
    simp only [hp] at h
    split_ifs at h with heq
    · cases h
      simp [AtomicIds.updateRank, hp, heq]
    · cases h
      simp [AtomicIds.updateRank, hp, heq]

/-- The actions that leave a thread in the call it is in. -/
def IdAction.NoCallOf (t : τ) : IdAction τ → Prop
  | .callNext u => u ≠ t
  | .callUpdate u _ => u ≠ t
  | .step _ => True

/-- An instruction changes the phase of its own thread only. -/
theorem thread_of_instruction {u : τ} (hne : t ≠ u) (h : s.instruction tag u = some s') :
    s'.thread t = s.thread t := by
  rw [AtomicIds.instruction] at h
  cases hp : s.thread u with
  | idle =>
    rw [hp] at h
    cases h
  | fetch | load _ | swap _ _ =>
    simp only [hp] at h
    split_ifs at h <;> cases h
    · first | rfl | exact Function.update_of_ne hne ..
    · exact Function.update_of_ne hne ..

theorem updateRank_step (ha : a.NoCallOf t) (hthread : s.thread t ≠ .fetch)
    (h : atomicStep tag s a = some s') :
    (if a = .step t then 1 else 0) + s.updateRank t ≤
        2 * (if s'.counter = s.counter then 0 else 1) + s'.updateRank t ∧
      s'.thread t ≠ .fetch := by
  have hother : s'.thread t = s.thread t → a ≠ .step t →
      (if a = .step t then 1 else 0) + s.updateRank t ≤
          2 * (if s'.counter = s.counter then 0 else 1) + s'.updateRank t ∧
        s'.thread t ≠ .fetch := by
    intro hsame hne
    rw [if_neg hne, Nat.zero_add]
    exact ⟨updateRank_of_other hsame, by rwa [hsame]⟩
  cases a with
  | callNext u =>
    rw [atomicStep] at h
    split_ifs at h
    cases h
    exact hother (Function.update_of_ne (Ne.symm ha) ..) (by simp)
  | callUpdate u id =>
    rw [atomicStep] at h
    split_ifs at h
    cases h
    exact hother (Function.update_of_ne (Ne.symm ha) ..) (by simp)
  | step u =>
    by_cases hu : u = t
    · subst hu
      obtain ⟨hrank, hfetch⟩ := updateRank_of_instruction hthread h
      rw [if_pos rfl]
      exact ⟨by omega, hfetch⟩
    · exact hother (thread_of_instruction (Ne.symm hu) h) (by simpa using hu)

theorem updateRank_run {as : List (IdAction τ)} (has : ∀ a ∈ as, a.NoCallOf t)
    (hthread : s.thread t ≠ .fetch) (h : as.foldlM (atomicStep tag) s = some s') :
    as.count (.step t) + s.updateRank t ≤ 2 * counterChanges tag s as + s'.updateRank t ∧
      s'.thread t ≠ .fetch := by
  induction as generalizing s with
  | nil =>
    cases h
    exact ⟨by simp [counterChanges], hthread⟩
  | cons a as ih =>
    rw [List.foldlM_cons] at h
    obtain ⟨u, hu, hrest⟩ := Option.bind_eq_some_iff.1 h
    obtain ⟨hrank, hfetch⟩ := updateRank_step (has a List.mem_cons_self) hthread hu
    obtain ⟨hind, hlast⟩ := ih (fun b hb => has b (List.mem_cons_of_mem a hb)) hfetch hrest
    refine ⟨?_, hlast⟩
    rw [counterChanges, hu, Option.elim_some, List.count_cons]
    simp only [beq_iff_eq]
    omega

/-- A call of `update_next_id` is never held up by other threads as such: from its first load on, it
executes at most two instructions for each change of the counter and two more, and one less as long
as it has not returned. In particular it returns with its second instruction if nothing changes the
counter meanwhile. -/
theorem update_returns_after_changes {s s' : AtomicIds τ} {t : τ} {id : Ptr}
    {as : List (IdAction τ)} (hload : s.thread t = .load id) (has : ∀ a ∈ as, a.NoCallOf t)
    (hrun : as.foldlM (atomicStep tag) s = some s') :
    as.count (.step t) ≤ 2 * counterChanges tag s as + 2 ∧
      (s'.thread t ≠ .idle → as.count (.step t) ≤ 2 * counterChanges tag s as + 1) := by
  have hfetch : s.thread t ≠ .fetch := by rw [hload]; simp
  have hstart : s.updateRank t = 1 := by rw [AtomicIds.updateRank, hload]
  obtain ⟨hrank, hlast⟩ := updateRank_run has hfetch hrun
  have hle : s'.updateRank t ≤ if s'.thread t = .idle then 3 else 2 := by
    rw [AtomicIds.updateRank]
    cases hp : s'.thread t with
    | idle => simp
    | fetch => exact absurd hp hlast
    | load id => simp
    | swap id old =>
      simp only [reduceCtorEq, if_false]
      split_ifs <;> omega
  constructor
  · split_ifs at hle <;> omega
  · intro hidle
    rw [if_neg hidle] at hle
    omega

/-- A thread is overtaken once between its load and its swap, and returns with its fourth
instruction. -/
theorem update_returns_after_one_change :
    ∃ s s' : AtomicIds Bool,
      runGuarded (atomicStep 1) (fun s a => a.legal s) AtomicIds.init
        [.callNext true, .step true, .callUpdate true (mkId 1 64), .callNext false] = some s ∧
      [IdAction.step true, .step false, .step true, .step true, .step true].foldlM (atomicStep 1) s
        = some s' ∧
      s'.thread true = .idle ∧
      [IdAction.step true, .step false, .step true, .step true, .step true].count (.step true) ≤
        2 * counterChanges 1 s [.step true, .step false, .step true, .step true, .step true]
          + 2 := by
  refine ⟨_, _, rfl, rfl, rfl, ?_⟩
  exact (update_returns_after_changes rfl (by simp [IdAction.NoCallOf]) rfl).1

end

end Ava.Endpoint
