import Ava.Endpoint.CallLife

/-!
# Replies reach their own call

What is observed of a call follows from its stage: its record is added, the worker replies, the
record is removed from the call map, gets the value of this reply and is freed, by the handler if
the stub was asynchronous and by the stub if it was synchronous, which then returns the value.
`replies_reach_own_call` says so of every state that the guest reaches.
-/

set_option autoImplicit false

namespace Ava.Endpoint

open Ava.Lib

/-- The events of a call so far: a beginning of all its events, of which the return value is not
known before the worker's reply. -/
def IsHistory {τ ρ : Type} (id : Nat) (events : List (CallEvent τ ρ)) : Prop :=
  ∃ t async record, events <+: [.called id t async, .added id record] ∨
    ∃ ret, events <+: Life.allEvents id t async record ret

theorem Life.isHistory {τ ρ : Type} {id : Nat} {l : Life τ ρ} (hl : l ≠ .unused) :
    IsHistory id (l.events id) := by
  cases l with
  | unused => exact absurd rfl hl
  | called t async => exact ⟨t, async, 0, .inl ⟨[_], rfl⟩⟩
  | named t async => exact ⟨t, async, 0, .inl ⟨[_], rfl⟩⟩
  | added t async r => exact ⟨t, async, r, .inl ⟨[], rfl⟩⟩
  | sent t mode r place =>
    refine ⟨t, mode.isAsync, r, ?_⟩
    cases place with
    | worker => exact .inl ⟨[], rfl⟩
    | channel ret => exact .inr ⟨ret, _, rfl⟩
    | queue ret => exact .inr ⟨ret, _, rfl⟩
  | handling t async r ret stage =>
    refine ⟨t, async, r, .inr ⟨ret, ?_⟩⟩
    cases stage <;> exact ⟨_, rfl⟩
  | releasing t r ret => exact ⟨t, true, r, .inr ⟨ret, _, rfl⟩⟩
  | handled t r ret => exact ⟨t, false, r, .inr ⟨ret, _, rfl⟩⟩
  | returning t r ret => exact ⟨t, false, r, .inr ⟨ret, _, rfl⟩⟩
  | freeing t r ret => exact ⟨t, false, r, .inr ⟨ret, _, rfl⟩⟩
  | done t async r ret => exact ⟨t, async, r, .inr ⟨ret, [], List.append_nil _⟩⟩

theorem Life.record_of_added {τ ρ : Type} {id r : Nat} {l : Life τ ρ}
    (h : .added id r ∈ l.events id) : ∃ x, l.record = some (r, x) := by
  cases l with
  | sent t mode r place => cases place <;> simp [events] at h <;> exact ⟨_, by rw [h]; rfl⟩
  | handling t async r ret stage => cases stage <;> simp [events] at h <;> exact ⟨_, by rw [h]; rfl⟩
  | done t async r ret =>
    cases async <;> simp [events, allEvents] at h <;> exact ⟨_, by rw [h]; rfl⟩
  | _ => simp [events] at h <;> exact ⟨_, by rw [h]; rfl⟩

/-- Every thread is back in its program, and no call or reply is on its way. -/
structure Guest.Settled {τ ρ : Type} [DecidableEq τ] (s : Guest τ ρ) : Prop where
  stub : ∀ t, s.stub t = none
  handler : ∀ t, s.handler t = none
  sent : s.sent = []
  replies : s.replies = []
  queues : ∀ t q, s.threads.lookup t = some q → q = []

section Observed

variable {τ ρ : Type} [DecidableEq τ] {s : Guest τ ρ} {life : Nat → Life τ ρ} {c : Nat}

/-- In a settled state all calls are done. -/
theorem Refines.done_of_settled (h : Refines s life) (hs : s.Settled) (hc : c < s.counter) :
    ∃ t async record ret, life c = .done t async record ret := by
  have hstub : ∀ {t p}, p.callId = c → (life c).stub c = some (t, p) → False := by
    rintro t p rfl hp
    have hin := (h.stubs t p).2 hp
    rw [hs.stub t] at hin
    exact nomatch hin
  have hhandler : ∀ {t k}, k.callId = c → (life c).handler c = some (t, k) → False := by
    rintro t k rfl hk
    have hin := (h.handlers t k).2 hk
    rw [hs.handler t] at hin
    exact nomatch hin
  cases hl : life c with
  | unused => exact absurd ((h.unused c).1 hl) (Nat.not_le.2 hc)
  | called t async => exact (hstub rfl (congrArg (Life.stub c) hl)).elim
  | named t async => exact (hstub rfl (congrArg (Life.stub c) hl)).elim
  | added t async r => exact (hstub rfl (congrArg (Life.stub c) hl)).elim
  | sent t mode r place =>
    cases place with
    | worker =>
      have hin := (h.sent.2 (c, t)).2 (congrArg (Life.atWorker c) hl)
      rw [hs.sent] at hin
      exact nomatch hin
    | channel ret =>
      have hin := (h.replies.2 ⟨c, t, ret⟩).2 (congrArg (Life.inChannel c) hl)
      rw [hs.replies] at hin
      exact nomatch hin
    | queue ret =>
      have hknown : (s.threads.lookup t).isSome := h.known c t (hl ▸ rfl)
      obtain ⟨q, hq⟩ := Option.isSome_iff_exists.1 hknown
      have hfilter : Life.inQueueOf t c (life c) = some ⟨c, t, ret⟩ := by
        simp [Life.inQueueOf, Life.inQueue, Option.filter, hl]
      have hin := ((h.queues t q hq).2 ⟨c, t, ret⟩).2 hfilter
      rw [hs.queues t q hq] at hin
      exact nomatch hin
  | handling t async r ret stage =>
    obtain ⟨k, hk⟩ := h.handler_of_handling hl
    rw [hs.handler t] at hk
    exact nomatch hk
  | releasing t r ret => exact (hhandler rfl (congrArg (Life.handler c) hl)).elim
  | handled t r ret => exact (hstub rfl (congrArg (Life.stub c) hl)).elim
  | returning t r ret => exact (hstub rfl (congrArg (Life.stub c) hl)).elim
  | freeing t r ret => exact (hstub rfl (congrArg (Life.stub c) hl)).elim
  | done t async r ret => exact ⟨t, async, r, ret, rfl⟩

/-- In every state that the guest threads, the worker and the dispatching thread can reach, whatever
the order of their steps: no step of anybody fails an assertion, touches a freed record or meets a
reply for an unknown thread; what has happened to each call is a beginning of the sequence in which
its record is added, the worker replies, this record is removed, gets this reply's value and is
freed, and a synchronous stub then returns that value; no two calls have the same record; and once
all is settled, the sequence of every call is complete. -/
theorem replies_reach_own_call
    (hs : Reaches guestRun (fun s op => op.legal s) (Guest.new : Guest τ ρ) s) :
    (∀ op fault, guestStep s op ≠ some (.error fault)) ∧
      (∀ e ∈ s.trace, e.callId < s.counter) ∧
      (∀ c < s.counter, IsHistory c (s.trace.filter (·.callId = c))) ∧
      (∀ c c' record, .added c record ∈ s.trace → .added c' record ∈ s.trace → c = c') ∧
      (s.Settled → ∀ c < s.counter, ∃ t async record ret,
        s.trace.filter (·.callId = c) = Life.allEvents c t async record ret) := by
  obtain ⟨life, h⟩ := Refines.of_reaches hs
  refine ⟨?_, ?_, ?_, ?_, ?_⟩
  · intro op fault hfault
    by_cases hlegal : op.legal s
    · obtain ⟨_, _, hok, -⟩ := h.step hlegal hfault
      cases hok
    · -- only a call can be illegal, and it has no fault
      cases op with
      | call t async =>
        rw [guestStep] at hfault
        split at hfault
        · cases hfault
        · cases hfault
      | run t => exact hlegal trivial
      | reply k ret => exact hlegal trivial
      | dispatch k => exact hlegal trivial
  · intro e he
    by_contra hge
    have hunused := (h.unused e.callId).2 (Nat.not_lt.1 hge)
    have hevents := h.events e.callId
    rw [view, hunused] at hevents
    have hin : e ∈ s.trace.filter (·.callId = e.callId) :=
      List.mem_filter.2 ⟨he, decide_eq_true rfl⟩
    rw [hevents] at hin
    cases hin
  · intro c hc
    rw [h.events c]
    exact Life.isHistory fun hunused => absurd ((h.unused c).1 hunused) (Nat.not_le.2 hc)
  · intro c c' record hadded hadded'
    have hrecord : ∀ c, .added c record ∈ s.trace → ∃ x, (life c).record = some (record, x) := by
      intro c hin
      have hevents : .added c record ∈ s.trace.filter (·.callId = c) :=
        List.mem_filter.2 ⟨hin, decide_eq_true rfl⟩
      rw [h.events c] at hevents
      exact Life.record_of_added hevents
    obtain ⟨x, hx⟩ := hrecord c hadded
    obtain ⟨x', hx'⟩ := hrecord c' hadded'
    exact h.records.2 c c' record x x' hx hx'
  · intro hsettled c hc
    obtain ⟨t, async, record, ret, hl⟩ := h.done_of_settled hsettled hc
    refine ⟨t, async, record, ret, ?_⟩
    rw [h.events c, view, hl]
    rfl

end Observed

/-- Thread `true` makes an asynchronous and a synchronous call, thread `false` a synchronous one.
The worker replies to the last call first. -/
def interleavedCalls : List (GuestOp Bool Nat) :=
  [.call true true, .run true, .run true, .run true, .call true false, .run true, .run true,
    .run true, .call false false, .run false, .run false, .run false, .reply 2 30, .reply 0 10,
    .reply 0 20, .dispatch 1, .dispatch 1, .dispatch 0] ++
  List.replicate 16 (.run true) ++ List.replicate 9 (.run false)

theorem interleaved_calls_settle :
    ∃ s, runGuarded guestRun (fun s op => op.legal s) Guest.new interleavedCalls = some s ∧
      s.Settled ∧ ∀ c < 3, ∃ t async record ret,
        s.trace.filter (·.callId = c) = Life.allEvents c t async record ret := by
  refine ⟨_, rfl, (fun hsettled => ⟨hsettled, (replies_reach_own_call
    (Reaches.of_runGuarded interleavedCalls rfl)).2.2.2.2 hsettled⟩) ?_⟩
  refine ⟨fun t => by cases t <;> rfl, fun t => by cases t <;> rfl, rfl, rfl, ?_⟩
  intro t q hq
  cases t <;> exact (Option.some.inj hq).symm

end Ava.Endpoint
