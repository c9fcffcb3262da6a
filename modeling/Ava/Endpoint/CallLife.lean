import Ava.Endpoint.GuestCalls
import Ava.Lib.Family

/-!
# The life of a call

Seen alone, a call goes through a fixed sequence of stages, from the moment its stub takes an id to
the moment its record is freed. A stage says where the call's reply is, what its record holds,
whether the call map has it, what its thread is doing for it and what has been observed of it.

The guest refines that: there is a stage for every call such that the tables, queues, records and
threads are exactly what the stages say, and each step of a thread, of the worker or of the
dispatching thread moves one call to its next stage.
-/

set_option autoImplicit false

namespace Ava.Endpoint

open Ava.Lib
open Function (update update_apply update_self update_idem)

/-- Where the reply to a call is before its handler starts. -/
inductive ReplyPlace (ρ : Type) where
  | worker
  | channel (ret : ρ)
  | queue (ret : ρ)

/-- What the stub of a sent call does: an asynchronous one has returned, a synchronous one tests
whether the call is complete or waits for a command. -/
inductive StubMode where
  | async
  | waiting
  | popping

def StubMode.isAsync : StubMode → Bool
  | .async => true
  | _ => false

/-- The statements of the handler that every reply goes through. -/
inductive HandlerStage where
  | remove
  | copy
  | complete
  | test

/-- The stages of a call of thread `t`. -/
inductive Life (τ ρ : Type) where
  | unused
  | called (t : τ) (async : Bool)
  | named (t : τ) (async : Bool)
  | added (t : τ) (async : Bool) (record : Nat)
  | sent (t : τ) (mode : StubMode) (record : Nat) (place : ReplyPlace ρ)
  | handling (t : τ) (async : Bool) (record : Nat) (ret : ρ) (stage : HandlerStage)
  | releasing (t : τ) (record : Nat) (ret : ρ)
  | handled (t : τ) (record : Nat) (ret : ρ)
  | returning (t : τ) (record : Nat) (ret : ρ)
  | freeing (t : τ) (record : Nat) (ret : ρ)
  | done (t : τ) (async : Bool) (record : Nat) (ret : ρ)

namespace Life

variable {τ ρ : Type}

/-- The record that the call map has for the call. -/
def mapped : Life τ ρ → Option Nat
  | .added _ _ record => some record
  | .sent _ _ record _ => some record
  | .handling _ _ record _ .remove => some record
  | _ => none

/-- The record of the call and its content. -/
def record : Life τ ρ → Option (Nat × Option (CallRecord ρ))
  | .added _ async record => some (record, some ⟨none, async, false⟩)
  | .sent _ mode record _ => some (record, some ⟨none, mode.isAsync, false⟩)
  | .handling _ async record _ .remove => some (record, some ⟨none, async, false⟩)
  | .handling _ async record _ .copy => some (record, some ⟨none, async, false⟩)
  | .handling _ async record ret .complete => some (record, some ⟨some ret, async, false⟩)
  | .handling _ async record ret .test => some (record, some ⟨some ret, async, true⟩)
  | .releasing _ record ret => some (record, some ⟨some ret, true, true⟩)
  | .handled _ record ret => some (record, some ⟨some ret, false, true⟩)
  | .returning _ record ret => some (record, some ⟨some ret, false, true⟩)
  | .freeing _ record ret => some (record, some ⟨some ret, false, true⟩)
  | .done _ _ record _ => some (record, none)
  | _ => none

/-- The call while the worker has not replied to it. -/
def atWorker (id : Nat) : Life τ ρ → Option (Nat × τ)
  | .sent t _ _ .worker => some (id, t)
  | _ => none

/-- The reply while it is not dispatched. -/
def inChannel (id : Nat) : Life τ ρ → Option (Reply τ ρ)
  | .sent t _ _ (.channel ret) => some ⟨id, t, ret⟩
  | _ => none

/-- The reply while it is in a queue. -/
def inQueue (id : Nat) : Life τ ρ → Option (Reply τ ρ)
  | .sent t _ _ (.queue ret) => some ⟨id, t, ret⟩
  | _ => none

/-- The handler that works on the reply. -/
def handler (id : Nat) : Life τ ρ → Option (τ × Handler τ ρ)
  | .handling t _ _ ret .remove => some (t, ⟨⟨id, t, ret⟩, .removeCall⟩)
  | .handling t _ record ret .copy => some (t, ⟨⟨id, t, ret⟩, .copyResults record⟩)
  | .handling t _ record ret .complete => some (t, ⟨⟨id, t, ret⟩, .setComplete record⟩)
  | .handling t _ record ret .test => some (t, ⟨⟨id, t, ret⟩, .testDeallocate record⟩)
  | .releasing t record ret => some (t, ⟨⟨id, t, ret⟩, .deallocate record⟩)
  | _ => none

/-- The thread whose stub is in the call. -/
def stub (id : Nat) : Life τ ρ → Option (τ × Stub ρ)
  | .called t async => some (t, .called id async)
  | .named t async => some (t, .named id async)
  | .added t async record => some (t, .added id async record)
  | .sent t .waiting record _ => some (t, .waiting id record)
  | .sent t .popping record _ => some (t, .popping id record)
  | .handling t false record _ _ => some (t, .waiting id record)
  | .handled t record _ => some (t, .waiting id record)
  | .returning t record _ => some (t, .returning id record)
  | .freeing t record ret => some (t, .freeing id record (some ret))
  | _ => none

/-- The thread that must be known to the pool. -/
def known : Life τ ρ → Option τ
  | .named t _ => some t
  | .added t _ _ => some t
  | .sent t _ _ _ => some t
  | _ => none

/-- All events of a call. -/
def allEvents (id : Nat) (t : τ) (async : Bool) (record : Nat) (ret : ρ) : List (CallEvent τ ρ) :=
  [.called id t async, .added id record, .replied id ret, .removed id record,
    .applied id record ret,
    .freed id record] ++ if async then [] else [.returned id (some ret)]

/-- What has been observed of the call. -/
def events (id : Nat) : Life τ ρ → List (CallEvent τ ρ)
  | .unused => []
  | .called t async => [.called id t async]
  | .named t async => [.called id t async]
  | .added t async record => [.called id t async, .added id record]
  | .sent t mode record .worker => [.called id t mode.isAsync, .added id record]
  | .sent t mode record (.channel ret) | .sent t mode record (.queue ret) =>
    [.called id t mode.isAsync, .added id record, .replied id ret]
  | .handling t async record ret .remove =>
    [.called id t async, .added id record, .replied id ret]
  | .handling t async record ret .copy =>
    [.called id t async, .added id record, .replied id ret, .removed id record]
  | .handling t async record ret _ =>
    [.called id t async, .added id record, .replied id ret, .removed id record,
      .applied id record ret]
  | .releasing t record ret =>
    [.called id t true, .added id record, .replied id ret, .removed id record,
      .applied id record ret]
  | .handled t record ret | .returning t record ret | .freeing t record ret =>
    [.called id t false, .added id record, .replied id ret, .removed id record,
      .applied id record ret]
  | .done t async record ret => allEvents id t async record ret

end Life

/-- The reply while it is in the queue of thread `t`. -/
def Life.inQueueOf {τ ρ : Type} [DecidableEq τ] (t : τ) (id : Nat) (l : Life τ ρ) :
    Option (Reply τ ρ) :=
  (l.inQueue id).filter (·.threadId = t)

/-- The state of the guest is what the stages of the calls say. -/
structure Refines {τ ρ : Type} [DecidableEq τ] (s : Guest τ ρ) (life : Nat → Life τ ρ) : Prop where
  unused : ∀ c, life c = .unused ↔ s.counter ≤ c
  mapped : TableOf s.callMap (view (fun _ => Life.mapped) life)
  records : CellsOf s.records (view (fun _ => Life.record) life)
  sent : ListOf s.sent Prod.fst (view Life.atWorker life)
  replies : ListOf s.replies Reply.callId (view Life.inChannel life)
  queues : ∀ t q, s.threads.lookup t = some q → ListOf q Reply.callId (view (Life.inQueueOf t) life)
  registered : ∀ t, s.registered t = (s.threads.lookup t).isSome
  known : ∀ c t, (life c).known = some t → (s.threads.lookup t).isSome
  handlers : HolderOf s.handler Handler.callId (view Life.handler life)
  stubs : HolderOf s.stub Stub.callId (view Life.stub life)
  events : TraceOf s.trace CallEvent.callId (view Life.events life)

/-! ## What a place in the code says about the stage -/

namespace Life

variable {τ ρ : Type} {l : Life τ ρ} {c : Nat} {t t' : τ} {ret : ρ}

/-- The stages of a call whose stub is at a place in the code. -/
def AtStub (t : τ) (l : Life τ ρ) : Stub ρ → Prop
  | .called _ async => l = .called t async
  | .named _ async => l = .named t async
  | .added _ async record => l = .added t async record
  | .waiting _ record =>
    (∃ place, l = .sent t .waiting record place) ∨
      (∃ ret stage, l = .handling t false record ret stage) ∨ ∃ ret, l = .handled t record ret
  | .popping _ record => ∃ place, l = .sent t .popping record place
  | .returning _ record => ∃ ret, l = .returning t record ret
  | .freeing _ record ret => ∃ v, ret = some v ∧ l = .freeing t record v

theorem of_stub {p : Stub ρ} (h : l.stub c = some (t, p)) : l.AtStub t p := by
  unfold Life.stub at h
  split at h <;> cases h
  · rfl
  · rfl
  · rfl
  · exact .inl ⟨_, rfl⟩
  · exact ⟨_, rfl⟩
  -- the stub waits while the handler works on the reply, and until it tests the call
  · exact .inr (.inl ⟨_, _, rfl⟩)
  · exact .inr (.inr ⟨_, rfl⟩)
  · exact ⟨_, rfl⟩
  · exact ⟨_, rfl, rfl⟩

/-- The stages of a call whose reply has a handler at a place in the code. -/
def AtHandler (t : τ) (l : Life τ ρ) (ret : ρ) : HandlerPc → Prop
  | .removeCall => ∃ async record, l = .handling t async record ret .remove
  | .copyResults record => ∃ async, l = .handling t async record ret .copy
  | .setComplete record => ∃ async, l = .handling t async record ret .complete
  | .testDeallocate record => ∃ async, l = .handling t async record ret .test
  | .deallocate record => l = .releasing t record ret

theorem of_handler {pc : HandlerPc} (h : l.handler c = some (t, ⟨⟨c, t', ret⟩, pc⟩)) :
    t' = t ∧ l.AtHandler t ret pc := by
  unfold Life.handler at h
  split at h <;> cases h
  · exact ⟨rfl, _, _, rfl⟩
  · exact ⟨rfl, _, rfl⟩
  · exact ⟨rfl, _, rfl⟩
  · exact ⟨rfl, _, rfl⟩
  · exact ⟨rfl, rfl⟩

theorem of_atWorker (h : l.atWorker c = some (c, t)) : ∃ mode r, l = .sent t mode r .worker := by
  unfold Life.atWorker at h
  split at h <;> cases h
  exact ⟨_, _, rfl⟩

theorem of_inChannel (h : l.inChannel c = some ⟨c, t, ret⟩) :
    ∃ mode r, l = .sent t mode r (.channel ret) := by
  unfold Life.inChannel at h
  split at h <;> cases h
  exact ⟨_, _, rfl⟩

theorem of_inQueue (h : l.inQueue c = some ⟨c, t, ret⟩) :
    ∃ mode r, l = .sent t mode r (.queue ret) := by
  unfold Life.inQueue at h
  split at h <;> cases h
  exact ⟨_, _, rfl⟩

end Life

/-! ## The steps -/

namespace Refines

variable {τ ρ : Type} [DecidableEq τ] {s : Guest τ ρ} {life : Nat → Life τ ρ} {c r : Nat} {t : τ}
  {async : Bool} {l l' : Life τ ρ}

/-- What two of the fields need when the stage of a call changes. -/
theorem unused_update (h : Refines s life) (hl : life c = l) (hne : l ≠ .unused)
    (hne' : l' ≠ .unused) : ∀ c', update life c l' c' = .unused ↔ s.counter ≤ c' := by
  intro c'
  rw [← h.unused c', update_apply]
  split_ifs with hc'
  · subst hc'
    rw [hl]
    exact iff_of_false hne' hne
  · rfl

theorem known_update (h : Refines s life) (hl : life c = l)
    (hknown : ∀ t, l'.known = some t → l.known = some t) :
    ∀ c' t, (update life c l' c').known = some t → (s.threads.lookup t).isSome := by
  intro c' t' hc'
  rw [update_apply] at hc'
  split_ifs at hc'
  · exact h.known c t' (hl ▸ hknown t' hc')
  · exact h.known c' t' hc'

/-- No reply is in the queue of a thread that the pool does not know. -/
theorem queue_of_unknown (h : Refines s life) (hnone : s.threads.lookup t = none) :
    ListOf [] Reply.callId (view (Life.inQueueOf t) life) := by
  refine ⟨List.nodup_nil, fun reply => ⟨nofun, ?_⟩⟩
  intro hin
  obtain ⟨hqueue, hthread⟩ := Option.filter_eq_some_iff.1 hin
  obtain ⟨mode, record, hl⟩ := Life.of_inQueue hqueue
  have hknown := h.known reply.callId reply.threadId (hl ▸ rfl)
  rw [of_decide_eq_true hthread, hnone] at hknown
  exact nomatch hknown

theorem call (h : Refines s life) (hstub : s.stub t = none) (hlt : s.counter < 2 ^ 64)
    (async : Bool) :
    Refines ((Guest.log { s with counter := s.counter + 1 }
      (.called (s.counter % 2 ^ 64) t async)).goto t (some (.called (s.counter % 2 ^ 64) async)))
      (update life s.counter (.called t async)) := by
  rw [Nat.mod_eq_of_lt hlt]
  have hl : life s.counter = .unused := (h.unused s.counter).2 le_rfl
  refine ⟨?_, view_keep hl h.mapped rfl, view_keep hl h.records rfl, view_keep hl h.sent rfl,
    view_keep hl h.replies rfl, fun t' q hq => view_keep hl (h.queues t' q hq) rfl, h.registered,
    h.known_update hl nofun, view_keep hl h.handlers rfl, ?_, ?_⟩
  · intro c
    change _ ↔ s.counter + 1 ≤ c
    rw [update_apply]
    split_ifs with hc
    · rw [hc]
      exact iff_of_false nofun (Nat.not_succ_le_self _)
    · rw [h.unused c, Nat.succ_le_iff]
      exact ⟨fun hle => Nat.lt_of_le_of_ne hle (Ne.symm hc), Nat.le_of_lt⟩
  · apply view_become
    exact h.stubs.enter hstub (congrArg (Life.stub s.counter) hl) rfl
  · apply view_become
    exact h.events.append (congrArg (Life.events s.counter) hl) rfl

/-- `shadow_thread_self` finds the thread or registers it. -/
theorem name (h : Refines s life) (hstub : s.stub t = some (.called c async)) :
    ∃ s', s.shadowThreadSelf t = .ok s' ∧
      Refines (s'.goto t (some (.named c async))) (update life c (.named t async)) := by
  have hl : life c = .called t async := Life.of_stub ((h.stubs t _).1 hstub)
  have hstubs : HolderOf (update s.stub t (some (.named c async))) Stub.callId
      (view Life.stub (update life c (.named t async))) :=
    view_become (h.stubs.replace hstub rfl (by rintro _ ⟨⟩; rfl))
  have hregistered := h.registered t
  have hknown : ∀ threads : HashTable τ (List (Reply τ ρ)), (threads.lookup t).isSome →
      (∀ t', (s.threads.lookup t').isSome → (threads.lookup t').isSome) →
      ∀ c' t', (update life c (.named t async) c').known = some t' →
        (threads.lookup t').isSome := by
    intro threads hself hmono c' t' hc'
    rw [update_apply] at hc'
    split_ifs at hc'
    · cases hc'
      exact hself
    · exact hmono t' (h.known c' t' hc')
  by_cases hr : s.registered t = true
  · exact ⟨s, if_pos hr, h.unused_update hl nofun nofun, view_keep hl h.mapped rfl,
      view_keep hl h.records rfl, view_keep hl h.sent rfl, view_keep hl h.replies rfl,
      fun t' q hq => view_keep hl (h.queues t' q hq) rfl, h.registered,
      hknown s.threads (hregistered ▸ hr) (fun _ => id), view_keep hl h.handlers rfl, hstubs,
      view_keep hl h.events rfl⟩
  · have hnone : s.threads.lookup t = none := by
      rw [hregistered] at hr
      exact Option.not_isSome_iff_eq_none.1 hr
    have hlookup : ∀ t', (s.threads.insert t []).lookup t' =
        if t' = t then some [] else s.threads.lookup t' :=
      fun t' => HashTable.lookup_insert_eq _ _ _ _
    refine ⟨{ s with threads := s.threads.insert t [], registered := update s.registered t true },
      ?_, h.unused_update hl nofun nofun, view_keep hl h.mapped rfl, view_keep hl h.records rfl,
      view_keep hl h.sent rfl, view_keep hl h.replies rfl, ?_, ?_,
      hknown (s.threads.insert t []) ?_ ?_,
      view_keep hl h.handlers rfl, hstubs, view_keep hl h.events rfl⟩
    · rw [Guest.shadowThreadSelf, if_neg hr, hnone]
      rfl
    · intro t' q hq
      rw [Guest.goto, hlookup] at hq
      refine view_keep hl ?_ rfl
      split_ifs at hq with ht
      · cases hq
        exact ht ▸ h.queue_of_unknown hnone
      · exact h.queues t' q hq
    · intro t'
      change update s.registered t true t' = ((s.threads.insert t []).lookup t').isSome
      rw [hlookup, update_apply, h.registered t']
      split_ifs <;> rfl
    · rw [hlookup, if_pos rfl]
      rfl
    · intro t' hsome
      rw [hlookup]
      split_ifs
      · rfl
      · exact hsome

/-- The record is allocated and added; the map has no record for the call. -/
theorem add (h : Refines s life) (hstub : s.stub t = some (.named c async)) :
    s.callMap.lookup c = none ∧
      Refines ((Guest.log { s with
          records := s.records ++ [some ⟨none, async, false⟩]
          callMap := s.callMap.insert c s.records.length } (.added c s.records.length)).goto t
        (some (.added c async s.records.length)))
        (update life c (.added t async s.records.length)) := by
  have hl : life c = .named t async := Life.of_stub ((h.stubs t _).1 hstub)
  refine ⟨(h.mapped c).trans (congrArg Life.mapped hl), h.unused_update hl nofun nofun,
    view_become (h.mapped.insert c _), view_become (h.records.alloc _), view_keep hl h.sent rfl,
    view_keep hl h.replies rfl, fun t' q hq => view_keep hl (h.queues t' q hq) rfl, h.registered,
    h.known_update hl (fun _ => id), view_keep hl h.handlers rfl, ?_, ?_⟩
  · exact view_become (h.stubs.replace hstub rfl (by rintro _ ⟨⟩; rfl))
  · exact view_become (h.events.append (congrArg (Life.events c) hl) rfl)

/-- An asynchronous stub returns after the command was sent, a synchronous one begins to wait. -/
theorem send (h : Refines s life) (hstub : s.stub t = some (.added c async r)) :
    Refines (Guest.goto { s with sent := s.sent ++ [(c, t)] } t
      (if async then none else some (.waiting c r)))
      (update life c (.sent t (if async then .async else .waiting) r .worker)) := by
  have hl : life c = .added t async r := Life.of_stub ((h.stubs t _).1 hstub)
  cases async with
  | false =>
    refine ⟨h.unused_update hl nofun nofun, view_keep hl h.mapped rfl,
      view_keep hl h.records rfl, ?_, view_keep hl h.replies rfl,
      fun t' q hq => view_keep hl (h.queues t' q hq) rfl,
      h.registered, h.known_update hl (fun _ => id), view_keep hl h.handlers rfl, ?_,
      view_keep hl h.events rfl⟩
    · exact view_become (h.sent.append (congrArg (Life.atWorker c) hl) rfl)
    · exact view_become (h.stubs.replace hstub rfl (by rintro _ ⟨⟩; rfl))
  | true =>
    refine ⟨h.unused_update hl nofun nofun, view_keep hl h.mapped rfl,
      view_keep hl h.records rfl, ?_, view_keep hl h.replies rfl,
      fun t' q hq => view_keep hl (h.queues t' q hq) rfl,
      h.registered, h.known_update hl (fun _ => id), view_keep hl h.handlers rfl, ?_,
      view_keep hl h.events rfl⟩
    · exact view_become (h.sent.append (congrArg (Life.atWorker c) hl) rfl)
    · exact view_become (h.stubs.replace hstub rfl nofun)

/-- An access to the record of a call that is not done. -/
theorem cell (h : Refines s life) {x : Option (CallRecord ρ)} (hl : life c = l)
    (hrecord : l.record = some (r, x)) : s.records[r]? = some x :=
  h.records.1 c r x (by rw [view, hl, hrecord])

variable {ret : ρ}

theorem handler_of_handling (h : Refines s life) {stage : HandlerStage}
    (hl : life c = .handling t async r ret stage) : ∃ k, s.handler t = some k := by
  have hview : ∀ k, Life.handler c (life c) = some (t, k) → k.callId = c →
      s.handler t = some k := by
    rintro k hk rfl
    exact (h.handlers t k).2 hk
  cases stage <;> exact ⟨_, hview _ (congrArg (Life.handler c) hl) rfl⟩

/-- The test of the loop: as long as the call is not handled, its record is not complete. -/
theorem test (h : Refines s life) (hstub : s.stub t = some (.waiting c r))
    (hidle : s.handler t = none) :
    ∃ x l', s.read r = .ok x ∧ Refines (s.goto t (some (if x.callComplete then .returning c r
      else .popping c r))) (update life c l') := by
  obtain ⟨place, hl⟩ | ⟨ret, stage, hl⟩ | ⟨ret, hl⟩ :=
    Life.of_stub ((h.stubs t _).1 hstub)
  · have hread : s.read r = .ok ⟨none, false, false⟩ := by
      rw [Guest.read, h.cell hl rfl]
      rfl
    refine ⟨_, .sent t .popping r place, hread, h.unused_update hl nofun nofun,
      view_keep hl h.mapped rfl, view_keep hl h.records rfl, ?_, ?_, ?_, h.registered,
      h.known_update hl (fun _ => id), view_keep hl h.handlers rfl,
      view_become (h.stubs.replace hstub rfl (by rintro _ ⟨⟩; rfl)), ?_⟩
    · exact view_keep hl h.sent (by cases place <;> rfl)
    · exact view_keep hl h.replies (by cases place <;> rfl)
    · exact fun t' q hq => view_keep hl (h.queues t' q hq) (by cases place <;> rfl)
    · exact view_keep hl h.events (by cases place <;> rfl)
  · -- the thread would be in the handler
    obtain ⟨k, hk⟩ := h.handler_of_handling hl
    rw [hidle] at hk
    exact nomatch hk
  · have hread : s.read r = .ok ⟨some ret, false, true⟩ := by
      rw [Guest.read, h.cell hl rfl]
    exact ⟨_, .returning t r ret, hread, h.unused_update hl nofun nofun, view_keep hl h.mapped rfl,
      view_keep hl h.records rfl, view_keep hl h.sent rfl, view_keep hl h.replies rfl,
      fun t' q hq => view_keep hl (h.queues t' q hq) rfl, h.registered, h.known_update hl nofun,
      view_keep hl h.handlers rfl,
      view_become (h.stubs.replace hstub rfl (by rintro _ ⟨⟩; rfl)), view_keep hl h.events rfl⟩

/-- A thread that was waiting for a command goes back to the test. -/
theorem wake (h : Refines s life) (hstub : s.stub t = some (.popping c r)) :
    ∃ l', Refines (s.goto t (some (.waiting c r))) (update life c l') := by
  obtain ⟨place, hl⟩ := Life.of_stub ((h.stubs t _).1 hstub)
  refine ⟨.sent t .waiting r place, h.unused_update hl nofun nofun, view_keep hl h.mapped rfl,
    view_keep hl h.records rfl, ?_, ?_, ?_, h.registered, h.known_update hl (fun _ => id),
    view_keep hl h.handlers rfl, view_become (h.stubs.replace hstub rfl (by rintro _ ⟨⟩; rfl)), ?_⟩
  · exact view_keep hl h.sent (by cases place <;> rfl)
  · exact view_keep hl h.replies (by cases place <;> rfl)
  · exact fun t' q hq => view_keep hl (h.queues t' q hq) (by cases place <;> rfl)
  · exact view_keep hl h.events (by cases place <;> rfl)

/-- A pool in which the queue of a known thread was replaced. -/
theorem isSome_insert {threads : HashTable τ (List (Reply τ ρ))}
    (hsome : (threads.lookup t).isSome) (q' : List (Reply τ ρ)) (t' : τ) :
    ((threads.insert t q').lookup t').isSome = (threads.lookup t').isSome := by
  rw [HashTable.lookup_insert_eq]
  split_ifs with ht
  · rw [ht, hsome]
    rfl
  · rfl

/-- The first command in the queue is a reply for this thread, and its handler starts. -/
theorem pop (h : Refines s life) {c₀ r₀ : Nat} (hstub : s.stub t = some (.waiting c₀ r₀))
    (hidle : s.handler t = none) {reply : Reply τ ρ} {q : List (Reply τ ρ)}
    (hq : s.threads.lookup t = some (reply :: q)) :
    reply.threadId = t ∧ ∃ l', Refines
      (Guest.setHandler { s with threads := s.threads.insert t q } t
      (some ⟨reply, .removeCall⟩)) (update life reply.callId l') := by
  have hqueue := h.queues t _ hq
  obtain ⟨c, t', ret⟩ := reply
  obtain ⟨hin, hthread⟩ := Option.filter_eq_some_iff.1 ((hqueue.2 _).1 List.mem_cons_self)
  obtain rfl : t' = t := of_decide_eq_true hthread
  obtain ⟨mode, r, hl⟩ := Life.of_inQueue hin
  dsimp only at hl
  have hsome : (s.threads.lookup t').isSome := by
    rw [hq]
    rfl
  refine ⟨rfl, .handling t' mode.isAsync r ret .remove, h.unused_update hl nofun nofun,
    view_keep hl h.mapped rfl, view_keep hl h.records rfl, view_keep hl h.sent rfl,
    view_keep hl h.replies rfl, ?_, ?_, ?_, ?_, ?_, view_keep hl h.events rfl⟩
  · intro t q' hq'
    rw [Guest.setHandler, HashTable.lookup_insert_eq] at hq'
    split_ifs at hq' with ht
    · subst ht
      cases hq'
      exact view_become hqueue.tail
    · refine view_keep hl (h.queues t q' hq') ?_
      have hne : ¬ t' = t := fun heq => ht heq.symm
      simp [Life.inQueueOf, Life.inQueue, Option.filter, hne]
  · intro t
    exact (h.registered t).trans (isSome_insert hsome q t).symm
  · intro c' t hknown
    refine (isSome_insert hsome q t).trans (h.known_update hl ?_ c' t hknown)
    exact nofun
  · exact view_become (h.handlers.enter hidle (congrArg (Life.handler c) hl) rfl)
  · cases mode with
    | async => exact view_keep hl h.stubs rfl
    | waiting => exact view_keep hl h.stubs rfl
    | popping =>
      -- the thread is not waiting for a command any more
      have hpopping := (h.stubs t' (.popping c r)).2 (congrArg (Life.stub c) hl)
      rw [hstub] at hpopping
      exact nomatch hpopping

theorem readReturn (h : Refines s life) (hstub : s.stub t = some (.returning c r)) :
    ∃ x l', s.read r = .ok x ∧
      Refines (s.goto t (some (.freeing c r x.ret))) (update life c l') := by
  obtain ⟨ret, hl⟩ := Life.of_stub ((h.stubs t _).1 hstub)
  have hread : s.read r = .ok ⟨some ret, false, true⟩ := by
    rw [Guest.read, h.cell hl rfl]
  exact ⟨_, .freeing t r ret, hread, h.unused_update hl nofun nofun, view_keep hl h.mapped rfl,
    view_keep hl h.records rfl, view_keep hl h.sent rfl, view_keep hl h.replies rfl,
    fun t' q hq => view_keep hl (h.queues t' q hq) rfl, h.registered, h.known_update hl nofun,
    view_keep hl h.handlers rfl, view_become (h.stubs.replace hstub rfl (by rintro _ ⟨⟩; rfl)),
    view_keep hl h.events rfl⟩

theorem freeReturn (h : Refines s life) {ret : Option ρ}
    (hstub : s.stub t = some (.freeing c r ret)) :
    ∃ s' l', s.free r = .ok s' ∧ Refines (((s'.log (.freed c r)).log (.returned c ret)).goto t none)
      (update life c l') := by
  obtain ⟨v, rfl, hl⟩ := Life.of_stub ((h.stubs t _).1 hstub)
  have hfree : s.free r = .ok { s with records := s.records.set r none } := by
    rw [Guest.free, h.cell hl rfl]
  refine ⟨_, .done t false r v, hfree, h.unused_update hl nofun nofun, view_keep hl h.mapped rfl,
    view_become (h.records.set (congrArg Life.record hl) none), view_keep hl h.sent rfl,
    view_keep hl h.replies rfl, fun t' q hq => view_keep hl (h.queues t' q hq) rfl, h.registered,
    h.known_update hl nofun, view_keep hl h.handlers rfl,
    view_become (h.stubs.replace hstub rfl nofun), ?_⟩
  apply view_become
  have hfreed := h.events.append (congrArg (Life.events c) hl) (e := .freed c r) rfl
  have hreturned := hfreed.append (update_self ..) (e := .returned c (some v)) rfl
  rwa [update_idem] at hreturned

/-! The handler. -/

variable {t' : τ}

theorem removeCall (h : Refines s life)
    (hhandler : s.handler t = some ⟨⟨c, t', ret⟩, .removeCall⟩) :
    ∃ r s' l', s.removeCall c = .ok (r, s') ∧ Refines ((s'.log (.removed c r)).setHandler t
      (some ⟨⟨c, t', ret⟩, .copyResults r⟩)) (update life c l') := by
  obtain ⟨rfl, async, r, hl⟩ := Life.of_handler ((h.handlers t _).1 hhandler)
  have hremove : s.removeCall c = .ok (r, { s with callMap := s.callMap.erase c }) := by
    have hlookup : s.callMap.lookup c = some r := (h.mapped c).trans (congrArg Life.mapped hl)
    rw [Guest.removeCall, hlookup]
  exact ⟨r, _, .handling t' async r ret .copy, hremove, h.unused_update hl nofun nofun,
    view_become (h.mapped.erase c), view_keep hl h.records rfl, view_keep hl h.sent rfl,
    view_keep hl h.replies rfl, fun t q hq => view_keep hl (h.queues t q hq) rfl, h.registered,
    h.known_update hl nofun, view_become (h.handlers.replace hhandler rfl (by rintro _ ⟨⟩; rfl)),
    view_keep hl h.stubs (by cases async <;> rfl),
    view_become (h.events.append (congrArg (Life.events c) hl) rfl)⟩

theorem copyResults (h : Refines s life)
    (hhandler : s.handler t = some ⟨⟨c, t', ret⟩, .copyResults r⟩) :
    ∃ x s' l', s.read r = .ok x ∧ s.write r { x with ret := some ret } = .ok s' ∧
      Refines ((s'.log (.applied c r ret)).setHandler t (some ⟨⟨c, t', ret⟩, .setComplete r⟩))
        (update life c l') := by
  obtain ⟨rfl, async, hl⟩ := Life.of_handler ((h.handlers t _).1 hhandler)
  have hcell := h.cell hl rfl
  have hread : s.read r = .ok ⟨none, async, false⟩ := by
    rw [Guest.read, hcell]
  have hwrite : s.write r ⟨some ret, async, false⟩ =
      .ok { s with records := s.records.set r (some ⟨some ret, async, false⟩) } := by
    rw [Guest.write, hcell]
  exact ⟨_, _, .handling t' async r ret .complete, hread, hwrite, h.unused_update hl nofun nofun,
    view_keep hl h.mapped rfl, view_become (h.records.set (congrArg Life.record hl) _),
    view_keep hl h.sent rfl, view_keep hl h.replies rfl,
    fun t q hq => view_keep hl (h.queues t q hq) rfl, h.registered, h.known_update hl nofun,
    view_become (h.handlers.replace hhandler rfl (by rintro _ ⟨⟩; rfl)),
    view_keep hl h.stubs (by cases async <;> rfl),
    view_become (h.events.append (congrArg (Life.events c) hl) rfl)⟩

theorem setComplete (h : Refines s life)
    (hhandler : s.handler t = some ⟨⟨c, t', ret⟩, .setComplete r⟩) :
    ∃ x s' l', s.read r = .ok x ∧ s.write r { x with callComplete := true } = .ok s' ∧
      Refines (s'.setHandler t (some ⟨⟨c, t', ret⟩, .testDeallocate r⟩)) (update life c l') := by
  obtain ⟨rfl, async, hl⟩ := Life.of_handler ((h.handlers t _).1 hhandler)
  have hcell := h.cell hl rfl
  have hread : s.read r = .ok ⟨some ret, async, false⟩ := by
    rw [Guest.read, hcell]
  have hwrite : s.write r ⟨some ret, async, true⟩ =
      .ok { s with records := s.records.set r (some ⟨some ret, async, true⟩) } := by
    rw [Guest.write, hcell]
  exact ⟨_, _, .handling t' async r ret .test, hread, hwrite, h.unused_update hl nofun nofun,
    view_keep hl h.mapped rfl, view_become (h.records.set (congrArg Life.record hl) _),
    view_keep hl h.sent rfl, view_keep hl h.replies rfl,
    fun t q hq => view_keep hl (h.queues t q hq) rfl, h.registered, h.known_update hl nofun,
    view_become (h.handlers.replace hhandler rfl (by rintro _ ⟨⟩; rfl)),
    view_keep hl h.stubs (by cases async <;> rfl), view_keep hl h.events rfl⟩

/-- The record of an asynchronous call stays with the handler, which will free it; that of a
synchronous one is left to the stub. -/
theorem testDeallocate (h : Refines s life)
    (hhandler : s.handler t = some ⟨⟨c, t', ret⟩, .testDeallocate r⟩) :
    ∃ x l', s.read r = .ok x ∧ Refines (s.setHandler t
      (if x.handlerDeallocate then some ⟨⟨c, t', ret⟩, .deallocate r⟩ else none))
        (update life c l') := by
  obtain ⟨rfl, async, hl⟩ := Life.of_handler ((h.handlers t _).1 hhandler)
  have hread : s.read r = .ok ⟨some ret, async, true⟩ := by
    rw [Guest.read, h.cell hl rfl]
  cases async with
  | false =>
    exact ⟨_, .handled t' r ret, hread, h.unused_update hl nofun nofun, view_keep hl h.mapped rfl,
      view_keep hl h.records rfl, view_keep hl h.sent rfl, view_keep hl h.replies rfl,
      fun t q hq => view_keep hl (h.queues t q hq) rfl, h.registered, h.known_update hl nofun,
      view_become (h.handlers.replace hhandler rfl nofun), view_keep hl h.stubs rfl,
      view_keep hl h.events rfl⟩
  | true =>
    exact ⟨_, .releasing t' r ret, hread, h.unused_update hl nofun nofun,
      view_keep hl h.mapped rfl,
      view_keep hl h.records rfl, view_keep hl h.sent rfl, view_keep hl h.replies rfl,
      fun t q hq => view_keep hl (h.queues t q hq) rfl, h.registered, h.known_update hl nofun,
      view_become (h.handlers.replace hhandler rfl (by rintro _ ⟨⟩; rfl)),
      view_keep hl h.stubs rfl, view_keep hl h.events rfl⟩

theorem deallocate (h : Refines s life)
    (hhandler : s.handler t = some ⟨⟨c, t', ret⟩, .deallocate r⟩) :
    ∃ s' l', s.free r = .ok s' ∧ Refines ((s'.log (.freed c r)).setHandler t none)
      (update life c l') := by
  obtain ⟨rfl, hl⟩ := Life.of_handler ((h.handlers t _).1 hhandler)
  have hfree : s.free r = .ok { s with records := s.records.set r none } := by
    rw [Guest.free, h.cell hl rfl]
  exact ⟨_, .done t' true r ret, hfree, h.unused_update hl nofun nofun, view_keep hl h.mapped rfl,
    view_become (h.records.set (congrArg Life.record hl) none), view_keep hl h.sent rfl,
    view_keep hl h.replies rfl, fun t q hq => view_keep hl (h.queues t q hq) rfl, h.registered,
    h.known_update hl nofun, view_become (h.handlers.replace hhandler rfl nofun),
    view_keep hl h.stubs rfl, view_become (h.events.append (congrArg (Life.events c) hl) rfl)⟩

/-! The worker and the dispatching thread. -/

theorem reply (h : Refines s life) {k : Nat} (hk : s.sent[k]? = some (c, t)) (ret : ρ) :
    ∃ l', Refines (Guest.log { s with
      sent := s.sent.eraseIdx k
      replies := s.replies ++ [⟨c, t, ret⟩] } (.replied c ret)) (update life c l') := by
  obtain ⟨mode, r, hl⟩ := Life.of_atWorker ((h.sent.2 _).1 (List.mem_of_getElem? hk))
  dsimp only at hl
  refine ⟨.sent t mode r (.channel ret), h.unused_update hl nofun nofun, view_keep hl h.mapped rfl,
    view_keep hl h.records rfl, view_become (h.sent.eraseIdx hk),
    view_become (h.replies.append (congrArg (Life.inChannel c) hl) rfl),
    fun t q hq => view_keep hl (h.queues t q hq) rfl, h.registered, h.known_update hl (fun _ => id),
    view_keep hl h.handlers rfl, view_keep hl h.stubs (by cases mode <;> rfl),
    view_become (h.events.append (congrArg (Life.events c) hl) rfl)⟩

/-- The thread that a reply is for is known to the pool. -/
theorem dispatch (h : Refines s life) {k : Nat} {reply : Reply τ ρ}
    (hk : s.replies[k]? = some reply) :
    ∃ q l', s.threads.lookup reply.threadId = some q ∧ Refines { s with
      replies := s.replies.eraseIdx k
      threads := s.threads.insert reply.threadId (q ++ [reply]) }
      (update life reply.callId l') := by
  obtain ⟨mode, r, hl⟩ := Life.of_inChannel ((h.replies.2 _).1 (List.mem_of_getElem? hk))
  obtain ⟨c, t, ret⟩ := reply
  dsimp only at hl ⊢
  have hsome : (s.threads.lookup t).isSome := h.known c t (hl ▸ rfl)
  obtain ⟨q, hq⟩ := Option.isSome_iff_exists.1 hsome
  refine ⟨q, .sent t mode r (.queue ret), hq, h.unused_update hl nofun nofun,
    view_keep hl h.mapped rfl,
    view_keep hl h.records rfl, view_keep hl h.sent rfl,
    view_become (h.replies.eraseIdx hk), ?_, ?_,
    ?_, view_keep hl h.handlers rfl, view_keep hl h.stubs (by cases mode <;> rfl),
    view_keep hl h.events rfl⟩
  · intro t' q' hq'
    rw [HashTable.lookup_insert_eq] at hq'
    split_ifs at hq' with ht
    · subst ht
      cases hq'
      apply view_become
      have hqueue := (h.queues t' q hq).append (congrArg (Life.inQueueOf t' c) hl)
        (x := ⟨c, t', ret⟩)
        rfl
      have hfilter : Life.inQueueOf t' c (.sent t' mode r (.queue ret)) = some ⟨c, t', ret⟩ := by
        simp [Life.inQueueOf, Life.inQueue, Option.filter]
      rwa [hfilter]
    · refine view_keep hl (h.queues t' q' hq') ?_
      have hne : ¬ t = t' := fun heq => ht heq.symm
      simp [Life.inQueueOf, Life.inQueue, Option.filter, hne]
  · intro t'
    exact (h.registered t').trans (isSome_insert hsome _ t').symm
  · intro c' t' hknown
    refine (isSome_insert hsome _ t').trans (h.known_update hl ?_ c' t' hknown)
    exact fun _ => id

/-- No statement of the handler fails. -/
theorem handlerStep (h : Refines s life) {k : Handler τ ρ} (hhandler : s.handler t = some k) :
    ∃ s' life', s.handlerStep t k = .ok s' ∧ Refines s' life' := by
  obtain ⟨⟨c, t', ret⟩, pc⟩ := k
  cases pc with
  | removeCall =>
    obtain ⟨r, s', l', hremove, hrefines⟩ := h.removeCall hhandler
    refine ⟨_, _, ?_, hrefines⟩
    simp only [Guest.handlerStep, hremove]
    rfl
  | copyResults r =>
    obtain ⟨x, s', l', hread, hwrite, hrefines⟩ := h.copyResults hhandler
    refine ⟨_, _, ?_, hrefines⟩
    simp only [Guest.handlerStep, hread, bind, Except.bind, hwrite]
    rfl
  | setComplete r =>
    obtain ⟨x, s', l', hread, hwrite, hrefines⟩ := h.setComplete hhandler
    refine ⟨_, _, ?_, hrefines⟩
    simp only [Guest.handlerStep, hread, bind, Except.bind, hwrite]
    rfl
  | testDeallocate r =>
    obtain ⟨x, l', hread, hrefines⟩ := h.testDeallocate hhandler
    refine ⟨_, _, ?_, hrefines⟩
    simp only [Guest.handlerStep, hread]
    rfl
  | deallocate r =>
    obtain ⟨s', l', hfree, hrefines⟩ := h.deallocate hhandler
    refine ⟨_, _, ?_, hrefines⟩
    simp only [Guest.handlerStep, hfree]
    rfl

/-- No statement of a stub fails. -/
theorem stubStep (h : Refines s life) {p : Stub ρ} (hstub : s.stub t = some p)
    (hidle : s.handler t = none) {res : Except CallFault (Guest τ ρ)}
    (hres : s.stubStep t p = some res) : ∃ s' life', res = .ok s' ∧ Refines s' life' := by
  cases p with
  | called c async =>
    obtain ⟨s', hself, hrefines⟩ := h.name hstub
    simp only [Guest.stubStep, hself] at hres
    exact ⟨_, _, (Option.some.inj hres).symm, hrefines⟩
  | named c async =>
    obtain ⟨hnone, hrefines⟩ := h.add hstub
    simp only [Guest.stubStep, Guest.addCall, hnone] at hres
    exact ⟨_, _, (Option.some.inj hres).symm, hrefines⟩
  | added c async r =>
    exact ⟨_, _, (Option.some.inj hres).symm, h.send hstub⟩
  | waiting c r =>
    obtain ⟨x, l', hread, hrefines⟩ := h.test hstub hidle
    simp only [Guest.stubStep, hread] at hres
    exact ⟨_, _, (Option.some.inj hres).symm, hrefines⟩
  | popping c r =>
    obtain ⟨l', hwoken⟩ := h.wake hstub
    have hwaiting : (s.goto t (some (.waiting c r))).stub t = some (.waiting c r) :=
      update_self ..
    rw [Guest.stubStep, Guest.handleSingleCommand] at hres
    split at hres
    · rename_i reply q hq
      obtain ⟨hthread, l'', hrefines⟩ := hwoken.pop hwaiting hidle hq
      rw [if_pos hthread] at hres
      exact ⟨_, _, (Option.some.inj hres).symm, hrefines⟩
    · exact nomatch hres
  | returning c r =>
    obtain ⟨x, l', hread, hrefines⟩ := h.readReturn hstub
    simp only [Guest.stubStep, hread] at hres
    exact ⟨_, _, (Option.some.inj hres).symm, hrefines⟩
  | freeing c r ret =>
    obtain ⟨s', l', hfree, hrefines⟩ := h.freeReturn hstub
    simp only [Guest.stubStep, hfree] at hres
    exact ⟨_, _, (Option.some.inj hres).symm, hrefines⟩

/-- A step of any party has no fault, and the guest goes on to refine the stages of its calls. -/
theorem step (h : Refines s life) {op : GuestOp τ ρ} (hlegal : op.legal s)
    {res : Except CallFault (Guest τ ρ)} (hres : guestStep s op = some res) :
    ∃ s' life', res = .ok s' ∧ Refines s' life' := by
  cases op with
  | call t async =>
    rw [guestStep] at hres
    split at hres
    · rename_i hstub _
      exact ⟨_, _, (Option.some.inj hres).symm, h.call hstub hlegal async⟩
    · exact nomatch hres
  | run t =>
    rw [guestStep] at hres
    cases hhandler : s.handler t with
    | some k =>
      obtain ⟨s', life', hok, hrefines⟩ := h.handlerStep hhandler
      rw [hhandler] at hres
      exact ⟨s', life', (Option.some.inj hres).symm.trans hok, hrefines⟩
    | none =>
      rw [hhandler] at hres
      obtain ⟨p, hstub, hres⟩ := Option.bind_eq_some_iff.1 hres
      exact h.stubStep hstub hhandler hres
  | reply k ret =>
    obtain ⟨s', hreply, rfl⟩ := Option.map_eq_some_iff.1 hres
    obtain ⟨⟨c, t⟩, hk, rfl⟩ := Option.map_eq_some_iff.1 hreply
    obtain ⟨l', hrefines⟩ := h.reply hk ret
    exact ⟨_, _, rfl, hrefines⟩
  | dispatch k =>
    obtain ⟨reply, hk, rfl⟩ := Option.map_eq_some_iff.1 hres
    obtain ⟨q, l', hq, hrefines⟩ := h.dispatch hk
    refine ⟨_, _, ?_, hrefines⟩
    rw [hq]

theorem of_reaches (hs : Reaches guestRun (fun s op => op.legal s) Guest.new s) :
    ∃ life, Refines s life := by
  apply hs.invariant (I := fun s => ∃ life, Refines s life)
  · rintro s op s' ⟨life, h⟩ hlegal hstep
    rw [guestRun] at hstep
    split at hstep
    · rename_i s'' hres
      obtain ⟨_, life', hok, hrefines⟩ := h.step hlegal hres
      cases hok
      cases hstep
      exact ⟨life', hrefines⟩
    · exact nomatch hstep
  · refine ⟨fun _ => .unused, fun c => iff_of_true rfl (Nat.zero_le c), fun _ => rfl,
      ⟨nofun, nofun⟩,
      ⟨List.nodup_nil, fun _ => ⟨nofun, nofun⟩⟩, ⟨List.nodup_nil, fun _ => ⟨nofun, nofun⟩⟩, nofun,
      fun _ => rfl, nofun, fun _ _ => ⟨nofun, nofun⟩, fun _ _ => ⟨nofun, nofun⟩, fun _ => rfl⟩

end Refines

end Ava.Endpoint
