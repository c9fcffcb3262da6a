import Ava.Lib.HashTable
import Ava.Lib.Transition
import Mathlib.Algebra.Group.Nat.Defs
import Mathlib.Logic.Function.Basic

/-!
# Calls of the guest threads

A generated stub takes a call id, names its thread to the pool, adds a call record to the call map
and sends the command. An asynchronous stub returns then; a synchronous one handles the commands for
its thread until the record says that the call is complete, reads the return value and frees the
record. The handler of a return command removes the record from the map, copies the results into it,
sets it complete and frees it if the stub was asynchronous.

The state has the tables of the endpoint and of the thread pool, the call records on the heap and
the place in the code where every thread is. The operations on a table and the accesses to a record
are single steps, which the threads, the worker and the dispatching thread take in any order. What
must not happen, a failed assertion, an access to a freed record, a reply for a thread that the pool
does not know, is a fault.
-/

set_option autoImplicit false

namespace Ava.Endpoint

open Ava.Lib

/-! ## The state -/

/-- A return command: `__call_id`, the thread id and the return value. -/
structure Reply (τ ρ : Type) where
  callId : Nat
  threadId : τ
  ret : ρ

/-- A call record. `calloc` leaves the return value empty. -/
structure CallRecord (ρ : Type) where
  ret : Option ρ
  handlerDeallocate : Bool
  callComplete : Bool

/-- Where a thread is in a stub: after `ava_get_call_id`, after `shadow_thread_id`, after
`ava_add_call`, at the test and inside the body of `shadow_thread_handle_command_until`, behind that
loop, and before the record is freed. -/
inductive Stub (ρ : Type) where
  | called (id : Nat) (async : Bool)
  | named (id : Nat) (async : Bool)
  | added (id : Nat) (async : Bool) (record : Nat)
  | waiting (id record : Nat)
  | popping (id record : Nat)
  | returning (id record : Nat)
  | freeing (id record : Nat) (ret : Option ρ)

def Stub.callId {ρ : Type} : Stub ρ → Nat
  | .called id _ => id
  | .named id _ => id
  | .added id _ _ => id
  | .waiting id _ => id
  | .popping id _ => id
  | .returning id _ => id
  | .freeing id _ _ => id

/-- The next statement of the handler of a return command. -/
inductive HandlerPc where
  | removeCall
  | copyResults (record : Nat)
  | setComplete (record : Nat)
  | testDeallocate (record : Nat)
  | deallocate (record : Nat)

structure Handler (τ ρ : Type) where
  reply : Reply τ ρ
  pc : HandlerPc

def Handler.callId {τ ρ : Type} (h : Handler τ ρ) : Nat := h.reply.callId

/-- What is observed of a run. -/
inductive CallEvent (τ ρ : Type) where
  | called (id : Nat) (thread : τ) (async : Bool)
  | added (id record : Nat)
  | replied (id : Nat) (ret : ρ)
  | removed (id record : Nat)
  | applied (id record : Nat) (ret : ρ)
  | freed (id record : Nat)
  | returned (id : Nat) (ret : Option ρ)

def CallEvent.callId {τ ρ : Type} : CallEvent τ ρ → Nat
  | .called id _ _ => id
  | .added id _ => id
  | .replied id _ => id
  | .removed id _ => id
  | .applied id _ _ => id
  | .freed id _ => id
  | .returned id _ => id

inductive CallFault where
  | assertion
  | freedRecord
  | strayReply

/-- The endpoint and the threads of a guest, and the commands that are on their way. A freed record
is `none`. -/
structure Guest (τ ρ : Type) where
  counter : Nat
  callMap : HashTable Nat Nat
  records : List (Option (CallRecord ρ))
  threads : HashTable τ (List (Reply τ ρ))
  /-- Whether `pthread_getspecific` yields a thread. -/
  registered : τ → Bool
  stub : τ → Option (Stub ρ)
  handler : τ → Option (Handler τ ρ)
  /-- The calls to which the worker has not replied. -/
  sent : List (Nat × τ)
  /-- The replies that are not dispatched. -/
  replies : List (Reply τ ρ)
  trace : List (CallEvent τ ρ)

namespace Guest

variable {τ ρ : Type} [DecidableEq τ]

def new : Guest τ ρ :=
  ⟨0, ∅, [], ∅, fun _ => false, fun _ => none, fun _ => none, [], [], []⟩

/-! ## The steps -/

def log (s : Guest τ ρ) (e : CallEvent τ ρ) : Guest τ ρ := { s with trace := s.trace ++ [e] }

/-- Thread `t` is at another place of its stub, or leaves it. -/
def goto (s : Guest τ ρ) (t : τ) (p : Option (Stub ρ)) : Guest τ ρ :=
  { s with stub := Function.update s.stub t p }

def setHandler (s : Guest τ ρ) (t : τ) (h : Option (Handler τ ρ)) : Guest τ ρ :=
  { s with handler := Function.update s.handler t h }

def read (s : Guest τ ρ) (record : Nat) : Except CallFault (CallRecord ρ) :=
  match s.records[record]? with
  | some (some r) => .ok r
  | _ => .error .freedRecord

def write (s : Guest τ ρ) (record : Nat) (r : CallRecord ρ) : Except CallFault (Guest τ ρ) :=
  match s.records[record]? with
  | some (some _) => .ok { s with records := s.records.set record (some r) }
  | _ => .error .freedRecord

def free (s : Guest τ ρ) (record : Nat) : Except CallFault (Guest τ ρ) :=
  match s.records[record]? with
  | some (some _) => .ok { s with records := s.records.set record none }
  | _ => .error .freedRecord

/-- `ava_add_call`. -/
def addCall (s : Guest τ ρ) (id record : Nat) : Except CallFault (Guest τ ρ) :=
  if (s.callMap.lookup id).isSome then .error .assertion
  else .ok { s with callMap := s.callMap.insert id record }

/-- `ava_remove_call`. -/
def removeCall (s : Guest τ ρ) (id : Nat) : Except CallFault (Nat × Guest τ ρ) :=
  match s.callMap.lookup id with
  | some record => .ok (record, { s with callMap := s.callMap.erase id })
  | none => .error .assertion

/-- `shadow_thread_self` of thread `t`. -/
def shadowThreadSelf (s : Guest τ ρ) (t : τ) : Except CallFault (Guest τ ρ) :=
  if s.registered t then .ok s
  else if (s.threads.lookup t).isSome then .error .assertion
  else .ok { s with
    threads := s.threads.insert t []
    registered := Function.update s.registered t true }

/-- `shadow_thread_handle_single_command` up to the call of the handler. The thread is blocked while
its queue is empty. -/
def handleSingleCommand (s : Guest τ ρ) (t : τ) : Option (Except CallFault (Guest τ ρ)) :=
  match s.threads.lookup t with
  | some (reply :: queue) => some (
      if reply.threadId = t then
        .ok (setHandler { s with threads := s.threads.insert t queue } t
          (some ⟨reply, .removeCall⟩))
      else .error .assertion)
  | _ => none

/-- The next statement of the stub that thread `t` is in. -/
def stubStep (s : Guest τ ρ) (t : τ) : Stub ρ → Option (Except CallFault (Guest τ ρ))
  | .called id async => some do
      let s ← s.shadowThreadSelf t
      return s.goto t (some (.named id async))
  | .named id async => some do
      let record := s.records.length
      let s : Guest τ ρ := { s with records := s.records ++ [some ⟨none, async, false⟩] }
      let s ← s.addCall id record
      return (s.log (.added id record)).goto t (some (.added id async record))
  | .added id async record =>
    let s : Guest τ ρ := { s with sent := s.sent ++ [(id, t)] }
    some (.ok (s.goto t (if async then none else some (.waiting id record))))
  | .waiting id record => some do
      let r ← s.read record
      return s.goto t (some (if r.callComplete then .returning id record else .popping id record))
  | .popping id record => (s.goto t (some (.waiting id record))).handleSingleCommand t
  | .returning id record => some do
      let r ← s.read record
      return s.goto t (some (.freeing id record r.ret))
  | .freeing id record ret => some do
      let s ← s.free record
      return ((s.log (.freed id record)).log (.returned id ret)).goto t none

/-- The next statement of `return_command_implementation` on thread `t`. -/
def handlerStep (s : Guest τ ρ) (t : τ) (h : Handler τ ρ) : Except CallFault (Guest τ ρ) :=
  let id := h.reply.callId
  match h.pc with
  | .removeCall => do
      let (record, s) ← s.removeCall id
      return (s.log (.removed id record)).setHandler t (some ⟨h.reply, .copyResults record⟩)
  | .copyResults record => do
      let r ← s.read record
      let s ← s.write record { r with ret := some h.reply.ret }
      return (s.log (.applied id record h.reply.ret)).setHandler t
        (some ⟨h.reply, .setComplete record⟩)
  | .setComplete record => do
      let r ← s.read record
      let s ← s.write record { r with callComplete := true }
      return s.setHandler t (some ⟨h.reply, .testDeallocate record⟩)
  | .testDeallocate record => do
      let r ← s.read record
      return s.setHandler t
        (if r.handlerDeallocate then some ⟨h.reply, .deallocate record⟩ else none)
  | .deallocate record => do
      let s ← s.free record
      return (s.log (.freed id record)).setHandler t none

/-- The worker's reply to the `k`-th call that it has got. -/
def reply (s : Guest τ ρ) (k : Nat) (ret : ρ) : Option (Guest τ ρ) :=
  (s.sent[k]?).map fun call =>
    log { s with
      sent := s.sent.eraseIdx k
      replies := s.replies ++ [⟨call.1, call.2, ret⟩] } (.replied call.1 ret)

/-- `shadow_thread_pool_dispatch` of the `k`-th reply. -/
def dispatch (s : Guest τ ρ) (k : Nat) : Option (Except CallFault (Guest τ ρ)) :=
  (s.replies[k]?).map fun r =>
    match s.threads.lookup r.threadId with
    | some queue => .ok { s with
        replies := s.replies.eraseIdx k
        threads := s.threads.insert r.threadId (queue ++ [r]) }
    | none => .error .strayReply

end Guest

/-- A thread calls a stub or goes on, the worker replies to a call, a reply is dispatched. -/
inductive GuestOp (τ ρ : Type) where
  | call (t : τ) (async : Bool)
  | run (t : τ)
  | reply (k : Nat) (ret : ρ)
  | dispatch (k : Nat)

section Step

variable {τ ρ : Type} [DecidableEq τ]

def guestStep (s : Guest τ ρ) : GuestOp τ ρ → Option (Except CallFault (Guest τ ρ))
  | .call t async =>
    match s.stub t, s.handler t with
    | none, none =>
      -- `ava_get_call_id`
      let id := s.counter % 2 ^ 64
      some (.ok (({ s with counter := s.counter + 1 }.log (.called id t async)).goto t
        (some (.called id async))))
    | _, _ => none
  | .run t =>
    match s.handler t with
    | some h => some (s.handlerStep t h)
    | none => (s.stub t).bind (s.stubStep t)
  | .reply k ret => (s.reply k ret).map .ok
  | .dispatch k => s.dispatch k

/-- The 64-bit counter of the calls does not overflow. -/
def GuestOp.legal (s : Guest τ ρ) : GuestOp τ ρ → Prop
  | .call _ _ => s.counter < 2 ^ 64
  | _ => True

instance GuestOp.decidableLegal (s : Guest τ ρ) (op : GuestOp τ ρ) : Decidable (op.legal s) :=
  match op with
  | .call _ _ => inferInstanceAs (Decidable (s.counter < 2 ^ 64))
  | .run _ => isTrue trivial
  | .reply _ _ => isTrue trivial
  | .dispatch _ => isTrue trivial

/-- A step without fault. -/
def guestRun (s : Guest τ ρ) (op : GuestOp τ ρ) : Option (Guest τ ρ) :=
  match guestStep s op with
  | some (.ok s') => some s'
  | _ => none

end Step

end Ava.Endpoint
