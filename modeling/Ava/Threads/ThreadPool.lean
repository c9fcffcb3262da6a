import Ava.Lib.HashTable
import Ava.Lib.Transition

/-!
# The shadow thread pool

`common/shadow_thread_pool.c` runs every command in the thread that belongs to the command's
`thread_id`. A thread of the application that uses the pool is solid: it registers itself under its
own id. For an id that is not registered a shadow thread is created. The dispatcher finds the thread
in the table and puts the command into the queue of the thread, under the lock of the pool; a thread
takes the commands out of its queue and handles them. A thread-exit command ends the loop of a
shadow thread, which is then removed from the table, again under the lock, by the destructor of the
pool's key.

A step is what one thread does between two points at which other threads can interfere. The
dispatcher has three: it takes the lock and looks the thread up, creates a thread, pushes the
command. A solid thread registers in two steps, without the lock. `dispatched` and `handled` are the
history.
-/

set_option autoImplicit false

namespace Ava.Threads

open Ava.Lib

/-- The id of the internal API, also called `INTERNAL_API`. -/
def COMMAND_HANDLER_API : Nat := 0

/-- A value of `enum command_handler_command_id`. -/
def COMMAND_HANDLER_THREAD_EXIT : Nat := 3

/-- The fields of `struct command_base` that the pool reads, and the rest of the command. -/
structure ThreadCommand (ι β : Type) where
  apiId : Nat
  commandId : Nat
  threadId : ι
  body : β
deriving DecidableEq

/-- The command ends its thread. -/
def ThreadCommand.isThreadExit {ι β : Type} (cmd : ThreadCommand ι β) : Bool :=
  cmd.apiId == COMMAND_HANDLER_API && cmd.commandId == COMMAND_HANDLER_THREAD_EXIT

/-- `struct shadow_thread_t`, and whether the thread has taken a thread-exit command. -/
structure ShadowThread (ι β : Type) where
  avaId : ι
  queue : List (ThreadCommand ι β)
  thread : ι
  exiting : Bool
deriving DecidableEq

/-- The thread is one of the application. -/
def ShadowThread.isSolid {ι β : Type} [DecidableEq ι] (t : ShadowThread ι β) : Bool :=
  t.avaId == t.thread

/-- Where the dispatcher is while it has the lock. -/
inductive Dispatching (ι ρ β : Type) where
  | creating (cmd : ThreadCommand ι β)
  | pushing (cmd : ThreadCommand ι β) (t : ρ)

/-- The pool, the threads and the history. -/
structure ThreadPool (ι ρ β : Type) where
  threads : HashTable ι ρ
  /-- The heap objects that the pointers to threads point to. -/
  records : HashTable ρ (ShadowThread ι β)
  /-- The dispatcher, if it has the lock. -/
  lock : Option (Dispatching ι ρ β)
  /-- The solid threads that are about to register. -/
  registering : List ι
  /-- The commands that destructors have sent to the other end. -/
  sent : List (ThreadCommand ι β)
  dispatched : List (ThreadCommand ι β)
  /-- The commands that have been handled, each with the id of the thread. -/
  handled : List (ι × ThreadCommand ι β)

/-- Failed assertions, an access to a freed thread, and steps that are not possible now. -/
inductive ThreadFault where
  | alreadyRegistered | sameThread | threadIdMismatch | exitWhileWaiting | dangling | blocked
deriving DecidableEq, Repr

namespace ThreadPool

variable {ι ρ β : Type} [DecidableEq ι] [DecidableEq ρ]

def empty : ThreadPool ι ρ β := ⟨∅, ∅, none, [], [], [], []⟩

/-- The first part of `shadow_thread_pool_dispatch`. An exit command for an unknown thread is
dropped. -/
def lookup (s : ThreadPool ι ρ β) (cmd : ThreadCommand ι β) :
    Except ThreadFault (ThreadPool ι ρ β) :=
  if s.lock.isSome then .error .blocked
  else match s.threads.lookup cmd.threadId with
    | some t => .ok { s with lock := some (.pushing cmd t) }
    | none =>
      if cmd.isThreadExit then .ok { s with dispatched := s.dispatched ++ [cmd] }
      else .ok { s with lock := some (.creating cmd) }

/-- `shadow_thread_new`, in the dispatcher. The id of the new thread is `thread`. -/
def shadowThreadNew (s : ThreadPool ι ρ β) (t : ρ) (thread : ι) :
    Except ThreadFault (ThreadPool ι ρ β) :=
  match s.lock with
  | some (.creating cmd) =>
    -- the allocator does not return an address that is in use
    if t ∈ s.records then .error .blocked
    else if cmd.threadId ∈ s.threads then .error .alreadyRegistered
    else if thread = cmd.threadId then .error .sameThread
    else .ok { s with
      threads := s.threads.insert cmd.threadId t
      records := s.records.insert t ⟨cmd.threadId, [], thread, false⟩
      lock := some (.pushing cmd t) }
  | _ => .error .blocked

/-- The last part of `shadow_thread_pool_dispatch`. -/
def push (s : ThreadPool ι ρ β) : Except ThreadFault (ThreadPool ι ρ β) :=
  match s.lock with
  | some (.pushing cmd ptr) =>
    match s.records.lookup ptr with
    | none => .error .dangling
    | some t => .ok { s with
        records := s.records.insert ptr { t with queue := t.queue ++ [cmd] }
        lock := none
        dispatched := s.dispatched ++ [cmd] }
  | _ => .error .blocked

/-- The first part of `shadow_thread_self`, in a thread of the application whose id is `self`. A
thread that has registered finds its own record. -/
def selfCheck (s : ThreadPool ι ρ β) (self : ι) : Except ThreadFault (ThreadPool ι ρ β) :=
  match (s.threads.lookup self).bind fun ptr => s.records.lookup ptr with
  | some t => if t.thread = self then .ok s else .error .alreadyRegistered
  | none => .ok { s with registering := self :: s.registering }

/-- The second part of `shadow_thread_self`. -/
def selfRegister (s : ThreadPool ι ρ β) (self : ι) (t : ρ) :
    Except ThreadFault (ThreadPool ι ρ β) :=
  if self ∉ s.registering ∨ t ∈ s.records then .error .blocked
  else if self ∈ s.threads then .error .alreadyRegistered
  else .ok { s with
    threads := s.threads.insert self t
    records := s.records.insert t ⟨self, [], self, false⟩
    registering := s.registering.erase self }

/-- `shadow_thread_handle_single_command`. A shadow thread calls it in its loop, which ends with a
thread-exit command, and a solid thread while it waits for a reply, where no such command is
expected. -/
def handleSingleCommand (s : ThreadPool ι ρ β) (ptr : ρ) :
    Except ThreadFault (ThreadPool ι ρ β) :=
  match s.records.lookup ptr with
  | none => .error .blocked
  | some t =>
    -- the loop has ended, the destructor is next
    if t.exiting then .error .blocked
    else match t.queue with
      | [] => .error .blocked
      | cmd :: queue =>
        if cmd.isThreadExit then
          if t.isSolid then .error .exitWhileWaiting
          else .ok { s with
            records := s.records.insert ptr { t with queue := queue, exiting := true } }
        else if cmd.threadId ≠ t.avaId then .error .threadIdMismatch
        else .ok { s with
          records := s.records.insert ptr { t with queue := queue }
          handled := s.handled ++ [(t.avaId, cmd)] }

/-- The command that tells the other end that a solid thread has ended. -/
def threadExit (body : β) (id : ι) : ThreadCommand ι β :=
  ⟨COMMAND_HANDLER_API, COMMAND_HANDLER_THREAD_EXIT, id, body⟩

/-- `shadow_thread_free_from_thread`, the destructor, which a thread calls when it ends: a shadow
thread after its loop, a solid thread at any time. -/
def freeFromThread (s : ThreadPool ι ρ β) (ptr : ρ) (body : β) :
    Except ThreadFault (ThreadPool ι ρ β) :=
  if s.lock.isSome then .error .blocked
  else match s.records.lookup ptr with
    | none => .error .blocked
    | some t =>
      -- the queue goes with the record, whatever is in it
      if t.isSolid || t.exiting then
        .ok { s with
          sent := if t.isSolid then s.sent ++ [threadExit body t.avaId] else s.sent
          threads := s.threads.erase t.avaId
          records := s.records.erase ptr }
      else .error .blocked

/-- The steps of the dispatcher and of the threads. -/
inductive Op (ι ρ β : Type) where
  | lookup (cmd : ThreadCommand ι β)
  | create (t : ρ) (thread : ι)
  | push
  | selfCheck (self : ι)
  | selfRegister (self : ι) (t : ρ)
  | handle (t : ρ)
  | free (t : ρ) (body : β)

def run (s : ThreadPool ι ρ β) : Op ι ρ β → Except ThreadFault (ThreadPool ι ρ β)
  | .lookup cmd => s.lookup cmd
  | .create t thread => s.shadowThreadNew t thread
  | .push => s.push
  | .selfCheck self => s.selfCheck self
  | .selfRegister self t => s.selfRegister self t
  | .handle t => s.handleSingleCommand t
  | .free t body => s.freeFromThread t body

def step (s : ThreadPool ι ρ β) (op : Op ι ρ β) : Option (ThreadPool ι ρ β) := (s.run op).toOption

end ThreadPool

end Ava.Threads
