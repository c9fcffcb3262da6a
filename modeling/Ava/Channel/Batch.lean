import Ava.Channel.Socket
import Ava.Lib.Transition

/-!
# Batched commands

The batching extension does not send the commands of the application one by one. The stubs put them
into the queue `pending_cmds`; a thread of the guest library takes them out, collects asynchronous
commands in the queue `active_cmds` and sends them together, when a synchronous command comes, when
there are enough of them, or after a while (`guestlib/extensions/cmd_batching.c`). A synchronous
command that finds no collected commands is sent by itself. The worker takes a batch apart again
(`worker/extensions/cmd_batching.c`).

A step of the thread is one round of its loop. Whether the time since the last batch is up is part
of the step, and so is what the memory for a batch contains before it is written.
-/

set_option autoImplicit false

namespace Ava.Channel

open Ava.Lib

def BATCH_SIZE : Nat := 50

/-- `struct command_wrapper`. -/
structure CommandWrapper (γ : Type) where
  cmd : Command
  chan : γ
  isAsync : Bool

/-- What goes to the worker: a command, or the arguments of `__do_batch_emit`. -/
inductive Emission (γ : Type) where
  | direct (chan : γ) (cmd : Bytes)
  | batch (commandBuffer : Bytes) (totalBufferSize : Nat)

/-! ## Sending a batch -/

/-- The first loop of `batch_emit`: the commands are put at the head of a queue, and their sizes are
added as `size_t`. -/
def batchCollect : List Command → List Command → Nat → List Command × Nat
  | [], queue, total => (queue, total)
  | cmd :: active, queue, total =>
    batchCollect active (cmd :: queue)
      ((total + (commandSize cmd.bytes + regionSize cmd.bytes)) % 2 ^ 64)

/-- A round of the second loop: a command is copied to the offset. There is no result if it would be
copied past the end of the buffer. -/
def copyCommand (cmd : Command) (r : Bytes × Nat) : Option (Bytes × Nat) :=
  let size := commandSize cmd.bytes + regionSize cmd.bytes
  if r.1.length < r.2 + size then none
  else some (writeAt r.1 r.2 (slice cmd.bytes 0 size), r.2 + size)

/-- `batch_emit`. The second loop takes the commands from the tail of the queue. There is no result
if the assertion on the offset fails. -/
def batchEmit (fresh : Nat → UInt8) (active : List Command) : Option (Bytes × Nat) :=
  let collected := batchCollect active [] 0
  (collected.1.foldrM copyCommand ((List.range collected.2).map fresh, 0)).bind fun r =>
    if r.2 = collected.2 then some (r.1, collected.2) else none

/-! ## The thread -/

/-- `struct command_batch`, and what has been inserted and sent. -/
structure CommandBatch (γ : Type) where
  pendingCmds : List (CommandWrapper γ)
  activeCmds : List Command
  inserted : List (CommandWrapper γ)
  emitted : List (Emission γ)

inductive BatchOp (γ : Type) where
  | insert (wrap : CommandWrapper γ)
  | process (elapsed : Bool) (fresh : Nat → UInt8)
  | timeout (elapsed : Bool) (fresh : Nat → UInt8)

/-- The command with another `thread_id`. -/
def setThreadId (cmd : Bytes) (threadId : Nat) : Bytes := writeAt cmd 16 (leBytes 8 threadId)

namespace CommandBatch

variable {γ : Type}

def empty : CommandBatch γ := ⟨[], [], [], []⟩

/-- `batch_insert_command`. -/
def insertCommand (b : CommandBatch γ) (wrap : CommandWrapper γ) : CommandBatch γ :=
  { b with pendingCmds := b.pendingCmds ++ [wrap], inserted := b.inserted ++ [wrap] }

/-- The rest of a round of `batch_process_thread`, for what the pending queue has returned. -/
def processWrap (threadId : Nat) (b : CommandBatch γ) (wrap : Option (CommandWrapper γ))
    (elapsed : Bool) (fresh : Nat → UInt8) : Option (CommandBatch γ) :=
  let active := b.activeCmds ++ (wrap.map CommandWrapper.cmd).toList
  let emit := (batchEmit fresh active).map fun r =>
    { b with activeCmds := [], emitted := b.emitted ++ [.batch r.1 r.2] }
  match wrap with
  | some w =>
    -- a synchronous command with nothing to wait for is sent by itself
    if w.isAsync = false ∧ b.activeCmds.length = 0 then
      some { b with emitted := b.emitted ++ [.direct w.chan (setThreadId w.cmd.bytes threadId)] }
    else if w.isAsync = false ∨ BATCH_SIZE ≤ active.length ∨ elapsed = true then emit
    else some { b with activeCmds := active }
  | none =>
    -- the wait for a command has timed out
    if BATCH_SIZE ≤ active.length ∨ elapsed = true then emit
    else some { b with activeCmds := active }

/-- The steps of the threads. The pending queue returns nothing only while it is empty. -/
def step (threadId : Nat) (b : CommandBatch γ) : BatchOp γ → Option (CommandBatch γ)
  | .insert wrap => some (b.insertCommand wrap)
  | .process elapsed fresh =>
    match b.pendingCmds with
    | [] => none
    | wrap :: pending =>
      processWrap threadId { b with pendingCmds := pending } (some wrap) elapsed fresh
  | .timeout elapsed fresh =>
    match b.pendingCmds with
    | [] => processWrap threadId b none elapsed fresh
    | _ :: _ => none

end CommandBatch

/-! ## The worker -/

/-- The loop of `__do_batch_execute`: the commands that are executed. The bound on the rounds is
enough if no command has size zero. -/
def batchExecute (commandBuffer : Bytes) (totalBufferSize : Nat) : Nat → Nat → Option (List Bytes)
  | 0, _ => none
  | rounds + 1, offset =>
    if offset < totalBufferSize then
      -- the size of a command is read from its own struct
      let cmd := commandBuffer.drop offset
      let size := commandSize cmd + regionSize cmd
      (batchExecute commandBuffer totalBufferSize rounds (offset + size)).map
        (slice commandBuffer offset size :: ·)
    else some []

/-- The commands that the worker executes for what it gets. A command is its block after
`send_command` has set `command_type`. -/
def Emission.execute {γ : Type} : Emission γ → Option (List Bytes)
  | .direct _ cmd => some [cmd]
  | .batch commandBuffer totalBufferSize =>
    batchExecute commandBuffer totalBufferSize (totalBufferSize + 1) 0

/-- All commands that the worker executes. -/
def CommandBatch.executed {γ : Type} (b : CommandBatch γ) : Option (List Bytes) :=
  (b.emitted.mapM Emission.execute).map List.flatten

end Ava.Channel
