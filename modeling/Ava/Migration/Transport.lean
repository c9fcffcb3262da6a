import Ava.Channel.Socket
import Ava.Endpoint.Extract

/-!
# The channels of a migration

A self migration extracts into a log channel and reads the commands back from it; a live migration
extracts into a TCP socket. Both are output channels for the extraction. The commands of the
migration itself have the internal api id and the command ids of `cmd_handler.h`.
-/

set_option autoImplicit false

namespace Ava.Migration

open Ava.Lib Ava.Channel Ava.Endpoint

/-- `COMMAND_HANDLER_API`. -/
def commandHandlerApi : UInt8 := 0

/-- The commands of the internal api. -/
inductive InternalCommand where
  | initializeApi
  | shutdownApi
  | replaceExplicitState
  | threadExit
  | recordedPair
  | startMigration
  | startLiveMigration
  | endMigration
  | acceptLiveMigration
  | endLiveMigration
deriving DecidableEq

namespace InternalCommand

/-- The value of the enumeration constant. -/
def id : InternalCommand → UInt64
  | initializeApi => 0
  | shutdownApi => 1
  | replaceExplicitState => 2
  | threadExit => 3
  | recordedPair => 4
  | startMigration => 5
  | startLiveMigration => 6
  | endMigration => 7
  | acceptLiveMigration => 8
  | endLiveMigration => 9

/-- The command with a given id. -/
def ofId : Nat → Option InternalCommand
  | 0 => some initializeApi
  | 1 => some shutdownApi
  | 2 => some replaceExplicitState
  | 3 => some threadExit
  | 4 => some recordedPair
  | 5 => some startMigration
  | 6 => some startLiveMigration
  | 7 => some endMigration
  | 8 => some acceptLiveMigration
  | 9 => some endLiveMigration
  | _ => none

@[simp] theorem ofId_id (c : InternalCommand) : ofId c.id.toNat = some c := by
  cases c <;> rfl

end InternalCommand

/-- `sizeof(struct ava_replay_command_t)`. -/
def replayCommandSize : Nat := commandBaseSize + 24

/-- `sizeof(struct ava_replay_command_pair_t)`. -/
def replayCommandPairSize : Nat := commandBaseSize + 16

/-- The fields of `struct ava_replay_command_t` behind its base. -/
def replayCommandFields (id : Ptr) (data dataLength : Nat) : Bytes :=
  leBytes 8 id.toNat ++ leBytes 8 data ++ leBytes 8 dataLength

/-- The fields of `struct ava_replay_command_pair_t` behind its base. -/
def replayCommandPairFields (callCmd retCmd : Nat) : Bytes :=
  leBytes 8 callCmd ++ leBytes 8 retCmd

/-- What the extraction function of an object returns: a buffer in the address space of the
process. -/
abbrev ExplicitState := { state : Bytes // state.length < 2 ^ 46 }

/-! ## The log channel -/

/-- The base of an internal command that is built for a log. -/
def logBase (d : Log.Draft) (c : InternalCommand) (structSize regionSize : Nat) : CommandBase :=
  { CommandBase.new structSize regionSize d.reservedArea d.length_reservedArea with
    apiId := commandHandlerApi, commandId := c.id }

/-- A log as the target of an extraction. The buffer offset of a draft does not advance, so the
second buffer of a pair is written over the first. -/
def logChannel : OutputChannel Log where
  transferCommand := fun log cmd => (log.transferCommand cmd).2
  sendPair := fun log call ret =>
    let new := log.newCommand replayCommandPairSize (call.length + ret.length)
    let first := new.2.attachBuffer new.1 call
    let second := first.2.attachBuffer new.1 ret
    some (second.2.sendCommand new.1
      ((logBase new.1 .recordedPair replayCommandPairSize (call.length + ret.length)).encode ++
        replayCommandPairFields first.1 second.1))
  sendExplicitState := fun log id data =>
    let new := log.newCommand replayCommandSize data.length
    let attached := new.2.attachBuffer new.1 data
    some (attached.2.sendCommand new.1
      ((logBase new.1 .replaceExplicitState replayCommandSize data.length).encode ++
        replayCommandFields id attached.1 data.length))

/-- A command without arguments at the end of a log. -/
def logSendPlain (log : Log) (c : InternalCommand) : Log :=
  let new := log.newCommand commandBaseSize 0
  new.2.sendCommand new.1 (logBase new.1 c commandBaseSize 0).encode

/-! ## The socket channel -/

/-- The bytes of a `COMMAND_HANDLER_RECORDED_PAIR` command, unless an assertion fails. -/
def socketPair (vmId : UInt8) (call ret : Bytes) : Option Bytes := do
  let new := SocketDraft.new replayCommandPairSize (call.length + ret.length)
  let (callCmd, first) ← new.attachBuffer call
  let (retCmd, second) ← first.attachBuffer ret
  return second.sendCommand vmId commandHandlerApi InternalCommand.recordedPair.id
    (replayCommandPairFields callCmd retCmd)

/-- The bytes of a `COMMAND_HANDLER_REPLACE_EXPLICIT_STATE` command. -/
def socketExplicitState (vmId : UInt8) (id : Ptr) (data : Bytes) : Option Bytes := do
  let new := SocketDraft.new replayCommandSize data.length
  let (buffer, attached) ← new.attachBuffer data
  return attached.sendCommand vmId commandHandlerApi InternalCommand.replaceExplicitState.id
    (replayCommandFields id buffer data.length)

/-- The bytes of a command without arguments. -/
def socketPlain (vmId : UInt8) (c : InternalCommand) : Bytes :=
  (SocketDraft.new commandBaseSize 0).sendCommand vmId commandHandlerApi c.id []

/-- Sending a command that may have failed to be built. -/
def sendBuilt (w : Wire) (built : Option Bytes) : Wire :=
  match built with
  | none => w.abort
  | some cmd => w.sendSocket cmd

/-- A socket as the target of an extraction. A failed assertion is kept on the wire, where the
receiver still gets what was sent before. -/
def socketChannel (vmId : UInt8) : OutputChannel Wire where
  transferCommand := Wire.transferCommand
  sendPair := fun w call ret => some (sendBuilt w (socketPair vmId call ret))
  sendExplicitState := fun w id data => some (sendBuilt w (socketExplicitState vmId id data))

end Ava.Migration
