import Ava.Channel.Command

/-!
# The socket channel

`common/cmd_channel_socket_utilities.cpp` builds a command in one block, the struct followed by the
attached buffers, and sends the block over a stream socket. The receiver reads the
`struct command_base` first and then as many bytes as its size fields say.
-/

set_option autoImplicit false

namespace Ava.Channel

open Ava.Lib

/-- `NW_NEW_INVOCATION`. -/
def newInvocation : UInt64 := 3

/-- A command that is being built: the sizes it was allocated with, the offset in its
`struct block_seeker`, and the buffers attached so far. -/
structure SocketDraft where
  structSize : Nat
  regionSize : Nat
  curOffset : Nat
  attached : Bytes

namespace SocketDraft

/-- `command_channel_socket_new_command`. -/
def new (structSize regionSize : Nat) : SocketDraft := ⟨structSize, regionSize, structSize, []⟩

/-- `command_channel_socket_attach_buffer`: an empty buffer fails the assertion, and one that does
not fit is written past the end of the block. The result is the buffer id. -/
def attachBuffer (d : SocketDraft) (buffer : Bytes) : Option (Nat × SocketDraft) :=
  if buffer = [] then none
  else if d.structSize + d.regionSize < d.curOffset + buffer.length then none
  else some (d.curOffset,
    { d with curOffset := d.curOffset + buffer.length, attached := d.attached ++ buffer })

/-- `struct block_seeker` in the reserved area; its two other offsets are for shared memory. -/
def reservedArea (d : SocketDraft) : Bytes :=
  List.replicate 16 0 ++ leBytes 8 d.curOffset ++ List.replicate 40 0

theorem length_reservedArea (d : SocketDraft) : d.reservedArea.length = 64 := by
  simp [reservedArea]

/-- The base of the command when it is sent. -/
def base (d : SocketDraft) (vmId apiId : UInt8) (commandId : UInt64) : CommandBase :=
  { CommandBase.new d.structSize d.regionSize d.reservedArea d.length_reservedArea with
    vmId := vmId, apiId := apiId, commandId := commandId, commandType := newInvocation }

/-- `command_channel_socket_send_command`: the bytes on the stream. `fields` are the fields of the
struct behind its base. -/
def sendCommand (d : SocketDraft) (vmId apiId : UInt8) (commandId : UInt64) (fields : Bytes) :
    Bytes :=
  (d.base vmId apiId commandId).encode ++
    (fields ++ d.attached ++ List.replicate (d.structSize + d.regionSize - d.curOffset) 0)

end SocketDraft

/-- What a sender has put on the stream. Nothing follows a failed assertion, which ends the
process. -/
structure Wire where
  stream : Bytes
  aborted : Bool

namespace Wire

def new : Wire := ⟨[], false⟩

def abort (w : Wire) : Wire := { w with aborted := true }

/-- `send_socket`, which asserts that there is something to send. -/
def sendSocket (w : Wire) (buf : Bytes) : Wire :=
  if w.aborted then w else if buf = [] then w.abort else { w with stream := w.stream ++ buf }

/-- `command_channel_socket_transfer_command`: the struct and the data region of `cmd`. -/
def transferCommand (w : Wire) (cmd : Bytes) : Wire :=
  (w.sendSocket (slice cmd 0 (commandSize cmd))).sendSocket
    (slice cmd (commandSize cmd) (regionSize cmd))

end Wire

/-- `command_channel_socket_receive_command`: the next command and what is left of the stream. -/
def receiveCommand (stream : Bytes) : Option (Bytes × Bytes) :=
  let size := commandSize stream + regionSize stream
  if stream.length < commandBaseSize ∨ size < commandBaseSize ∨ stream.length < size then none
  else some (stream.take size, stream.drop size)

/-- The size fields of a block describe it. -/
def WellSized (cmd : Bytes) : Prop :=
  commandBaseSize ≤ commandSize cmd ∧ commandSize cmd + regionSize cmd = cmd.length

theorem Command.wellSized (c : Command) : WellSized c.bytes := ⟨c.header_le, c.size_eq⟩

/-- Fields of the base are read from the front of the stream. -/
theorem fields_append {cmd : Bytes} (rest : Bytes) (h : commandBaseSize ≤ cmd.length) :
    apiId (cmd ++ rest) = apiId cmd ∧ commandId (cmd ++ rest) = commandId cmd ∧
      commandSize (cmd ++ rest) = commandSize cmd ∧ regionSize (cmd ++ rest) = regionSize cmd := by
  rw [commandBaseSize] at h
  refine ⟨?_, ?_, ?_, ?_⟩
  · rw [apiId, apiId, slice_append_left rest (by omega)]
  · rw [commandId, commandId, slice_append_left rest (by omega)]
  · rw [commandSize, commandSize, slice_append_left rest (by omega)]
  · rw [regionSize, regionSize, slice_append_left rest (by omega)]

/-- A command that is on the stream is received as it was sent. -/
theorem receiveCommand_append {cmd : Bytes} (h : WellSized cmd) (rest : Bytes) :
    receiveCommand (cmd ++ rest) = some (cmd, rest) := by
  obtain ⟨hbase, hsize⟩ := h
  have hle : commandBaseSize ≤ cmd.length := by omega
  obtain ⟨-, -, hcs, hrs⟩ := fields_append rest hle
  have hcond : ¬ ((cmd ++ rest).length < commandBaseSize ∨ cmd.length < commandBaseSize ∨
      (cmd ++ rest).length < cmd.length) := by
    rw [List.length_append]
    omega
  simp only [receiveCommand, hcs, hrs, hsize, if_neg hcond, List.take_left, List.drop_left]

namespace SocketDraft

variable {d : SocketDraft} {vmId apiId : UInt8} {commandId : UInt64} {fields : Bytes}

theorem attachBuffer_eq {buffer : Bytes} (hbuffer : buffer ≠ [])
    (hfits : d.curOffset + buffer.length ≤ d.structSize + d.regionSize) :
    d.attachBuffer buffer = some (d.curOffset,
      { d with curOffset := d.curOffset + buffer.length, attached := d.attached ++ buffer }) := by
  rw [attachBuffer, if_neg hbuffer, if_neg (by omega)]

/-- A draft that was filled to its end is sent as a well-sized block. -/
theorem wellSized_sendCommand (hfields : d.structSize = commandBaseSize + fields.length)
    (hcur : d.curOffset = d.structSize + d.attached.length)
    (hfull : d.attached.length = d.regionSize) (hlt : d.structSize + d.regionSize < 2 ^ 64) :
    WellSized (d.sendCommand vmId apiId commandId fields) := by
  have hs : (UInt64.ofNat d.structSize).toNat = d.structSize :=
    UInt64.toNat_ofNat_of_lt (by rw [UInt64.size]; omega)
  have hr : (UInt64.ofNat d.regionSize).toNat = d.regionSize :=
    UInt64.toNat_ofNat_of_lt (by rw [UInt64.size]; omega)
  constructor
  · rw [sendCommand, CommandBase.commandSize_encode]
    exact le_trans (by omega) hs.ge
  · rw [sendCommand, CommandBase.commandSize_encode, CommandBase.regionSize_encode]
    refine (congrArg₂ (· + ·) hs hr).trans ?_
    simp only [List.length_append, CommandBase.length_encode, List.length_replicate]
    omega

end SocketDraft

end Ava.Channel
