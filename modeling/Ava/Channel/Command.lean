import Ava.Lib.Bytes

/-!
# Commands as blocks of memory

A command is a block that starts with a `struct command_base`, continues with the fields of the
particular command, and ends with the data region that holds the attached buffers. The layout is
that of the struct on x86-64. The code reads the fields of commands it did not build, so they are
functions of the block; `CommandBase.encode` builds the block of a struct, and each field is read
back from it.
-/

set_option autoImplicit false

namespace Ava.Channel

open Ava.Lib

/-- `sizeof(struct command_base)`. -/
def commandBaseSize : Nat := 136

theorem commandBaseSize_pos : 0 < commandBaseSize := Nat.succ_pos 135

/-! ## Fields of a block -/

def apiId (cmd : Bytes) : Nat := leNat (slice cmd 0 1)

def commandId (cmd : Bytes) : Nat := leNat (slice cmd 40 8)

def commandSize (cmd : Bytes) : Nat := leNat (slice cmd 48 8)

def regionSize (cmd : Bytes) : Nat := leNat (slice cmd 64 8)

/-- The pointer field at offset `off` of a command struct, such as a buffer id. -/
def pointerField (cmd : Bytes) (off : Nat) : Nat := leNat (slice cmd off 8)

/-- `struct command_base`. The reserved area belongs to the channel the command is built for. -/
structure CommandBase where
  apiId : UInt8
  vmId : UInt8
  commandType : UInt64
  threadId : UInt64
  originalThreadId : UInt64
  flags : UInt8
  commandId : UInt64
  commandSize : UInt64
  dataRegion : UInt64
  regionSize : UInt64
  reservedArea : Bytes
  reservedArea_length : reservedArea.length = 64

/-- The bytes of the struct; the two gaps are alignment. -/
def CommandBase.encode (b : CommandBase) : Bytes :=
  leBytes 1 b.apiId.toNat ++ leBytes 1 b.vmId.toNat ++ leBytes 6 0 ++
  leBytes 8 b.commandType.toNat ++ leBytes 8 b.threadId.toNat ++
  leBytes 8 b.originalThreadId.toNat ++ leBytes 1 b.flags.toNat ++ leBytes 7 0 ++
  leBytes 8 b.commandId.toNat ++ leBytes 8 b.commandSize.toNat ++
  leBytes 8 b.dataRegion.toNat ++ leBytes 8 b.regionSize.toNat ++ b.reservedArea

namespace CommandBase

/-- What `command_channel_new_command` fills in: the sizes, and the reserved area of the channel.
Everything else is zero until the caller sets it. -/
def new (structSize regionSize : Nat) (reservedArea : Bytes)
    (hreserved : reservedArea.length = 64) : CommandBase where
  apiId := 0
  vmId := 0
  commandType := 0
  threadId := 0
  originalThreadId := 0
  flags := 0
  commandId := 0
  commandSize := UInt64.ofNat structSize
  dataRegion := UInt64.ofNat structSize
  regionSize := UInt64.ofNat regionSize
  reservedArea := reservedArea
  reservedArea_length := hreserved

variable (b : CommandBase) (rest : Bytes)

@[simp] theorem length_encode : b.encode.length = commandBaseSize := by
  simp [encode, b.reservedArea_length, commandBaseSize]

@[simp] theorem apiId_encode : Channel.apiId (b.encode ++ rest) = b.apiId.toNat := by
  have hslice : slice (b.encode ++ rest) 0 1 = leBytes 1 b.apiId.toNat := by
    simp [encode, slice_append_first]
  rw [Channel.apiId, hslice]
  exact leNat_leBytes_of_lt b.apiId.toNat_lt

/-- An eight-byte field that starts at `off` is read back. -/
theorem leNat_slice_of_eq (x : UInt64) (off : Nat)
    (hslice : slice (b.encode ++ rest) off 8 = leBytes 8 x.toNat) :
    leNat (slice (b.encode ++ rest) off 8) = x.toNat := by
  rw [hslice]
  exact leNat_leBytes_of_lt x.toNat_lt

@[simp] theorem commandId_encode :
    Channel.commandId (b.encode ++ rest) = b.commandId.toNat := by
  apply b.leNat_slice_of_eq rest b.commandId 40
  simp [encode, slice_append_of_le, slice_append_first]

@[simp] theorem commandSize_encode :
    Channel.commandSize (b.encode ++ rest) = b.commandSize.toNat := by
  apply b.leNat_slice_of_eq rest b.commandSize 48
  simp [encode, slice_append_of_le, slice_append_first]

@[simp] theorem regionSize_encode :
    Channel.regionSize (b.encode ++ rest) = b.regionSize.toNat := by
  apply b.leNat_slice_of_eq rest b.regionSize 64
  simp [encode, slice_append_of_le, slice_append_first]

end CommandBase

/-! ## Well-formed commands -/

/-- A whole command: its size fields describe the block, and the block fits into the 47-bit address
space of a process. -/
structure Command where
  bytes : Bytes
  header_le : commandBaseSize ≤ commandSize bytes
  size_eq : commandSize bytes + regionSize bytes = bytes.length
  size_lt : bytes.length < 2 ^ 47

namespace Command

instance : DecidableEq Command := fun c d =>
  decidable_of_iff (c.bytes = d.bytes) (by cases c; cases d; simp)

/-- The command struct of a command. -/
def struct (c : Command) : Bytes := slice c.bytes 0 (commandSize c.bytes)

/-- The data region, where `command_channel_get_data_region` of a socket or a log points to. -/
def region (c : Command) : Bytes := slice c.bytes (commandSize c.bytes) (regionSize c.bytes)

theorem struct_append_region (c : Command) : c.struct ++ c.region = c.bytes := by
  have hregion : c.region = c.bytes.drop (commandSize c.bytes) := by
    refine List.take_of_length_le ?_
    rw [List.length_drop, ← c.size_eq]
    omega
  rw [hregion, struct, slice, List.drop_zero, List.take_append_drop]

theorem length_ge (c : Command) : commandBaseSize ≤ c.bytes.length := by
  have h1 := c.header_le
  have h2 := c.size_eq
  omega

theorem bytes_ne_nil (c : Command) : c.bytes ≠ [] := by
  apply List.ne_nil_of_length_pos
  exact lt_of_lt_of_le (Nat.succ_pos 135) c.length_ge

/-- The command with base `b`, further struct fields `fields` and data region `region`. -/
def ofBase (b : CommandBase) (fields region : Bytes)
    (hsize : b.commandSize.toNat = commandBaseSize + fields.length)
    (hregion : b.regionSize.toNat = region.length)
    (hlt : commandBaseSize + fields.length + region.length < 2 ^ 47) : Command where
  bytes := b.encode ++ (fields ++ region)
  header_le := by rw [b.commandSize_encode, hsize]; omega
  size_eq := by
    rw [b.commandSize_encode, b.regionSize_encode, hsize, hregion]
    simp only [List.length_append, b.length_encode]
    omega
  size_lt := by
    simp only [List.length_append, b.length_encode]
    omega

/-- The command in a block, if the block is one. -/
def ofBytes (bytes : Bytes) : Option Command :=
  if h : commandBaseSize ≤ commandSize bytes ∧
      commandSize bytes + regionSize bytes = bytes.length ∧ bytes.length < 2 ^ 47 then
    some ⟨bytes, h.1, h.2.1, h.2.2⟩
  else none

/-- A command without arguments. -/
def ofIds (apiId : UInt8) (commandId : UInt64) : Command :=
  ofBase { CommandBase.new commandBaseSize 0 (List.replicate 64 0) (by simp) with
    apiId := apiId, commandId := commandId } [] [] rfl rfl (by decide)

end Command

theorem length_zeroArea : (List.replicate 64 (0 : UInt8)).length = 64 := List.length_replicate

end Ava.Channel
