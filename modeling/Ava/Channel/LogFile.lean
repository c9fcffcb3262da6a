import Ava.Channel.Log
import Ava.Lib.File

/-!
# The log channel and its file

The operations of `common/cmd_channel_record.c` share the position of one file descriptor; each of
them seeks before it reads or writes. `LogChannel` has the operations as they are, in terms of
seeks, reads and writes. None of them calls `read` or `write` again for what one call has left: a
command of more than `File.maxTransfer` bytes is not stored or not loaded as a whole. For all other
commands every operation does to the contents of the file what the operation of `Log` does.
-/

set_option autoImplicit false

namespace Ava.Channel

open Ava.Lib

/-- `struct command_channel_log`. -/
structure LogChannel where
  file : File
  readOffset : Int

namespace LogChannel

/-! ## The operations -/

/-- `command_channel_log_new`. -/
def new : LogChannel := ⟨File.empty, 0⟩

/-- `command_channel_log_transfer_command`, for a command at `cmd` whose data region is at
`dataRegion`. The result is the offset of the record; there is none if a write fails. -/
def transferCommand (chan : LogChannel) (cmd dataRegion : Bytes) : Option (Nat × LogChannel) := do
  let (pos, file) := chan.file.seekEnd
  let file ← file.write (recordCommandMetadata (commandSize cmd + regionSize cmd) 0)
  let file ← file.write (slice cmd 0 (commandSize cmd))
  let file ← file.write (slice dataRegion 0 (regionSize cmd))
  return (pos, { chan with file := file })

/-- `command_channel_log_update_flags`. -/
def updateFlags (chan : LogChannel) (offset : Int) (flags : UInt32) : Option LogChannel :=
  if offset < 0 then none
  else do
    let file ← (chan.file.seekSet (offset + 8)).write (leBytes 4 flags.toNat)
    return { chan with file := file }

/-- `command_channel_log_load_command`: flags and command, or `NULL`. The read offset is moved as
soon as the metadata was read, also where the command is then too short. -/
def loadCommand (chan : LogChannel) (offset : Int) : Option (Nat × Bytes) × LogChannel :=
  let offset := if offset < 0 then chan.readOffset else offset
  let (metadata, file) := (chan.file.seekSet offset).read metadataSize
  if metadata.length ≠ metadataSize then (none, { chan with file := file })
  else
    let size := leNat (slice metadata 0 8)
    let (cmd, file) := file.read size
    let chan := ⟨file, signed64 (offset + size + metadataSize)⟩
    if cmd.length ≠ size then (none, chan) else (some (leNat (slice metadata 8 4), cmd), chan)

/-- `command_channel_log_new_command`: the metadata is written, and the offsets for the rest of the
record are kept in the reserved area of the command. -/
def newCommand (chan : LogChannel) (structSize regionSize : Nat) :
    Option (Log.Draft × LogChannel) := do
  let (pos, file) := chan.file.seekEnd
  let file ← file.write (recordCommandMetadata (structSize + regionSize) 0)
  let start := pos + metadataSize
  return (⟨start, start + structSize⟩, { chan with file := file })

/-- `command_channel_log_attach_buffer`. The result is the buffer id. -/
def attachBuffer (chan : LogChannel) (d : Log.Draft) (buffer : Bytes) :
    Option (Nat × LogChannel) := do
  let file ← (chan.file.seekSet d.currentBufferOffset).write buffer
  return (d.currentBufferOffset - d.commandStartOffset, { chan with file := file })

/-- `command_channel_log_send_command`. -/
def sendCommand (chan : LogChannel) (d : Log.Draft) (struct : Bytes) : Option LogChannel := do
  let file ← (chan.file.seekSet d.commandStartOffset).write struct
  return { chan with file := file }

/-- The log without the position of the descriptor. -/
def log (chan : LogChannel) : Log := ⟨chan.file.contents, chan.readOffset.toNat⟩

/-! ## What they do to the contents -/

variable {chan chan' : LogChannel}

theorem metadataSize_le : metadataSize ≤ File.maxTransfer := by decide

theorem take_metadata (size flags : Nat) :
    (recordCommandMetadata size flags).take File.maxTransfer = recordCommandMetadata size flags :=
  List.take_of_length_le (by rw [length_recordCommandMetadata]; exact metadataSize_le)

variable {cmd dataRegion : Bytes} {pos : Nat}

/-- A transfer appends metadata, struct and data region, or the first part of these. -/
theorem transferCommand_appends (h : chan.transferCommand cmd dataRegion = some (pos, chan')) :
    pos = chan.file.contents.length ∧
      chan'.file.contents = chan.file.contents ++
        recordCommandMetadata (commandSize cmd + regionSize cmd) 0 ++
          (slice cmd 0 (commandSize cmd)).take File.maxTransfer ++
        (slice dataRegion 0 (regionSize cmd)).take File.maxTransfer ∧
      chan'.readOffset = chan.readOffset ∧ chan'.file.contents.length < 2 ^ 63 := by
  obtain ⟨file₁, h₁, h⟩ := Option.bind_eq_some_iff.1 h
  obtain ⟨file₂, h₂, h⟩ := Option.bind_eq_some_iff.1 h
  obtain ⟨file₃, h₃, h⟩ := Option.bind_eq_some_iff.1 h
  cases h
  -- every write is at the end, where the one before it has left the position
  obtain ⟨hc₁, hp₁, -⟩ := File.write_end rfl h₁
  obtain ⟨hc₂, hp₂, -⟩ := File.write_end hp₁ h₂
  obtain ⟨hc₃, -, hlt⟩ := File.write_end hp₂ h₃
  refine ⟨rfl, ?_, rfl, hlt⟩
  rw [hc₃, hc₂, hc₁, take_metadata]

theorem length_slice_le (bs : Bytes) (off len : Nat) : (slice bs off len).length ≤ len := by
  rw [slice, List.length_take]
  exact Nat.min_le_left _ _

/-- A transfer of a command that one write can take appends all of it. -/
theorem transferCommand_whole (hsize : commandSize cmd + regionSize cmd ≤ File.maxTransfer)
    (h : chan.transferCommand cmd dataRegion = some (pos, chan')) :
    chan'.file.contents = chan.file.contents ++
      recordCommandMetadata (commandSize cmd + regionSize cmd) 0 ++ slice cmd 0 (commandSize cmd) ++
        slice dataRegion 0 (regionSize cmd) := by
  obtain ⟨-, hcontents, -⟩ := transferCommand_appends h
  have hstruct := length_slice_le cmd 0 (commandSize cmd)
  have hregion := length_slice_le dataRegion 0 (regionSize cmd)
  rw [hcontents, List.take_of_length_le (by omega), List.take_of_length_le (by omega)]

theorem exists_transferCommand (chan : LogChannel) (cmd dataRegion : Bytes)
    (h : chan.file.contents.length + metadataSize + commandSize cmd + regionSize cmd < 2 ^ 63) :
    ∃ r, chan.transferCommand cmd dataRegion = some r := by
  have hmeta := length_recordCommandMetadata (commandSize cmd + regionSize cmd) 0
  have hstruct := length_slice_le cmd 0 (commandSize cmd)
  have hregion := length_slice_le dataRegion 0 (regionSize cmd)
  obtain ⟨file₁, h₁, hp₁⟩ := File.exists_write chan.file.seekEnd.2
    (recordCommandMetadata (commandSize cmd + regionSize cmd) 0)
    (by rw [hmeta, File.seekEnd]; dsimp only; omega)
  rw [hmeta, File.seekEnd] at hp₁
  dsimp only at hp₁
  obtain ⟨file₂, h₂, hp₂⟩ := file₁.exists_write (slice cmd 0 (commandSize cmd)) (by omega)
  obtain ⟨file₃, h₃, -⟩ := file₂.exists_write (slice dataRegion 0 (regionSize cmd)) (by omega)
  exact ⟨_, by simp only [transferCommand, h₁, h₂, h₃, Option.bind_eq_bind, Option.bind_some]; rfl⟩

/-- A transfer of a command from a socket or a log, where the data region is behind the struct. -/
theorem transferCommand_spec (hsize : commandSize cmd + regionSize cmd ≤ File.maxTransfer)
    (h : chan.transferCommand cmd (cmd.drop (commandSize cmd)) = some (pos, chan')) :
    pos = (chan.log.transferCommand cmd).1 ∧
      chan'.file.contents = (chan.log.transferCommand cmd).2.file ∧
      chan'.readOffset = chan.readOffset ∧ chan'.file.contents.length < 2 ^ 63 := by
  obtain ⟨hpos, -, hread, hlt⟩ := transferCommand_appends h
  have hregion : slice (cmd.drop (commandSize cmd)) 0 (regionSize cmd) =
      slice cmd (commandSize cmd) (regionSize cmd) := by
    rw [slice, slice, List.drop_zero]
  refine ⟨hpos, ?_, hread, hlt⟩
  rw [transferCommand_whole hsize h, hregion]
  rfl

theorem updateFlags_spec {offset : Nat} {flags : UInt32}
    (h : chan.updateFlags offset flags = some chan') :
    chan'.file.contents = (chan.log.updateFlags offset flags.toNat).file ∧
      chan'.readOffset = chan.readOffset := by
  rw [updateFlags, if_neg (by omega)] at h
  obtain ⟨file, hfile, h⟩ := Option.bind_eq_some_iff.1 h
  cases h
  have hoffset : (offset : Int) + 8 = ((offset + 8 : Nat) : Int) := by omega
  have hflags : (leBytes 4 flags.toNat).take File.maxTransfer = leBytes 4 flags.toNat :=
    List.take_of_length_le (by rw [length_leBytes]; decide)
  rw [hoffset, File.seekSet_of_nat] at hfile
  obtain ⟨-, rfl⟩ := File.write_eq_some_iff.1 hfile
  rw [hflags]
  exact ⟨rfl, rfl⟩

variable {d : Log.Draft}

theorem newCommand_spec {structSize regionSize : Nat}
    (h : chan.newCommand structSize regionSize = some (d, chan')) :
    d = ⟨chan.file.contents.length + metadataSize,
        chan.file.contents.length + metadataSize + structSize⟩ ∧
      chan'.file.contents = chan.file.contents ++
        recordCommandMetadata (structSize + regionSize) 0 ∧
      chan'.file.contents.length < 2 ^ 63 := by
  obtain ⟨file, hfile, h⟩ := Option.bind_eq_some_iff.1 h
  cases h
  obtain ⟨hcontents, -, hlt⟩ := File.write_end rfl hfile
  rw [take_metadata] at hcontents
  exact ⟨rfl, hcontents, hlt⟩

theorem attachBuffer_spec {buffer : Bytes} {id : Nat} (hsize : buffer.length ≤ File.maxTransfer)
    (h : chan.attachBuffer d buffer = some (id, chan')) :
    id = d.currentBufferOffset - d.commandStartOffset ∧
      chan'.file.contents = writeAt chan.file.contents d.currentBufferOffset buffer ∧
      d.currentBufferOffset + buffer.length < 2 ^ 63 := by
  obtain ⟨file, hfile, h⟩ := Option.bind_eq_some_iff.1 h
  cases h
  rw [File.seekSet_of_nat, File.write_eq_some_iff, List.take_of_length_le hsize] at hfile
  obtain ⟨hlt, rfl⟩ := hfile
  exact ⟨rfl, rfl, hlt⟩

theorem sendCommand_spec {struct : Bytes} (hsize : struct.length ≤ File.maxTransfer)
    (h : chan.sendCommand d struct = some chan') :
    chan'.file.contents = writeAt chan.file.contents d.commandStartOffset struct ∧
      d.commandStartOffset + struct.length < 2 ^ 63 := by
  obtain ⟨file, hfile, h⟩ := Option.bind_eq_some_iff.1 h
  cases h
  rw [File.seekSet_of_nat, File.write_eq_some_iff, List.take_of_length_le hsize] at hfile
  obtain ⟨hlt, rfl⟩ := hfile
  exact ⟨rfl, hlt⟩

@[simp] theorem contents_loadCommand (chan : LogChannel) (offset : Int) :
    (chan.loadCommand offset).2.file.contents = chan.file.contents := by
  simp only [loadCommand]
  split_ifs
  all_goals simp

variable {offset : Int}

/-- A sequential load is a load at the read offset. -/
theorem loadCommand_of_neg (hneg : offset < 0) {n : Nat} (hread : chan.readOffset = n) :
    chan.loadCommand offset = chan.loadCommand n := by
  have hn : ¬ (n : Int) < 0 := by omega
  simp only [loadCommand, if_pos hneg, if_neg hn, hread]

variable {flags off : Nat}

/-- A load that finds a record, as in the log without positions. -/
theorem loadCommand_eq {log' : Log} (hsize : cmd.length ≤ File.maxTransfer)
    (h : chan.log.loadCommand (some off) = some (flags, cmd, log')) :
    (chan.loadCommand off).1 = some (flags, cmd) ∧
      (chan.loadCommand off).2.readOffset = signed64 log'.readOffset := by
  rw [Log.loadCommand] at h
  obtain ⟨metadata, hmeta, h⟩ := Option.bind_eq_some_iff.1 h
  obtain ⟨cmd', hcmd, h⟩ := Option.map_eq_some_iff.1 h
  cases h
  have hlen := readAt_length hmeta
  have hlen' := readAt_length hcmd
  have hoff : ¬ (off : Int) < 0 := by omega
  have hread := File.read_eq_of_readAt (f := ⟨chan.file.contents, off⟩) metadataSize_le hmeta
  have hread' := File.read_eq_of_readAt (f := ⟨chan.file.contents, off + metadataSize⟩)
    (hlen' ▸ hsize) hcmd
  simp only [loadCommand, if_neg hoff, File.seekSet_of_nat, hread, hread', hlen, hlen', ne_eq,
    not_true_eq_false, if_false, Option.getD_some]
  refine ⟨trivial, ?_⟩
  push_cast
  rfl

/-- A load at the begin of a record returns what it holds and moves behind it. -/
theorem loadCommand_record {before after body : Bytes}
    (h : chan.file.contents = before ++ (recordCommandMetadata body.length flags ++ body) ++ after)
    (hfits : chan.file.contents.length < 2 ^ 63) (hflags : flags < 2 ^ 32)
    (hsize : body.length ≤ File.maxTransfer) :
    (chan.loadCommand before.length).1 = some (flags, body) ∧
      (chan.loadCommand before.length).2.readOffset =
        (before.length + (metadataSize + body.length) : Nat) := by
  have hlength : chan.file.contents.length =
      before.length + (metadataSize + body.length) + after.length := by
    rw [h, List.length_append, List.length_append, List.length_append,
      length_recordCommandMetadata]
  have hmeta : readAt chan.file.contents before.length metadataSize =
      some (recordCommandMetadata body.length flags) := by
    have hread := readAt_append_middle before (recordCommandMetadata body.length flags)
      (body ++ after)
    rw [length_recordCommandMetadata] at hread
    rw [h, ← hread]
    simp only [List.append_assoc]
  have hlen : leNat (slice (recordCommandMetadata body.length flags) 0 8) = body.length := by
    have hslice : slice (recordCommandMetadata body.length flags) 0 8 = leBytes 8 body.length := rfl
    rw [hslice]
    exact leNat_leBytes_of_lt (by omega)
  have hfield : leNat (slice (recordCommandMetadata body.length flags) 8 4) = flags := by
    have hslice : slice (recordCommandMetadata body.length flags) 8 4 = leBytes 4 flags := rfl
    rw [hslice]
    exact leNat_leBytes_of_lt (by omega)
  have hbody : readAt chan.file.contents (before.length + metadataSize) body.length =
      some body := by
    have hread := readAt_append_middle (before ++ recordCommandMetadata body.length flags) body
      after
    rw [List.length_append, length_recordCommandMetadata] at hread
    rw [h, ← hread]
    simp only [List.append_assoc]
  have hlog : chan.log.loadCommand (some before.length) = some (flags, body,
      ⟨chan.file.contents, before.length + (metadataSize + body.length)⟩) := by
    simp only [Log.loadCommand, log, Option.getD_some, hmeta, Option.bind_some, hlen, hfield,
      hbody, Option.map_some]
    rw [Nat.add_assoc, Nat.add_comm body.length]
  obtain ⟨hload, hread⟩ := loadCommand_eq hsize hlog
  have hlt : before.length + (metadataSize + body.length) < 2 ^ 63 := by omega
  exact ⟨hload, hread.trans (signed64_of_lt hlt)⟩

/-- A load never returns more than one read. -/
theorem length_le_of_loadCommand (h : (chan.loadCommand offset).1 = some (flags, cmd)) :
    cmd.length ≤ File.maxTransfer := by
  simp only [loadCommand] at h
  split_ifs at h
  all_goals
    obtain ⟨-, rfl⟩ := Prod.mk.inj (Option.some.inj h)
    exact File.length_read_le _ _

/-- A recorded command that is longer than what one `read` moves is not loaded. -/
theorem loadCommand_too_long (hsize : File.maxTransfer < commandSize cmd + regionSize cmd)
    (hlt : commandSize cmd + regionSize cmd < 2 ^ 64)
    (h : chan.transferCommand cmd dataRegion = some (pos, chan')) :
    (chan'.loadCommand pos).1 = none := by
  obtain ⟨rfl, hcontents, -, -⟩ := transferCommand_appends h
  generalize hmeta : recordCommandMetadata (commandSize cmd + regionSize cmd) 0 = metadata
    at hcontents
  have hlength : metadata.length = metadataSize := by
    rw [← hmeta, length_recordCommandMetadata]
  have hfield : leNat (slice metadata 0 8) = commandSize cmd + regionSize cmd := by
    have hslice : slice metadata 0 8 = leBytes 8 (commandSize cmd + regionSize cmd) := by
      rw [← hmeta]
      rfl
    rw [hslice]
    exact leNat_leBytes_of_lt (by omega)
  have hread := readAt_append_middle chan.file.contents metadata
    ((slice cmd 0 (commandSize cmd)).take File.maxTransfer ++
      (slice dataRegion 0 (regionSize cmd)).take File.maxTransfer)
  rw [← List.append_assoc, ← hcontents, hlength] at hread
  have hfile := File.read_eq_of_readAt (f := ⟨chan'.file.contents, chan.file.contents.length⟩)
    metadataSize_le hread
  have hoff : ¬ (chan.file.contents.length : Int) < 0 := by omega
  simp only [loadCommand, if_neg hoff, File.seekSet_of_nat, hfile, hlength, hfield, ne_eq,
    not_true_eq_false, if_false]
  -- the second read is too short
  rw [if_pos]
  have hle := File.length_read_le
    ⟨chan'.file.contents, chan.file.contents.length + metadataSize⟩
    (commandSize cmd + regionSize cmd)
  omega

/-- What a load returns lies inside the file, and the read offset is moved behind it. -/
theorem le_length_of_loadCommand (h : (chan.loadCommand off).1 = some (flags, cmd))
    (hfits : chan.file.contents.length < 2 ^ 63) :
    off + (metadataSize + cmd.length) ≤ chan.file.contents.length ∧
      (chan.loadCommand off).2.readOffset = (off + (metadataSize + cmd.length) : Nat) := by
  have hoff : ¬ (off : Int) < 0 := by omega
  simp only [loadCommand, if_neg hoff, File.seekSet_of_nat, File.read,
    min_eq_left metadataSize_le] at h ⊢
  split_ifs at h ⊢ with hmeta hcmd
  · obtain ⟨-, rfl⟩ := Prod.mk.inj (Option.some.inj h)
    rw [ne_eq, not_not] at hmeta hcmd
    have hinside : off + metadataSize ≤ chan.file.contents.length := by
      rw [slice, List.length_take, List.length_drop] at hmeta
      rw [metadataSize] at hmeta ⊢
      omega
    have hle : off + (metadataSize + leNat (slice (slice chan.file.contents off metadataSize) 0 8))
        ≤ chan.file.contents.length := by
      rw [hmeta, slice, List.length_take, List.length_drop] at hcmd
      omega
    rw [hcmd]
    refine ⟨hle, ?_⟩
    have hsum : (off : Int) +
        (leNat (slice (slice chan.file.contents off metadataSize) 0 8) : Nat) +
        (metadataSize : Nat) =
        (off + (metadataSize + leNat (slice (slice chan.file.contents off metadataSize) 0 8)) :
          Nat) := by
      omega
    have hlt : off + (metadataSize + leNat (slice (slice chan.file.contents off metadataSize) 0 8))
        < 2 ^ 63 := hle.trans_lt hfits
    rw [hsum]
    dsimp only
    exact signed64_of_lt hlt

/-- A load at the end of the file returns `NULL` and does not move the read offset. -/
theorem loadCommand_end (h : chan.file.contents.length = off) :
    (chan.loadCommand off).1 = none ∧
      (chan.loadCommand off).2.readOffset = chan.readOffset := by
  have hoff : ¬ (off : Int) < 0 := by omega
  have hread := File.read_of_length_le (f := ⟨chan.file.contents, off⟩) h.le metadataSize
  have hshort : ¬ ([] : Bytes).length = metadataSize := by decide
  simp only [loadCommand, if_neg hoff, File.seekSet_of_nat, hread, ne_eq, hshort,
    not_false_eq_true, if_true]
  exact ⟨trivial, trivial⟩

theorem readOffset_loadCommand_of_empty (h : chan.file.contents = []) :
    (chan.loadCommand offset).2.readOffset = chan.readOffset := by
  have hread : ∀ f : File, f.contents = [] → (f.read metadataSize).1.length ≠ metadataSize := by
    intro f hf
    rw [File.read_of_length_le (by rw [hf]; exact Nat.zero_le _)]
    exact Nat.succ_ne_zero 15 ∘ Eq.symm
  simp only [loadCommand]
  rw [if_pos (hread _ ((File.contents_seekSet _ _).trans h))]

end LogChannel

end Ava.Channel
