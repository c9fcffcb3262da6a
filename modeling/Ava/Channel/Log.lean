import Ava.Channel.Command

/-!
# The log channel

`common/cmd_channel_record.c` keeps commands in a file. A record is a 16-byte
`struct record_command_metadata` (the size of the command and a flags word) followed by the command;
the offset of a record is where its metadata starts. `Log` and its operations work on the bytes of
the file, and move all the bytes of a command. `LogFile` has the system calls that the code makes for
this, and their limit.

The abstract log is the list of its records. `Log.Represents` relates the two, and each operation
refines its abstract counterpart: a transfer appends a record, a load at the offset of a record
reads it, and an update of the flags changes the record at that offset.
-/

set_option autoImplicit false

namespace Ava.Channel

open Ava.Lib

/-- `struct command_channel_log`: the file and the offset of the next sequential load. -/
structure Log where
  file : Bytes
  readOffset : Nat

/-- `struct record_command_metadata`, with four bytes of padding. -/
def recordCommandMetadata (size flags : Nat) : Bytes :=
  leBytes 8 size ++ leBytes 4 flags ++ leBytes 4 0

/-- `sizeof(struct record_command_metadata)`. -/
def metadataSize : Nat := 16

namespace Log

/-- `command_channel_log_new`. -/
def new : Log := ⟨[], 0⟩

/-- `command_channel_log_transfer_command`: the metadata, the command struct and the data region of
`msg` are appended. The result is the offset of the record. -/
def transferCommand (log : Log) (msg : Bytes) : Nat × Log :=
  (log.file.length,
    { log with
      file := log.file ++ recordCommandMetadata (commandSize msg + regionSize msg) 0 ++
        slice msg 0 (commandSize msg) ++ slice msg (commandSize msg) (regionSize msg) })

/-- `command_channel_log_update_flags`: the flags word is behind the size. -/
def updateFlags (log : Log) (offset flags : Nat) : Log :=
  { log with file := writeAt log.file (offset + 8) (leBytes 4 flags) }

/-- `command_channel_log_load_command`: flags, command and the channel after the load. No offset
stands for a negative one, which continues after the last load; `none` is the result `NULL`. -/
def loadCommand (log : Log) (offset : Option Nat) : Option (Nat × Bytes × Log) :=
  let off := offset.getD log.readOffset
  (readAt log.file off metadataSize).bind fun metadata =>
    let size := leNat (slice metadata 0 8)
    (readAt log.file (off + metadataSize) size).map fun cmd =>
      (leNat (slice metadata 8 4), cmd, { log with readOffset := off + size + metadataSize })

/-- `struct command_private`, in the reserved area of a command that is built for the log. -/
structure Draft where
  commandStartOffset : Nat
  currentBufferOffset : Nat

/-- The reserved area with the draft in it. -/
def Draft.reservedArea (d : Draft) : Bytes :=
  leBytes 8 d.commandStartOffset ++ leBytes 8 d.currentBufferOffset ++ List.replicate 48 0

/-- `command_channel_log_new_command`: only the metadata is written yet. -/
def newCommand (log : Log) (structSize regionSize : Nat) : Draft × Log :=
  let start := log.file.length + metadataSize
  (⟨start, start + structSize⟩,
    { log with file := log.file ++ recordCommandMetadata (structSize + regionSize) 0 })

/-- `command_channel_log_attach_buffer`: the buffer is written at the current buffer offset, which
is not advanced. The result is the buffer id. -/
def attachBuffer (log : Log) (d : Draft) (buffer : Bytes) : Nat × Log :=
  (d.currentBufferOffset - d.commandStartOffset,
    { log with file := writeAt log.file d.currentBufferOffset buffer })

/-- `command_channel_log_send_command`: the command struct is written. -/
def sendCommand (log : Log) (d : Draft) (struct : Bytes) : Log :=
  { log with file := writeAt log.file d.commandStartOffset struct }

end Log

/-! ## The abstract log -/

/-- A record: the flags word and the command. -/
structure LogRecord where
  flags : UInt32
  cmd : Command

/-- The bytes of a record. -/
def LogRecord.encode (r : LogRecord) : Bytes :=
  recordCommandMetadata r.cmd.bytes.length r.flags.toNat ++ r.cmd.bytes

/-- The bytes of a file of records. -/
def encodeLog (rs : List LogRecord) : Bytes := rs.flatMap LogRecord.encode

/-- The file of `log` holds the records `rs`. -/
def Log.Represents (log : Log) (rs : List LogRecord) : Prop := log.file = encodeLog rs

/-- The record `r` starts at offset `off` of the file of `rs`. -/
def RecordAt (rs : List LogRecord) (off : Nat) (r : LogRecord) : Prop :=
  ∃ before after, rs = before ++ r :: after ∧ off = (encodeLog before).length

/-- The records after the flags of the one at `off` were set. -/
def setFlags (off : Nat) (flags : UInt32) : List LogRecord → List LogRecord
  | [] => []
  | r :: rs =>
    if off = 0 then { r with flags := flags } :: rs
    else r :: setFlags (off - r.encode.length) flags rs

@[simp] theorem length_recordCommandMetadata (size flags : Nat) :
    (recordCommandMetadata size flags).length = metadataSize := by
  simp [recordCommandMetadata, metadataSize]

theorem LogRecord.length_encode (r : LogRecord) :
    r.encode.length = r.cmd.bytes.length + metadataSize := by
  rw [LogRecord.encode, List.length_append, length_recordCommandMetadata, Nat.add_comm]

theorem LogRecord.encode_pos (r : LogRecord) : 0 < r.encode.length := by
  rw [r.length_encode, metadataSize]
  omega

theorem encodeLog_append (rs rs' : List LogRecord) :
    encodeLog (rs ++ rs') = encodeLog rs ++ encodeLog rs' := List.flatMap_append

theorem encodeLog_cons (r : LogRecord) (rs : List LogRecord) :
    encodeLog (r :: rs) = r.encode ++ encodeLog rs := List.flatMap_cons

theorem length_le_encodeLog (rs : List LogRecord) : rs.length ≤ (encodeLog rs).length := by
  induction rs with
  | nil => exact Nat.zero_le _
  | cons r rs ih =>
    have hr := r.encode_pos
    rw [encodeLog_cons, List.length_append, List.length_cons]
    omega

theorem encodeLog_singleton (r : LogRecord) : encodeLog [r] = r.encode := by
  rw [encodeLog_cons]
  exact List.append_nil _

/-! ## Offsets of records -/

namespace RecordAt

variable {rs rs' : List LogRecord} {off off' : Nat} {r r' : LogRecord}

theorem cons_iff {q : LogRecord} :
    RecordAt (q :: rs) off r ↔
      (off = 0 ∧ r = q) ∨ (q.encode.length ≤ off ∧ RecordAt rs (off - q.encode.length) r) := by
  constructor
  · rintro ⟨before, after, heq, rfl⟩
    cases before with
    | nil =>
      cases heq
      exact .inl ⟨rfl, rfl⟩
    | cons p before =>
      cases heq
      rw [encodeLog_cons, List.length_append]
      exact .inr ⟨Nat.le_add_right _ _, before, after, rfl, Nat.add_sub_cancel_left ..⟩
  · rintro (⟨rfl, rfl⟩ | ⟨hle, before, after, rfl, hoff⟩)
    · exact ⟨[], rs, rfl, rfl⟩
    · refine ⟨q :: before, after, rfl, ?_⟩
      rw [encodeLog_cons, List.length_append]
      omega

theorem lt_length (h : RecordAt rs off r) : off < (encodeLog rs).length := by
  obtain ⟨before, after, rfl, rfl⟩ := h
  have hr := r.encode_pos
  rw [encodeLog_append, encodeLog_cons, List.length_append, List.length_append]
  omega

end RecordAt

/-! ## The operations refine the abstract log -/

theorem setFlags_append (before after : List LogRecord) (r : LogRecord) (f : UInt32) :
    setFlags (encodeLog before).length f (before ++ r :: after) =
      before ++ { r with flags := f } :: after := by
  induction before with
  | nil => rfl
  | cons q before ih =>
    have hq := q.encode_pos
    rw [encodeLog_cons, List.length_append, List.cons_append, setFlags, if_neg (by omega),
      Nat.add_sub_cancel_left, ih, List.cons_append]

namespace Log

variable {log : Log} {rs : List LogRecord}

theorem represents_new : new.Represents [] := rfl

/-- A transfer appends a record with flags 0 and returns its offset. -/
theorem transferCommand_refines (h : log.Represents rs) (c : Command) :
    (log.transferCommand c.bytes).1 = (encodeLog rs).length ∧
      (log.transferCommand c.bytes).2.Represents (rs ++ [⟨0, c⟩]) := by
  refine ⟨congrArg List.length h, ?_⟩
  -- the struct and the region are written one after the other, with nothing between them
  have hparts := c.struct_append_region
  rw [Command.struct, Command.region] at hparts
  rw [Represents] at h
  rw [Represents, encodeLog_append, encodeLog_singleton, LogRecord.encode, transferCommand]
  simp only [c.size_eq, h, List.append_assoc, hparts]
  rfl

theorem metadata_fields (r : LogRecord) :
    leNat (slice (recordCommandMetadata r.cmd.bytes.length r.flags.toNat) 0 8) =
        r.cmd.bytes.length ∧
      leNat (slice (recordCommandMetadata r.cmd.bytes.length r.flags.toNat) 8 4) =
        r.flags.toNat := by
  have hsize : slice (recordCommandMetadata r.cmd.bytes.length r.flags.toNat) 0 8 =
      leBytes 8 r.cmd.bytes.length := rfl
  have hflags : slice (recordCommandMetadata r.cmd.bytes.length r.flags.toNat) 8 4 =
      leBytes 4 r.flags.toNat := rfl
  rw [hsize, hflags]
  refine ⟨leNat_leBytes_of_lt (lt_trans r.cmd.size_lt (by norm_num)), ?_⟩
  exact leNat_leBytes_of_lt r.flags.toNat_lt

variable {r : LogRecord}

/-- A load at the offset of a record returns it and moves behind it. -/
theorem loadCommand_refines (h : log.Represents rs) (offset : Option Nat)
    (hr : RecordAt rs (offset.getD log.readOffset) r) :
    log.loadCommand offset = some (r.flags.toNat, r.cmd.bytes,
      { log with readOffset := offset.getD log.readOffset + r.encode.length }) := by
  obtain ⟨before, after, rfl, hoff⟩ := hr
  rw [Represents, encodeLog_append, encodeLog_cons, LogRecord.encode] at h
  -- the metadata is read first, and its size field says how much to read after it
  have hmeta : readAt log.file (encodeLog before).length metadataSize =
      some (recordCommandMetadata r.cmd.bytes.length r.flags.toNat) := by
    have hread := readAt_append_middle (encodeLog before)
      (recordCommandMetadata r.cmd.bytes.length r.flags.toNat) (r.cmd.bytes ++ encodeLog after)
    rw [length_recordCommandMetadata] at hread
    rw [h, ← hread]
    simp only [List.append_assoc]
  have hcmd : readAt log.file ((encodeLog before).length + metadataSize) r.cmd.bytes.length =
      some r.cmd.bytes := by
    have hread := readAt_append_middle
      (encodeLog before ++ recordCommandMetadata r.cmd.bytes.length r.flags.toNat)
      r.cmd.bytes (encodeLog after)
    rw [List.length_append, length_recordCommandMetadata] at hread
    rw [h, ← hread]
    simp only [List.append_assoc]
  obtain ⟨hsize, hflags⟩ := metadata_fields r
  simp only [loadCommand, hoff, hmeta, Option.bind_some, hsize, hflags, hcmd, Option.map_some,
    r.length_encode, Nat.add_assoc]

/-- The records that sequential loads have not read yet. -/
def Ahead (log : Log) (rest : List LogRecord) : Prop :=
  ∃ before, log.Represents (before ++ rest) ∧ log.readOffset = (encodeLog before).length

theorem loadCommand_next {rest : List LogRecord} (h : log.Ahead (r :: rest)) :
    ∃ log', log.loadCommand none = some (r.flags.toNat, r.cmd.bytes, log') ∧ log'.Ahead rest := by
  obtain ⟨before, hrep, hoff⟩ := h
  have hload := loadCommand_refines hrep none (r := r) ⟨before, rest, rfl, hoff⟩
  refine ⟨_, hload, before ++ [r], ?_, ?_⟩
  · rwa [List.append_assoc]
  · rw [encodeLog_append, encodeLog_singleton, List.length_append, ← hoff]
    rfl

theorem loadCommand_at (h : log.Represents rs) {off : Nat} (hr : RecordAt rs off r) :
    log.loadCommand (some off) =
      some (r.flags.toNat, r.cmd.bytes, { log with readOffset := off + r.encode.length }) :=
  loadCommand_refines h (some off) hr

/-- An update of the flags at the offset of a record changes that record. -/
theorem updateFlags_refines (h : log.Represents rs) {off : Nat} (hr : RecordAt rs off r)
    (f : UInt32) : (log.updateFlags off f.toNat).Represents (setFlags off f rs) := by
  obtain ⟨before, after, rfl, rfl⟩ := hr
  rw [Represents, encodeLog_append, encodeLog_cons, LogRecord.encode, recordCommandMetadata] at h
  rw [Represents, setFlags_append, encodeLog_append, encodeLog_cons, LogRecord.encode,
    recordCommandMetadata, updateFlags]
  -- only the four bytes behind the size field are overwritten
  have hwrite := writeAt_append_middle (encodeLog before ++ leBytes 8 r.cmd.bytes.length)
    (leBytes 4 r.flags.toNat) (leBytes 4 0 ++ r.cmd.bytes ++ encodeLog after)
    (leBytes 4 f.toNat) (by simp)
  rw [List.length_append, length_leBytes] at hwrite
  simp only [List.append_assoc] at h hwrite ⊢
  rw [h, hwrite]

@[simp] theorem Draft.length_reservedArea (d : Draft) : d.reservedArea.length = 64 := by
  simp [Draft.reservedArea]

/-- Building a command with one buffer in the log appends its record. -/
theorem sendCommand_refines (h : log.Represents rs) {c : Command} {struct data : Bytes}
    (hc : c.bytes = struct ++ data) (structSize : Nat) (hsize : struct.length = structSize) :
    let new := log.newCommand structSize data.length
    ((new.2.attachBuffer new.1 data).2.sendCommand new.1 struct).Represents (rs ++ [⟨0, c⟩]) := by
  subst hsize
  intro new
  have hfile : new.2.file = log.file ++ recordCommandMetadata c.bytes.length 0 := by
    rw [hc, List.length_append]
    rfl
  have hstart : new.1.commandStartOffset =
      (log.file ++ recordCommandMetadata c.bytes.length 0).length := by
    rw [List.length_append, length_recordCommandMetadata]
    rfl
  have hcur : new.1.currentBufferOffset =
      (log.file ++ recordCommandMetadata c.bytes.length 0).length + struct.length := by
    rw [← hstart]
    rfl
  have hwritten : writeAt (writeAt new.2.file new.1.currentBufferOffset data)
      new.1.commandStartOffset struct =
        log.file ++ recordCommandMetadata c.bytes.length 0 ++ struct ++ data := by
    rw [hfile, hcur, hstart]
    -- the buffer is written before the struct, past the end of the file: the gap is zeros
    -- until the struct is written over it
    by_cases hdata : data = []
    · rw [hdata, writeAt_nil, writeAt_end, List.append_nil]
    · rw [writeAt_past_end _ _ hdata, writeAt_append_middle _ _ _ _ (by simp)]
  rw [Represents] at h
  rw [Represents, encodeLog_append, encodeLog_singleton, LogRecord.encode, ← h]
  refine hwritten.trans ?_
  rw [hc, List.append_assoc, List.append_assoc]
  rfl

end Log

end Ava.Channel
