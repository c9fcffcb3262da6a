import Ava.Channel.SharedMemory

/-!
# Transfer onto shared memory

`command_channel_shm_transfer_command` sends a command of another channel on a shared-memory
channel: it makes a new command of the same sizes, assigns five fields of the base and attaches the
old data region as one buffer. Nothing else of the struct is copied, neither the thread ids nor the
arguments behind the base. `shm_transfer_preserves_iff` says for which commands this makes no
difference.
-/

set_option autoImplicit false

namespace Ava.Channel

open Ava.Lib

/-! ## The function -/

/-- A command together with what its channel needs to find the buffers. A socket and the log keep
the data region behind the struct. -/
inductive Source where
  | block (cmd : Bytes)
  | shm (mem cmd : Bytes)

namespace Source

def cmd : Source → Bytes
  | .block cmd => cmd
  | .shm _ cmd => cmd

/-- `command_channel_get_data_region`. -/
def dataRegion : Source → Bytes
  | .block cmd => loadGetDataRegion cmd
  | .shm mem cmd => shmGetDataRegion mem cmd

/-- `command_channel_get_buffer`. -/
def getBuffer : Source → Nat → Bytes
  | .block cmd, bufferId => loadGetBuffer cmd bufferId
  | .shm mem cmd, bufferId => shmGetBuffer mem cmd bufferId

/-- A buffer of `size` bytes with this id lies in the data region. -/
def HasBuffer : Source → Nat → Nat → Prop
  | .block cmd, bufferId, size =>
    commandSize cmd ≤ bufferId ∧ bufferId + size ≤ commandSize cmd + regionSize cmd
  | .shm _ cmd, bufferId, size => 4 ≤ bufferId ∧ bufferId + size ≤ regionSize cmd

theorem HasBuffer.pos {source : Source} {bufferId size : Nat} (h : source.HasBuffer bufferId size)
    (hbase : commandBaseSize ≤ commandSize source.cmd) : 0 < bufferId := by
  rw [commandBaseSize] at hbase
  cases source with
  | block cmd => exact Nat.lt_of_lt_of_le (Nat.lt_of_lt_of_le (by decide) hbase) h.1
  | shm mem cmd => exact Nat.lt_of_lt_of_le (by decide) h.1

end Source

/-- The assignments of `command_channel_shm_transfer_command`: `api_id`, `command_id`,
`command_type`, `flags` and `vm_id`. -/
def copyFields (newCmd cmd : Bytes) : Bytes :=
  let newCmd := writeAt newCmd 0 (slice cmd 0 1)
  let newCmd := writeAt newCmd 40 (slice cmd 40 8)
  let newCmd := writeAt newCmd 8 (slice cmd 8 8)
  let newCmd := writeAt newCmd 32 (slice cmd 32 1)
  writeAt newCmd 1 (slice cmd 1 1)

/-- `command_channel_shm_transfer_command`, the same on both sides: the bytes sent, the memory and
the channel. -/
def shmTransferCommand (chan : ShmChannel) (mem : Bytes) (source : Source) :
    Option (Bytes × Bytes × ShmChannel) :=
  let (newCmd, chan) := shmNewCommand chan (commandSize source.cmd) (regionSize source.cmd)
  let newCmd := copyFields newCmd source.cmd
  (shmAttachBuffer mem newCmd (slice source.dataRegion 0 (regionSize source.cmd))).map fun r =>
    (shmSendCommand chan.side r.2.2, r.2.1, chan)

section Transfer

variable {chan chan' : ShmChannel} {mem mem' sent : Bytes} {source : Source}

theorem copyFields_spec {newCmd cmd : Bytes} (hnew : 48 ≤ newCmd.length) (hcmd : 48 ≤ cmd.length) :
    (copyFields newCmd cmd).length = newCmd.length ∧
      slice (copyFields newCmd cmd) 0 1 = slice cmd 0 1 ∧
      slice (copyFields newCmd cmd) 40 8 = slice cmd 40 8 ∧
      slice (copyFields newCmd cmd) 32 1 = slice cmd 32 1 ∧
      ∀ o m, 16 ≤ o ∧ o + m ≤ 32 ∨ 48 ≤ o →
        slice (copyFields newCmd cmd) o m = slice newCmd o m := by
  -- what one assignment does to a struct of that length
  have hfield : ∀ off k, off + k ≤ 48 → (slice cmd off k).length = k :=
    fun _ _ h => length_slice (h.trans hcmd)
  have hfits : ∀ {c : Bytes} off k, c.length = newCmd.length → off + k ≤ 48 →
      off + (slice cmd off k).length ≤ c.length := by
    intro c off k hc h
    rw [hfield off k h, hc]
    exact h.trans hnew
  have hkeep : ∀ {c : Bytes} off k, c.length = newCmd.length → off + k ≤ 48 →
      (writeAt c off (slice cmd off k)).length = newCmd.length :=
    fun off k hc h => (length_writeAt (hfits off k hc h)).trans hc
  have hother : ∀ {c : Bytes} {off k o m : Nat}, c.length = newCmd.length → off + k ≤ 48 →
      o + m ≤ off ∨ off + k ≤ o → slice (writeAt c off (slice cmd off k)) o m = slice c o m := by
    intro c off k o m hc h hdisjoint
    apply slice_writeAt_of_disjoint (hfits off k hc h)
    rwa [hfield off k h]
  have hself : ∀ {c : Bytes} {off k : Nat}, c.length = newCmd.length → off + k ≤ 48 →
      slice (writeAt c off (slice cmd off k)) off k = slice cmd off k := by
    intro c off k hc h
    have hwritten := slice_writeAt_self (hfits off k hc h)
    rwa [hfield off k h] at hwritten
  have h₁ := hkeep 0 1 rfl (by decide)
  have h₂ := hkeep 40 8 h₁ (by decide)
  have h₃ := hkeep 8 8 h₂ (by decide)
  have h₄ := hkeep 32 1 h₃ (by decide)
  refine ⟨hkeep 1 1 h₄ (by decide), ?_, ?_, ?_, ?_⟩
  · rw [copyFields, hother h₄ (by decide) (by decide), hother h₃ (by decide) (by decide),
      hother h₂ (by decide) (by decide), hother h₁ (by decide) (by decide), hself rfl (by decide)]
  · rw [copyFields, hother h₄ (by decide) (by decide), hother h₃ (by decide) (by decide),
      hother h₂ (by decide) (by decide), hself h₁ (by decide)]
  · rw [copyFields, hother h₄ (by decide) (by decide), hself h₃ (by decide)]
  · intro o m ho
    rw [copyFields, hother h₄ (by decide) (by omega), hother h₃ (by decide) (by omega),
      hother h₂ (by decide) (by omega), hother h₁ (by decide) (by omega),
      hother rfl (by decide) (by omega)]

/-- An attached buffer and the send change nothing of the struct but the type and the offset of the
next buffer. -/
theorem shmSend_of_attach {cmd cmd' buffer : Bytes} {id : Nat}
    (hbase : commandBaseSize ≤ cmd.length)
    (hstruct : commandSize cmd = cmd.length)
    (hattach : shmAttachBuffer mem cmd buffer = some (id, mem', cmd')) (side : ShmSide) :
    (shmSendCommand side cmd').length = cmd.length ∧
      ∀ o m, o + m ≤ 8 ∨ 16 ≤ o ∧ o + m ≤ 88 ∨ 96 ≤ o →
        slice (shmSendCommand side cmd') o m = slice cmd o m := by
  rw [commandBaseSize] at hbase
  obtain rfl : cmd' = writeAt cmd 88 (leBytes 8 (curOffset cmd + buffer.length)) := by
    rw [shmAttachBuffer] at hattach
    split_ifs at hattach
    exact (congrArg (fun r => r.2.2) (Option.some.inj hattach)).symm
  generalize curOffset cmd + buffer.length = next
  have hlength : (writeAt cmd 88 (leBytes 8 next)).length = cmd.length :=
    length_writeAt_leBytes (by omega)
  have hother : ∀ o m, o + m ≤ 88 ∨ 96 ≤ o →
      slice (writeAt cmd 88 (leBytes 8 next)) o m = slice cmd o m :=
    fun o m h => slice_writeAt_leBytes_of_disjoint (by omega) h
  have hsize : commandSize (writeAt cmd 88 (leBytes 8 next)) = cmd.length := by
    rw [commandSize, hother 48 8 (by decide)]
    exact hstruct
  cases side with
  | worker =>
    rw [shmSendCommand, hsize, ← hlength, slice_zero_length]
    exact ⟨rfl, fun o m h => hother o m (by omega)⟩
  | guest =>
    have hlength' : (writeAt (writeAt cmd 88 (leBytes 8 next)) 8
        (leBytes 8 newInvocation.toNat)).length = cmd.length :=
      (length_writeAt_leBytes (by omega)).trans hlength
    have hother' : ∀ o m, o + m ≤ 8 ∨ 16 ≤ o →
        slice (writeAt (writeAt cmd 88 (leBytes 8 next)) 8 (leBytes 8 newInvocation.toNat)) o m =
          slice (writeAt cmd 88 (leBytes 8 next)) o m :=
      fun o m h => slice_writeAt_leBytes_of_disjoint (by omega) h
    have hsize' : commandSize (writeAt (writeAt cmd 88 (leBytes 8 next)) 8
        (leBytes 8 newInvocation.toNat)) = cmd.length := by
      rw [commandSize, hother' 48 8 (by decide)]
      exact hsize
    rw [shmSendCommand, hsize', ← hlength', slice_zero_length]
    exact ⟨rfl, fun o m h => (hother' o m (by omega)).trans (hother o m (by omega))⟩

/-- The struct that a transfer sends: three fields of the source, and zeros where no field is
assigned. -/
structure SentStruct (cmd sent : Bytes) : Prop where
  length : sent.length = commandSize cmd
  struct : commandSize sent = commandSize cmd
  apiId : slice sent 0 1 = slice cmd 0 1
  commandId : slice sent 40 8 = slice cmd 40 8
  flags : slice sent 32 1 = slice cmd 32 1
  zero : ∀ o m, 16 ≤ o ∧ o + m ≤ 32 ∨ commandBaseSize ≤ o → o + m ≤ commandSize cmd →
    slice sent o m = List.replicate m 0

theorem shmTransferCommand_spec (hbase : commandBaseSize ≤ commandSize source.cmd)
    (hlength : commandSize source.cmd ≤ source.cmd.length)
    (h : shmTransferCommand chan mem source = some (sent, mem', chan')) :
    SentStruct source.cmd sent := by
  generalize hcall : shmNewCommand chan (commandSize source.cmd) (regionSize source.cmd) = called
  rw [shmTransferCommand, hcall] at h
  obtain ⟨⟨id, mem'', cmd'⟩, hattach, hsent⟩ := Option.map_eq_some_iff.1 h
  obtain rfl : shmSendCommand called.2.side cmd' = sent := congrArg Prod.fst hsent
  have hregion : regionSize source.cmd ≠ 0 := by
    -- an empty buffer cannot be attached
    intro hzero
    rw [hzero] at hattach
    exact nomatch hattach
  have hlt : commandSize source.cmd < 2 ^ 64 := by
    have hfield := leNat_lt (slice source.cmd 48 8)
    rw [commandBaseSize] at hbase
    rwa [length_slice (by omega)] at hfield
  have hnew := newFields_of_region chan hbase hlt hregion
  rw [hcall] at hnew
  have hnewLength := hnew.length
  have hnewZero := hnew.zero
  rw [commandBaseSize] at hbase hnewZero
  have hroom : 48 ≤ called.1.length := by omega
  have hroom' : 48 ≤ source.cmd.length := by omega
  obtain ⟨hcopied, hapi, hcommand, hflags, hrest⟩ := copyFields_spec hroom hroom'
  have hstruct : commandSize (copyFields called.1 source.cmd) = commandSize source.cmd := by
    rw [commandSize, hrest 48 8 (by decide)]
    exact hnew.struct
  obtain ⟨hsentLength, hkept⟩ := shmSend_of_attach (by rw [commandBaseSize]; omega)
    (hstruct.trans (hnewLength.symm.trans hcopied.symm)) hattach _
  refine ⟨hsentLength.trans (hcopied.trans hnewLength), ?_, ?_, ?_, ?_, ?_⟩
  · rw [commandSize, hkept 48 8 (by decide)]
    exact hstruct
  · rw [hkept 0 1 (by decide), hapi]
  · rw [hkept 40 8 (by decide), hcommand]
  · rw [hkept 32 1 (by decide), hflags]
  · intro o m ho hinside
    rw [commandBaseSize] at ho
    rw [hkept o m (by omega), hrest o m (by omega), hnewZero o m (by omega), slice,
      List.drop_replicate, List.take_replicate, min_eq_left (by omega)]

/-! ## What is preserved -/

/-- The receiver of a transferred command has the struct payload, thread ids and api, command and
flag fields of the source, and resolves every buffer id in the payload to the same bytes. -/
structure Preserves (source : Source) (mem cmd : Bytes) : Prop where
  payload : slice cmd commandBaseSize (commandSize source.cmd - commandBaseSize) =
    slice source.cmd commandBaseSize (commandSize source.cmd - commandBaseSize)
  threadId : slice cmd 16 8 = slice source.cmd 16 8
  originalThreadId : slice cmd 24 8 = slice source.cmd 24 8
  apiId : slice cmd 0 1 = slice source.cmd 0 1
  commandId : slice cmd 40 8 = slice source.cmd 40 8
  flags : slice cmd 32 1 = slice source.cmd 32 1
  buffers : ∀ off bufferId size, commandBaseSize ≤ off → off + 8 ≤ commandSize source.cmd →
    leNat (slice source.cmd off 8) = bufferId → source.HasBuffer bufferId size →
    (shmGetBuffer mem cmd bufferId).take size = (source.getBuffer bufferId).take size

/-- The fields that a transfer does not assign are zero in the source: both thread ids and all that
is behind the base. -/
def UnassignedZero (cmd : Bytes) : Prop :=
  slice cmd 16 8 = List.replicate 8 0 ∧ slice cmd 24 8 = List.replicate 8 0 ∧
    slice cmd commandBaseSize (commandSize cmd - commandBaseSize) =
      List.replicate (commandSize cmd - commandBaseSize) 0

/-- No buffer id is stored in a payload of zeros. -/
theorem leNat_slice_of_payload {cmd : Bytes} {off : Nat}
    (hpayload : slice cmd commandBaseSize (commandSize cmd - commandBaseSize) =
      List.replicate (commandSize cmd - commandBaseSize) 0)
    (hoff : commandBaseSize ≤ off) (hinside : off + 8 ≤ commandSize cmd) :
    leNat (slice cmd off 8) = 0 := by
  have hfield : slice cmd off 8 = List.replicate 8 0 := by
    have hpart : slice (slice cmd commandBaseSize (commandSize cmd - commandBaseSize))
        (off - commandBaseSize) 8 = slice cmd (commandBaseSize + (off - commandBaseSize)) 8 :=
      slice_slice (by omega)
    rw [Nat.add_sub_cancel' hoff] at hpart
    rw [← hpart, hpayload, slice, List.drop_replicate, List.take_replicate, min_eq_left (by omega)]
  rw [hfield]
  rfl

/-- A command of any channel that is transferred onto shared memory arrives with its payload, thread
ids, fields and buffers exactly if the thread ids and the payload were zero. -/
theorem shm_transfer_preserves_iff (hbase : commandBaseSize ≤ commandSize source.cmd)
    (hlength : commandSize source.cmd ≤ source.cmd.length)
    (htransfer : shmTransferCommand chan mem source = some (sent, mem', chan')) {cmd : Bytes}
    (hreceived : cmd ∈ (shmFraming.run (.head []) sent).2) :
    Preserves source mem' cmd ↔ UnassignedZero source.cmd := by
  have hsent := shmTransferCommand_spec hbase hlength htransfer
  have hsentLength := hsent.length
  obtain rfl : cmd = sent := by
    have hlt : sent.length < 2 ^ 64 := by
      have hfield := leNat_lt (slice source.cmd 48 8)
      rw [commandBaseSize] at hbase
      rw [length_slice (by omega)] at hfield
      exact hsentLength.trans_lt hfield
    have hframed : shmFraming.Framed sent :=
      shmFramed (hsentLength ▸ hbase) (hsent.struct.trans hsentLength.symm) hlt
    rw [Framing.run_framed hframed] at hreceived
    exact List.mem_singleton.1 hreceived
  have hbase' := hbase
  rw [commandBaseSize] at hbase'
  have hthread := hsent.zero 16 8 (by omega) (by omega)
  have horiginal := hsent.zero 24 8 (by omega) (by omega)
  have hpayload := hsent.zero commandBaseSize (commandSize source.cmd - commandBaseSize)
    (.inr le_rfl) (by omega)
  constructor
  · intro h
    refine ⟨?_, ?_, ?_⟩
    · rw [← h.threadId, hthread]
    · rw [← h.originalThreadId, horiginal]
    · rw [← h.payload, hpayload]
  · rintro ⟨hthread₀, horiginal₀, hpayload₀⟩
    refine ⟨?_, ?_, ?_, hsent.apiId, hsent.commandId, hsent.flags, ?_⟩
    · rw [hpayload, hpayload₀]
    · rw [hthread, hthread₀]
    · rw [horiginal, horiginal₀]
    · intro off bufferId size hoff hinside hid hbuffer
      have hpos := hbuffer.pos hbase
      rw [leNat_slice_of_payload hpayload₀ hoff hinside] at hid
      exact absurd hid.symm (Nat.ne_of_gt hpos)

end Transfer

set_option maxRecDepth 8000 in
/-- A command that has no thread ids and no arguments. -/
theorem shm_transfer_preserves_bare :
    ∃ sent mem' chan', shmTransferCommand ⟨.worker, 1, 64, 0, 32⟩ (List.replicate 64 7)
        (.block (socketNewCommand 1 136 1 (List.replicate 137 9))) = some (sent, mem', chan') ∧
      (shmFraming.run (.head []) sent).2 = [sent] ∧
      Preserves (.block (socketNewCommand 1 136 1 (List.replicate 137 9))) mem' sent := by
  refine ⟨_, _, _, rfl, rfl, ?_⟩
  refine (@shm_transfer_preserves_iff ⟨.worker, 1, 64, 0, 32⟩ _ (List.replicate 64 7) _ _
    (.block (socketNewCommand 1 136 1 (List.replicate 137 9))) (by decide) (by decide) rfl _
    (List.mem_singleton.2 rfl)).2 ⟨rfl, rfl, rfl⟩

set_option maxRecDepth 8000 in
/-- A command from a socket has one argument, the id 144 of its buffer with the byte `9`. On shared
memory the argument is zero, which is no buffer. -/
theorem shm_transfer_loses_argument :
    ∃ sent mem' chan', shmTransferCommand ⟨.worker, 1, 64, 0, 32⟩ (List.replicate 64 7)
        (.block (writeAt (socketNewCommand 1 144 1 (List.replicate 145 9)) 136 (leBytes 8 144))) =
          some (sent, mem', chan') ∧
      (shmFraming.run (.head []) sent).2 = [sent] ∧
      (Source.getBuffer (.block (writeAt (socketNewCommand 1 144 1 (List.replicate 145 9)) 136
        (leBytes 8 144))) 144).take 1 = [9] ∧
      slice sent 136 8 = leBytes 8 0 ∧ shmGetBuffer mem' sent 0 = [] ∧
      ¬ Preserves (.block (writeAt (socketNewCommand 1 144 1 (List.replicate 145 9)) 136
        (leBytes 8 144))) mem' sent := by
  refine ⟨_, _, _, rfl, rfl, rfl, rfl, rfl, ?_⟩
  intro h
  exact absurd h.payload (by decide)

end Ava.Channel
