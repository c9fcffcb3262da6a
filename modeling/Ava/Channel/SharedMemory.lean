import Ava.Channel.SocketStream
import Ava.Channel.LogFile

/-!
# The shared-memory channel

`common/cmd_channel_shm.c` and `common/cmd_channel_shm_worker.c` send only the struct of a command
over a socket. The data region is a part of a memory block that both ends have mapped, and the
struct says where it begins. Four bytes in front of the buffers belong to the region but not to any
buffer.

Buffer ids are relative to the region here, while the record log and the socket count them from the
begin of the struct. `shm_recorded_buffers_iff` is about a command that is recorded in the log.
-/

set_option autoImplicit false

namespace Ava.Channel

open Ava.Lib

/-! ## The channel -/

/-- The end of the channel: the guest library uses the first half of the block, the worker the
second one. -/
inductive ShmSide where
  | guest
  | worker
  deriving DecidableEq

/-- `struct command_channel_shm`, with the fields of its `struct param_block` that are used. -/
structure ShmChannel where
  side : ShmSide
  vmId : UInt8
  /-- The size of the block. -/
  size : Nat
  /-- The offset of the block in the memory of the VM. -/
  offset : Nat
  curOffset : Nat

/-- `reserve_param_block`, with sums of 64 bits. What was reserved before is not looked at. -/
def ShmChannel.reserveParamBlock (chan : ShmChannel) (size : Nat) : Nat × ShmChannel :=
  let next := (chan.curOffset + size) % 2 ^ 64
  let cur := match chan.side with
    | .guest => if next ≥ chan.size / 2 then 0 else chan.curOffset
    | .worker => if next ≥ chan.size then chan.size / 2 else chan.curOffset
  (cur, { chan with curOffset := (cur + size) % 2 ^ 64 })

/-- `command_channel_shm_new_command`. -/
def shmNewCommand (chan : ShmChannel) (structSize regionSize : Nat) : Bytes × ShmChannel :=
  let cmd := writeAt (List.replicate structSize 0) 48 (leBytes 8 structSize)
  if regionSize = 0 then
    let cmd := writeAt cmd 64 (leBytes 8 regionSize)
    (writeAt cmd 1 (leBytes 1 chan.vmId.toNat), chan)
  else
    let regionSize := regionSize + 4
    let (localOffset, chan) := chan.reserveParamBlock regionSize
    let cmd := writeAt cmd 80 (leBytes 8 localOffset)
    let cmd := writeAt cmd 88 (leBytes 8 (localOffset + 4))
    let cmd := writeAt cmd 56 (leBytes 8 (match chan.side with
      | .guest => localOffset + chan.offset
      | .worker => localOffset))
    let cmd := writeAt cmd 64 (leBytes 8 regionSize)
    (writeAt cmd 1 (leBytes 1 chan.vmId.toNat), chan)

/-- The field `local_offset` of the `struct block_seeker` in the reserved area. -/
def localOffset (cmd : Bytes) : Nat := leNat (slice cmd 80 8)

/-- `command_channel_shm_attach_buffer` on the memory `mem` of the block: buffer id, memory and
struct. There is no result if the assertion fails or the copy leaves the block. -/
def shmAttachBuffer (mem cmd buffer : Bytes) : Option (Nat × Bytes × Bytes) :=
  if buffer = [] ∨ mem.length < curOffset cmd + buffer.length then none
  else
    let offset := curOffset cmd - localOffset cmd
    let cmd' := writeAt cmd 88 (leBytes 8 (curOffset cmd + buffer.length))
    some (offset, writeAt mem (localOffset cmd + offset) buffer, cmd')

/-- `command_channel_shm_send_command`: the bytes that are sent. Only the guest sets the type. -/
def shmSendCommand (side : ShmSide) (cmd : Bytes) : Bytes :=
  let cmd := match side with
    | .guest => writeAt cmd 8 (leBytes 8 newInvocation.toNat)
    | .worker => cmd
  slice cmd 0 (commandSize cmd)

/-- `command_channel_shm_get_buffer`: the memory from the buffer on; the id 0 is `NULL`. -/
def shmGetBuffer (mem cmd : Bytes) (bufferId : Nat) : Bytes :=
  if bufferId = 0 then [] else mem.drop (localOffset cmd + bufferId)

/-- `command_channel_shm_get_data_region`. -/
def shmGetDataRegion (mem cmd : Bytes) : Bytes := mem.drop (localOffset cmd)

/-- `command_channel_shm_receive_command` receives a struct base and then the rest of the struct. -/
def shmFraming : Framing where
  header := commandBaseSize
  header_pos := commandBaseSize_pos
  rest cmd := (commandSize cmd + (2 ^ 64 - commandBaseSize)) % 2 ^ 64

/-- `command_channel_load_get_buffer` and `command_channel_load_get_data_region` on a command that
was loaded from the log. -/
def loadGetBuffer (cmd : Bytes) (bufferId : Nat) : Bytes := cmd.drop bufferId

def loadGetDataRegion (cmd : Bytes) : Bytes := cmd.drop (commandSize cmd)

/-! ## A new command -/

section NewCommand

variable (chan : ShmChannel) {structSize regionSize : Nat}

/-- The fields of a new command. All others are zero. -/
structure NewFields (structSize regionSize localOff cur : Nat) (cmd : Bytes) : Prop where
  length : cmd.length = structSize
  struct : commandSize cmd = structSize
  region : Channel.regionSize cmd = regionSize
  localOff : localOffset cmd = localOff
  cur : curOffset cmd = cur
  zero : ∀ o m, 2 ≤ o ∧ o + m ≤ 48 ∨ commandBaseSize ≤ o →
    slice cmd o m = slice (List.replicate structSize 0) o m

/-- A struct of zeros in which fields have been set. -/
theorem newFields_of_writeFields {fields : List Field} {cmd : Bytes} {localOff cur : Nat}
    (hcmd : cmd = writeFields (List.replicate structSize 0) fields)
    (hinside : ∀ f ∈ fields, f.off + f.width ≤ structSize) (hapart : fields.Pairwise Field.Apart)
    (hbase : ∀ f ∈ fields, f.off + f.width ≤ 2 ∨ 48 ≤ f.off ∧ f.off + f.width ≤ commandBaseSize)
    (hlt : structSize < 2 ^ 64) (hstruct : ⟨48, 8, structSize⟩ ∈ fields)
    (hregion : ⟨64, 8, regionSize⟩ ∈ fields) (hlocal : localOffset cmd = localOff)
    (hcur : curOffset cmd = cur) :
    NewFields structSize (regionSize % 2 ^ 64) localOff cur cmd := by
  subst hcmd
  have hinside' : ∀ f ∈ fields,
      f.off + f.width ≤ (List.replicate structSize (0 : UInt8)).length := by
    rwa [List.length_replicate]
  refine ⟨?_, ?_, ?_, hlocal, hcur, ?_⟩
  · rw [length_writeFields hinside', List.length_replicate]
  · rw [commandSize, leNat_writeFields hinside' hapart hstruct]
    exact Nat.mod_eq_of_lt hlt
  · exact leNat_writeFields hinside' hapart hregion
  · intro o m ho
    rw [commandBaseSize] at ho
    apply slice_writeFields_of_disjoint hinside'
    intro f hf
    have hf := hbase f hf
    rw [commandBaseSize] at hf
    omega

theorem newFields_of_empty (hstruct : commandBaseSize ≤ structSize) (hlt : structSize < 2 ^ 64) :
    NewFields structSize 0 0 0 (shmNewCommand chan structSize 0).1 := by
  rw [commandBaseSize] at hstruct
  have hcmd : (shmNewCommand chan structSize 0).1 = writeFields (List.replicate structSize 0)
      [⟨48, 8, structSize⟩, ⟨64, 8, 0⟩, ⟨1, 1, chan.vmId.toNat⟩] := rfl
  -- The offsets are not set.
  have hzero : ∀ o, 72 ≤ o → o + 8 ≤ structSize →
      leNat (slice (shmNewCommand chan structSize 0).1 o 8) = 0 := by
    intro o hlow ho
    rw [hcmd, slice_writeFields_of_disjoint (by simp; omega) (by simp; omega), slice,
      List.drop_replicate, List.take_replicate, min_eq_left (by omega)]
    rfl
  change NewFields structSize (0 % 2 ^ 64) 0 0 _
  apply newFields_of_writeFields hcmd
  · simp
    omega
  · simp [Field.Apart]
  · simp [commandBaseSize]
  · exact hlt
  · simp
  · simp
  · exact hzero 80 (by omega) (by omega)
  · exact hzero 88 (by omega) (by omega)

/-- The offset that `reserve_param_block` returns for the data region of a new command. -/
def ShmChannel.reserved (chan : ShmChannel) (regionSize : Nat) : Nat :=
  (chan.reserveParamBlock (regionSize + 4)).1

theorem newFields_of_region (hstruct : commandBaseSize ≤ structSize) (hlt : structSize < 2 ^ 64)
    (hregion : regionSize ≠ 0) :
    NewFields structSize ((regionSize + 4) % 2 ^ 64) (chan.reserved regionSize % 2 ^ 64)
      ((chan.reserved regionSize + 4) % 2 ^ 64) (shmNewCommand chan structSize regionSize).1 := by
  rw [commandBaseSize] at hstruct
  obtain ⟨dataRegion, hcmd⟩ : ∃ dataRegion, (shmNewCommand chan structSize regionSize).1 =
      writeFields (List.replicate structSize 0) [⟨48, 8, structSize⟩,
        ⟨80, 8, chan.reserved regionSize⟩, ⟨88, 8, chan.reserved regionSize + 4⟩,
        ⟨56, 8, dataRegion⟩, ⟨64, 8, regionSize + 4⟩, ⟨1, 1, chan.vmId.toNat⟩] := by
    rw [shmNewCommand, if_neg hregion]
    exact ⟨_, rfl⟩
  apply newFields_of_writeFields hcmd
  · simp
    omega
  · simp [Field.Apart]
  · simp [commandBaseSize]
  · exact hlt
  · simp
  · simp
  · rw [localOffset, hcmd]
    exact leNat_writeFields (by simp; omega) (by simp [Field.Apart]) (by simp)
  · rw [curOffset, hcmd]
    exact leNat_writeFields (by simp; omega) (by simp [Field.Apart]) (by simp)

end NewCommand

/-! ## Building a command -/

/-- A command that is being built: the shared memory, the struct, and the ids and bytes of the
buffers attached so far. -/
structure ShmBlock where
  mem : Bytes
  cmd : Bytes
  buffers : List (Nat × Bytes)

/-- The caller sets fields of the struct or attaches a buffer, or anybody writes to the memory. -/
inductive ShmOp where
  | set (off : Nat) (data : Bytes)
  | attach (buffer : Bytes)
  | memory (mem : Bytes)

def shmStep (b : ShmBlock) : ShmOp → Option ShmBlock
  | .set off data => some { b with cmd := writeAt b.cmd off data }
  | .attach buffer =>
    (shmAttachBuffer b.mem b.cmd buffer).map fun r =>
      ⟨r.2.1, r.2.2, b.buffers ++ [(r.1, buffer)]⟩
  | .memory mem => some { b with mem := mem }

def ShmBlock.attachedSize (b : ShmBlock) : Nat := (b.buffers.map fun p => p.2.length).sum

/-- As for a socket: the sizes, the data region and the reserved area are left to the channel, and
the buffers are not empty and fit into the declared region. The memory keeps its size. -/
def ShmOp.legal (regionSize : Nat) (b : ShmBlock) : ShmOp → Prop
  | .set off data =>
    off + data.length ≤ 48 ∨ commandBaseSize ≤ off ∧ off + data.length ≤ commandSize b.cmd
  | .attach buffer => buffer ≠ [] ∧ b.attachedSize + buffer.length ≤ regionSize
  | .memory mem => mem.length = b.mem.length

instance ShmOp.decidableLegal (regionSize : Nat) (b : ShmBlock) (op : ShmOp) :
    Decidable (op.legal regionSize b) :=
  match op with
  | .set off data => inferInstanceAs (Decidable (off + data.length ≤ 48 ∨
      commandBaseSize ≤ off ∧ off + data.length ≤ commandSize b.cmd))
  | .attach buffer => inferInstanceAs (Decidable
      (buffer ≠ [] ∧ b.attachedSize + buffer.length ≤ regionSize))
  | .memory mem => inferInstanceAs (Decidable (mem.length = b.mem.length))

/-- A command with a data region of `regionSize` bytes, as it can be when it is sent. The struct is
an allocated block, and the reserved region lies in the mapped memory. -/
def ShmBlock.IsBuilt (chan : ShmChannel) (structSize regionSize : Nat) (b : ShmBlock) : Prop :=
  ∃ mem : Bytes, commandBaseSize ≤ structSize ∧ structSize < 2 ^ 47 ∧ mem.length < 2 ^ 47 ∧
    (regionSize ≠ 0 → chan.reserved regionSize + (regionSize + 4) ≤ mem.length) ∧
    Reaches shmStep (fun b op => op.legal regionSize b)
      ⟨mem, (shmNewCommand chan structSize regionSize).1, []⟩ b

/-- Buffers whose ids follow each other from `n` on. -/
def Contiguous : Nat → List (Nat × Bytes) → Prop
  | _, [] => True
  | n, p :: ps => p.1 = n ∧ Contiguous (n + p.2.length) ps

section Contiguous

variable {n : Nat} {ps : List (Nat × Bytes)}

theorem contiguous_concat {buffer : Bytes} (h : Contiguous n ps) :
    Contiguous n (ps ++ [(n + (ps.map fun p => p.2.length).sum, buffer)]) := by
  induction ps generalizing n with
  | nil => exact ⟨rfl, trivial⟩
  | cons p ps ih =>
    refine ⟨h.1, ?_⟩
    have hrest := ih h.2
    rwa [Nat.add_assoc] at hrest

/-- The buffers lie in the range from `n` to the sum of their lengths, -/
theorem Contiguous.bounds (h : Contiguous n ps) {p : Nat × Bytes} (hp : p ∈ ps) :
    n ≤ p.1 ∧ p.1 + p.2.length ≤ n + (ps.map fun p => p.2.length).sum := by
  induction ps generalizing n with
  | nil => cases hp
  | cons q ps ih =>
    rw [List.map_cons, List.sum_cons]
    rcases List.mem_cons.1 hp with rfl | hp
    · have hfirst := h.1
      omega
    · have hrest := ih h.2 hp
      omega

/-- and cover it. -/
theorem Contiguous.cover (h : Contiguous n ps) {i : Nat} (hlow : n ≤ i)
    (hhigh : i < n + (ps.map fun p => p.2.length).sum) :
    ∃ p ∈ ps, p.1 ≤ i ∧ i < p.1 + p.2.length := by
  induction ps generalizing n with
  | nil =>
    rw [List.map_nil, List.sum_nil] at hhigh
    omega
  | cons p ps ih =>
    rw [List.map_cons, List.sum_cons] at hhigh
    have hfirst := h.1
    by_cases hin : i < p.1 + p.2.length
    · exact ⟨p, List.mem_cons_self, by omega, hin⟩
    · obtain ⟨q, hq, hcover⟩ := ih h.2 (by omega) (by omega)
      exact ⟨q, List.mem_cons_of_mem p hq, hcover⟩

/-- Two memories have the same buffers if they agree on the whole range. -/
theorem Contiguous.slices_eq_iff (h : Contiguous n ps) (xs ys : Bytes) :
    (∀ p ∈ ps, slice xs p.1 p.2.length = slice ys p.1 p.2.length) ↔
      ∀ i, n ≤ i → i < n + (ps.map fun p => p.2.length).sum → xs[i]? = ys[i]? := by
  constructor
  · intro hsame i hlow hhigh
    obtain ⟨p, hp, hfrom, hto⟩ := h.cover hlow hhigh
    have hbyte := congrArg (·[i - p.1]?) (hsame p hp)
    rwa [getElem?_slice, getElem?_slice, if_pos (by omega), if_pos (by omega),
      Nat.add_sub_cancel' hfrom] at hbyte
  · intro hsame p hp
    obtain ⟨hlow, hhigh⟩ := h.bounds hp
    apply List.ext_getElem?
    intro i
    rw [getElem?_slice, getElem?_slice]
    split_ifs with hi
    · exact hsame (p.1 + i) (by omega) (by omega)
    · rfl

end Contiguous

namespace ShmBlock

/-- The struct says where the region is, and the buffers follow each other behind the first four
bytes of it. -/
structure Layout (structSize regionSize localOff : Nat) (b : ShmBlock) : Prop where
  length : b.cmd.length = structSize
  struct : commandSize b.cmd = structSize
  region : Channel.regionSize b.cmd = if regionSize = 0 then 0 else regionSize + 4
  start : localOffset b.cmd = localOff
  cur : regionSize ≠ 0 → curOffset b.cmd = localOff + 4 + b.attachedSize
  attached : b.attachedSize ≤ regionSize
  contiguous : Contiguous 4 b.buffers
  memory : localOff + Channel.regionSize b.cmd ≤ b.mem.length
  bound : b.mem.length < 2 ^ 47

variable {chan : ShmChannel} {structSize regionSize localOff : Nat} {b : ShmBlock}

theorem attachedSize_concat {mem cmd buffer : Bytes} {id : Nat} :
    attachedSize ⟨mem, cmd, b.buffers ++ [(id, buffer)]⟩ = b.attachedSize + buffer.length := by
  simp [attachedSize]

theorem Layout.set (h : Layout structSize regionSize localOff b) {off : Nat} {data : Bytes}
    (hlegal : off + data.length ≤ 48 ∨ commandBaseSize ≤ off ∧ off + data.length ≤ structSize)
    (hstruct : commandBaseSize ≤ structSize) :
    Layout structSize regionSize localOff { b with cmd := writeAt b.cmd off data } := by
  rw [commandBaseSize] at hlegal hstruct
  have hlength := h.length
  have hinside : off + data.length ≤ b.cmd.length := by omega
  have hsame : ∀ o, 48 ≤ o → o + 8 ≤ 136 →
      slice (writeAt b.cmd off data) o 8 = slice b.cmd o 8 := by
    intro o hlow hhigh
    apply slice_writeAt_of_disjoint hinside
    omega
  have hregion : Channel.regionSize (writeAt b.cmd off data) = Channel.regionSize b.cmd := by
    rw [Channel.regionSize, Channel.regionSize, hsame 64 (by decide) (by decide)]
  refine ⟨?_, ?_, ?_, ?_, ?_, h.attached, h.contiguous, ?_, h.bound⟩
  · rw [length_writeAt hinside, hlength]
  · rw [commandSize, hsame 48 (by decide) (by decide)]
    exact h.struct
  · rw [hregion]
    exact h.region
  · rw [localOffset, hsame 80 (by decide) (by decide)]
    exact h.start
  · rw [curOffset, hsame 88 (by decide) (by decide)]
    exact h.cur
  · rw [hregion]
    exact h.memory

/-- A buffer that fits into the declared region is attached behind the last one. -/
theorem Layout.attach (h : Layout structSize regionSize localOff b) {buffer : Bytes}
    (hne : buffer ≠ []) (hfits : b.attachedSize + buffer.length ≤ regionSize)
    (hstruct : commandBaseSize ≤ structSize) :
    ∃ mem cmd, shmAttachBuffer b.mem b.cmd buffer = some (4 + b.attachedSize, mem, cmd) ∧
      Layout structSize regionSize localOff
        ⟨mem, cmd, b.buffers ++ [(4 + b.attachedSize, buffer)]⟩ := by
  rw [commandBaseSize] at hstruct
  have hlength := h.length
  have hpos : 0 < buffer.length := List.length_pos_of_ne_nil hne
  have hregion : regionSize ≠ 0 := by omega
  have hcur := h.cur hregion
  have hsize := h.region
  have hmemory := h.memory
  have hbound := h.bound
  rw [if_neg hregion] at hsize
  rw [hsize] at hmemory
  have hcond : ¬ (buffer = [] ∨ b.mem.length < curOffset b.cmd + buffer.length) := by
    rintro (hnil | hlong)
    · exact hne hnil
    · omega
  have hoffset : curOffset b.cmd - localOffset b.cmd = 4 + b.attachedSize := by
    rw [hcur, h.start]
    omega
  refine ⟨writeAt b.mem (localOff + (4 + b.attachedSize)) buffer,
    writeAt b.cmd 88 (leBytes 8 (curOffset b.cmd + buffer.length)), ?_, ?_⟩
  · rw [shmAttachBuffer, if_neg hcond, hoffset, h.start]
  have hsame : ∀ o, o + 8 ≤ 88 →
      slice (writeAt b.cmd 88 (leBytes 8 (curOffset b.cmd + buffer.length))) o 8 =
        slice b.cmd o 8 := by
    intro o ho
    exact slice_writeAt_leBytes_of_disjoint (by omega) (.inl ho)
  have hregion' : Channel.regionSize
      (writeAt b.cmd 88 (leBytes 8 (curOffset b.cmd + buffer.length))) =
        Channel.regionSize b.cmd := by
    rw [Channel.regionSize, hsame 64 (by decide)]
    rfl
  have hmem : (writeAt b.mem (localOff + (4 + b.attachedSize)) buffer).length = b.mem.length :=
    length_writeAt (by omega)
  refine ⟨?_, ?_, ?_, ?_, ?_, ?_, ?_, ?_, ?_⟩
  · rw [length_writeAt_leBytes (by omega), hlength]
  · rw [commandSize, hsame 48 (by decide)]
    exact h.struct
  · rw [hregion']
    exact h.region
  · rw [localOffset, hsame 80 (by decide)]
    exact h.start
  · intro _
    rw [curOffset, slice_writeAt_leBytes (by omega), leNat_leBytes_of_lt (by omega), hcur,
      attachedSize_concat]
    omega
  · rw [attachedSize_concat]
    exact hfits
  · exact contiguous_concat h.contiguous
  · rw [hregion', hmem]
    exact h.memory
  · rw [hmem]
    exact hbound

theorem IsBuilt.layout (h : b.IsBuilt chan structSize regionSize) :
    ∃ localOff, Layout structSize regionSize localOff b := by
  obtain ⟨mem, hstruct, hlt, hmem, hfits, hreach⟩ := h
  obtain ⟨localOff, hnew⟩ : ∃ localOff, Layout structSize regionSize localOff
      ⟨mem, (shmNewCommand chan structSize regionSize).1, []⟩ := by
    by_cases hregion : regionSize = 0
    · subst hregion
      have hfields := newFields_of_empty chan hstruct (by omega)
      refine ⟨0, hfields.length, hfields.struct, ?_, hfields.localOff, (absurd rfl ·),
        Nat.zero_le _, trivial, ?_, hmem⟩
      · exact hfields.region
      · rw [hfields.region]
        exact Nat.zero_le _
    · have hle := hfits hregion
      have hfields := newFields_of_region chan hstruct (by omega) hregion
      have hsize := hfields.region
      have hlocal := hfields.localOff
      have hcur := hfields.cur
      rw [Nat.mod_eq_of_lt (by omega)] at hsize hlocal hcur
      refine ⟨chan.reserved regionSize, hfields.length, hfields.struct, ?_, hlocal, fun _ => hcur,
        Nat.zero_le _, trivial, ?_, hmem⟩
      · rw [if_neg hregion]
        exact hsize
      · rw [hsize]
        exact hle
  refine ⟨localOff, hreach.invariant (I := Layout structSize regionSize localOff) ?_ hnew⟩
  intro c op c' hI hlegal hstep
  cases op with
  | set off data =>
    obtain rfl := Option.some.inj hstep
    rw [ShmOp.legal, hI.struct] at hlegal
    exact hI.set hlegal hstruct
  | attach buffer =>
    obtain ⟨mem', cmd', hattach, hlayout⟩ := hI.attach hlegal.1 hlegal.2 hstruct
    rw [shmStep, hattach] at hstep
    obtain rfl := Option.some.inj hstep
    exact hlayout
  | memory mem' =>
    obtain rfl := Option.some.inj hstep
    have hlength : mem'.length = c.mem.length := hlegal
    refine ⟨hI.length, hI.struct, hI.region, hI.start, hI.cur, hI.attached, hI.contiguous,
      ?_, ?_⟩
    · rw [hlength]
      exact hI.memory
    · rw [hlength]
      exact hI.bound

/-- The struct that is sent describes the command as before. -/
theorem Layout.send (h : Layout structSize regionSize localOff b)
    (hstruct : commandBaseSize ≤ structSize) (side : ShmSide) :
    Layout structSize regionSize localOff { b with cmd := shmSendCommand side b.cmd } := by
  cases side with
  | guest =>
    have hset : Layout structSize regionSize localOff
        { b with cmd := writeAt b.cmd 8 (leBytes 8 newInvocation.toNat) } := by
      apply h.set _ hstruct
      rw [length_leBytes]
      exact .inl (by decide)
    have hall : shmSendCommand .guest b.cmd =
        writeAt b.cmd 8 (leBytes 8 newInvocation.toNat) := by
      have hs := hset.struct
      have hlength := hset.length
      dsimp only at hs hlength
      rw [shmSendCommand, hs, ← hlength, slice_zero_length]
    rwa [hall]
  | worker =>
    have hall : shmSendCommand .worker b.cmd = b.cmd := by
      rw [shmSendCommand, h.struct, ← h.length, slice_zero_length]
    rwa [hall]

end ShmBlock

/-! ## A command in the record log -/

theorem shmFramed {cmd : Bytes} (hbase : commandBaseSize ≤ cmd.length)
    (hstruct : commandSize cmd = cmd.length) (hlt : cmd.length < 2 ^ 64) :
    shmFraming.Framed cmd := by
  refine ⟨hbase, ?_⟩
  have htake : (cmd.take commandBaseSize).length = commandBaseSize := List.length_take_of_le hbase
  obtain ⟨-, -, hs, -⟩ := fields_append (cmd.drop commandBaseSize) htake.ge
  rw [List.take_append_drop] at hs
  change (commandSize (cmd.take commandBaseSize) + (2 ^ 64 - commandBaseSize)) % 2 ^ 64 =
    cmd.length - commandBaseSize
  rw [← hs, hstruct]
  rw [commandBaseSize] at hbase ⊢
  omega

/-- A command on the peer's side: what it receives is what was sent. -/
theorem ShmBlock.IsBuilt.received {chan : ShmChannel} {structSize regionSize : Nat} {b : ShmBlock}
    (h : b.IsBuilt chan structSize regionSize) {cmd : Bytes}
    (hcmd : cmd ∈ (shmFraming.run (.head []) (shmSendCommand chan.side b.cmd)).2) :
    ∃ localOff, Layout structSize regionSize localOff { b with cmd := cmd } := by
  obtain ⟨localOff, hlayout⟩ := h.layout
  obtain ⟨mem, hstruct, hlt, -⟩ := h
  have hsent := hlayout.send hstruct chan.side
  have hlength := hsent.length
  dsimp only at hlength
  have hframed : shmFraming.Framed (shmSendCommand chan.side b.cmd) :=
    shmFramed (by omega) (hsent.struct.trans hlength.symm) (by omega)
  rw [Framing.run_framed hframed] at hcmd
  obtain rfl := List.mem_singleton.1 hcmd
  exact ⟨localOff, hsent⟩

/-- The bytes of the data region at the places of attached buffers, `attached` bytes in all, repeat
struct and region read from the begin of the struct. -/
def RepeatsStruct (cmd region : Bytes) (attached : Nat) : Prop :=
  ∀ i, 4 ≤ i → i < 4 + attached →
    region[i]? = if i < cmd.length then cmd[i]? else region[i - cmd.length]?

/-- The log stores the received struct with the data region behind it. -/
theorem loadCommand_of_transferCommand {log log' : LogChannel} {cmd dataRegion : Bytes} {pos : Nat}
    (hstruct : commandSize cmd = cmd.length) (hregion : regionSize cmd ≤ dataRegion.length)
    (hsize : commandSize cmd + regionSize cmd ≤ File.maxTransfer)
    (h : log.transferCommand cmd dataRegion = some (pos, log')) :
    (log'.loadCommand pos).1 = some (0, cmd ++ slice dataRegion 0 (regionSize cmd)) := by
  obtain ⟨rfl, -, -, hlt⟩ := LogChannel.transferCommand_appends h
  have hlength : (cmd ++ slice dataRegion 0 (regionSize cmd)).length =
      commandSize cmd + regionSize cmd := by
    rw [List.length_append, length_slice (by omega), hstruct]
  have hrecord : log'.file.contents = log.file.contents ++
      (recordCommandMetadata (cmd ++ slice dataRegion 0 (regionSize cmd)).length 0 ++
        (cmd ++ slice dataRegion 0 (regionSize cmd))) ++ [] := by
    rw [LogChannel.transferCommand_whole hsize h, hlength, hstruct, slice_zero_length]
    simp only [List.append_assoc, List.append_nil]
  exact (LogChannel.loadCommand_record hrecord hlt (by decide) (hlength ▸ hsize)).1

/-- A command that is built on the shared-memory channel, received by the peer and recorded is
loaded from the log with the same struct if one `read` can move it. The buffer ids are not converted:
a buffer is found again exactly if its bytes are also those at the same distance from the begin of
the struct. -/
theorem shm_recorded_buffers_iff {chan : ShmChannel} {structSize regionSize : Nat} {b : ShmBlock}
    (hbuilt : b.IsBuilt chan structSize regionSize) {cmd : Bytes}
    (hreceived : cmd ∈ (shmFraming.run (.head []) (shmSendCommand chan.side b.cmd)).2)
    {log log' : LogChannel} {pos : Nat}
    (hrecord : log.transferCommand cmd (shmGetDataRegion b.mem cmd) = some (pos, log')) :
    (∃ loaded, (log'.loadCommand pos).1 = some (0, loaded) ∧ slice loaded 0 structSize = cmd ∧
      ∀ p ∈ b.buffers, (loadGetBuffer loaded p.1).take p.2.length =
        (shmGetBuffer b.mem cmd p.1).take p.2.length) ↔
      structSize + Channel.regionSize cmd ≤ File.maxTransfer ∧
        RepeatsStruct cmd (slice b.mem (localOffset cmd) (Channel.regionSize cmd))
          b.attachedSize := by
  obtain ⟨localOff, hlayout⟩ := hbuilt.received hreceived
  have hlength := hlayout.length
  have hmemory := hlayout.memory
  have hstart := hlayout.start
  have hattached := hlayout.attached
  have hregion := hlayout.region
  have hcontiguous := hlayout.contiguous
  have hstruct := hlayout.struct
  have hbound := hlayout.bound
  dsimp only at hlength hmemory hstart hattached hregion hcontiguous hstruct hbound
  by_cases hsize : structSize + Channel.regionSize cmd ≤ File.maxTransfer
  swap
  · -- the record is too long to be loaded
    have hlt : structSize < 2 ^ 47 := by
      obtain ⟨-, -, hlt, -⟩ := hbuilt
      exact hlt
    rw [← hstruct] at hsize hlt
    have hnone := LogChannel.loadCommand_too_long (by omega) (by omega) hrecord
    rw [hnone, ← hstruct]
    simp [hsize]
  rw [and_iff_right hsize]
  have hloaded := loadCommand_of_transferCommand (hstruct.trans hlength.symm) (by
    rw [shmGetDataRegion, List.length_drop, hstart]
    exact Nat.le_sub_of_add_le' hmemory) (hstruct ▸ hsize) hrecord
  -- the data region is a part of the memory
  have hslice : slice (shmGetDataRegion b.mem cmd) 0 (Channel.regionSize cmd) =
      slice b.mem (localOffset cmd) (Channel.regionSize cmd) := by
    rw [slice, slice, shmGetDataRegion, List.drop_zero]
  rw [hslice] at hloaded
  generalize hR : slice b.mem (localOffset cmd) (Channel.regionSize cmd) = region at hloaded ⊢
  have hbuffers : ∀ p ∈ b.buffers,
      (shmGetBuffer b.mem cmd p.1).take p.2.length = slice region p.1 p.2.length := by
    intro p hp
    obtain ⟨hlow, hhigh⟩ := hcontiguous.bounds hp
    rcases Nat.eq_zero_or_pos p.2.length with hnone | hpos
    · rw [slice, hnone, List.take_zero, List.take_zero]
    have hinside : p.1 + p.2.length ≤ Channel.regionSize cmd := by
      change p.1 + p.2.length ≤ 4 + b.attachedSize at hhigh
      change b.attachedSize ≤ regionSize at hattached
      split_ifs at hregion <;> omega
    rw [shmGetBuffer, if_neg (by omega), ← hR, slice_slice hinside]
    rfl
  have hiff := hcontiguous.slices_eq_iff (cmd ++ region) region
  constructor
  · rintro ⟨loaded, hload, -, hsame⟩ i hlow hhigh
    obtain rfl : cmd ++ region = loaded := by
      rw [hloaded] at hload
      exact congrArg Prod.snd (Option.some.inj hload)
    have hbyte := hiff.1 (fun p hp => (hsame p hp).trans (hbuffers p hp)) i hlow hhigh
    rw [← hbyte, List.getElem?_append]
  · intro hrepeats
    refine ⟨cmd ++ region, hloaded, ?_, ?_⟩
    · rw [← hlength, slice_zero_append]
    · intro p hp
      refine (hiff.2 ?_ p hp).trans (hbuffers p hp).symm
      intro i hlow hhigh
      rw [hrepeats i hlow hhigh, List.getElem?_append]

set_option maxRecDepth 8000 in
/-- The byte four of the struct is zero, so a buffer that holds a zero is found again. -/
theorem shm_recorded_zero_byte :
    ∃ b cmd pos log', runGuarded shmStep (fun b op => op.legal 1 b)
        ⟨List.replicate 64 7, (shmNewCommand ⟨.guest, 1, 64, 0, 0⟩ 136 1).1, []⟩ [.attach [0]] =
          some b ∧
      (shmFraming.run (.head []) (shmSendCommand .guest b.cmd)).2 = [cmd] ∧
      LogChannel.transferCommand ⟨⟨[], 0⟩, 0⟩ cmd (shmGetDataRegion b.mem cmd) = some (pos, log') ∧
      ∃ loaded, (log'.loadCommand pos).1 = some (0, loaded) ∧ slice loaded 0 136 = cmd ∧
        ∀ p ∈ b.buffers, (loadGetBuffer loaded p.1).take p.2.length =
          (shmGetBuffer b.mem cmd p.1).take p.2.length := by
  refine ⟨_, _, _, _, rfl, rfl, rfl, ?_⟩
  refine (@shm_recorded_buffers_iff ⟨.guest, 1, 64, 0, 0⟩ 136 1 _ ?_ _ (List.mem_singleton.2 rfl)
    ⟨⟨[], 0⟩, 0⟩ _ _ rfl).2 ⟨by decide, ?_⟩
  · exact ⟨List.replicate 64 7, by decide, by decide, by decide, fun _ => by decide,
      Reaches.of_runGuarded [.attach [0]] rfl⟩
  · intro i hlow hhigh
    obtain rfl : i = 4 := Nat.le_antisymm (Nat.le_of_lt_succ hhigh) hlow
    rfl

set_option maxRecDepth 8000 in
/-- A buffer with the byte `1` is loaded as a padding byte of the struct. -/
theorem shm_recorded_buffer_lost :
    ∃ b cmd pos log' loaded, runGuarded shmStep (fun b op => op.legal 1 b)
        ⟨List.replicate 64 7, (shmNewCommand ⟨.guest, 1, 64, 0, 0⟩ 136 1).1, []⟩ [.attach [1]] =
          some b ∧
      (shmFraming.run (.head []) (shmSendCommand .guest b.cmd)).2 = [cmd] ∧
      LogChannel.transferCommand ⟨⟨[], 0⟩, 0⟩ cmd (shmGetDataRegion b.mem cmd) = some (pos, log') ∧
      (log'.loadCommand pos).1 = some (0, loaded) ∧ b.buffers = [(4, [1])] ∧
      (shmGetBuffer b.mem cmd 4).take 1 = [1] ∧ (loadGetBuffer loaded 4).take 1 = [0] :=
  ⟨_, _, _, _, _, rfl, rfl, rfl, rfl, rfl, rfl, rfl⟩

end Ava.Channel
