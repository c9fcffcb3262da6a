import Ava.Channel.Socket
import Ava.Lib.Framing

/-!
# Commands over a stream socket

The socket channel as it works on memory: `command_channel_socket_new_command` allocates one block
and clears only the struct, buffers are copied behind the struct at the offset kept in the reserved
area, and the block is sent as it is. The sizes in the struct are the frame of the command on the
stream.

`socket_lossless` puts this together with the loops of `send_socket` and `recv_socket`: the commands
are received as they were sent, and every buffer is found under its id.
-/

set_option autoImplicit false

namespace Ava.Channel

open Ava.Lib

/-! ## Building a command -/

/-- A block that is being built, and the ids and bytes of the buffers attached so far. -/
structure SocketBlock where
  cmd : Bytes
  buffers : List (Nat × Bytes)

/-- The field `cur_offset` of the `struct block_seeker` in the reserved area. -/
def curOffset (cmd : Bytes) : Nat := leNat (slice cmd 88 8)

/-- `command_channel_socket_new_command` on the memory `mem` that was allocated for the block. The
data region is not cleared. -/
def socketNewCommand (vmId : UInt8) (structSize regionSize : Nat) (mem : Bytes) : Bytes :=
  let cmd := writeAt mem 0 (List.replicate structSize 0)
  let cmd := writeAt cmd 1 (leBytes 1 vmId.toNat)
  let cmd := writeAt cmd 48 (leBytes 8 structSize)
  let cmd := writeAt cmd 56 (leBytes 8 structSize)
  let cmd := writeAt cmd 64 (leBytes 8 regionSize)
  writeAt cmd 88 (leBytes 8 structSize)

/-- `command_channel_socket_attach_buffer`: buffer id and block. There is no result if the assertion
fails or the buffer would be copied past the end of the block. -/
def socketAttachBuffer (cmd buffer : Bytes) : Option (Nat × Bytes) :=
  if buffer = [] ∨ cmd.length < curOffset cmd + buffer.length then none
  else
    let offset := curOffset cmd
    let cmd := writeAt cmd 88 (leBytes 8 (offset + buffer.length))
    some (offset, writeAt cmd offset buffer)

/-- `command_channel_socket_send_command`: the bytes that are sent. -/
def socketSendCommand (cmd : Bytes) : Bytes :=
  let cmd := writeAt cmd 8 (leBytes 8 newInvocation.toNat)
  slice cmd 0 (commandSize cmd + regionSize cmd)

/-- `command_channel_socket_get_buffer`: the memory of the command from the buffer on. -/
def socketGetBuffer (cmd : Bytes) (bufferId : Nat) : Bytes := cmd.drop bufferId

/-- The caller sets fields of the struct, or attaches a buffer. -/
inductive BlockOp where
  | set (off : Nat) (data : Bytes)
  | attach (buffer : Bytes)

def blockStep (b : SocketBlock) : BlockOp → Option SocketBlock
  | .set off data => some { b with cmd := writeAt b.cmd off data }
  | .attach buffer =>
    (socketAttachBuffer b.cmd buffer).map fun r => ⟨r.2, b.buffers ++ [(r.1, buffer)]⟩

namespace SocketBlock

def attachedSize (b : SocketBlock) : Nat := (b.buffers.map fun p => p.2.length).sum

end SocketBlock

/-- The sizes, the data region and the reserved area are left to the channel. The buffers are not
empty and together not larger than the data region. -/
def BlockOp.legal (b : SocketBlock) : BlockOp → Prop
  | .set off data =>
    off + data.length ≤ 48 ∨
      commandBaseSize ≤ off ∧ off + data.length ≤ commandSize b.cmd
  | .attach buffer => buffer ≠ [] ∧ b.attachedSize + buffer.length ≤ regionSize b.cmd

instance BlockOp.decidableLegal (b : SocketBlock) (op : BlockOp) : Decidable (op.legal b) :=
  match op with
  | .set off data => inferInstanceAs (Decidable (off + data.length ≤ 48 ∨
      commandBaseSize ≤ off ∧ off + data.length ≤ commandSize b.cmd))
  | .attach buffer => inferInstanceAs (Decidable
      (buffer ≠ [] ∧ b.attachedSize + buffer.length ≤ regionSize b.cmd))

/-- A block as the channel can have it when it is sent. The sizes are those of an allocated
block. -/
def SocketBlock.IsBuilt (vmId : UInt8) (b : SocketBlock) : Prop :=
  ∃ structSize regionSize mem, commandBaseSize ≤ structSize ∧ structSize + regionSize < 2 ^ 64 ∧
    mem.length = structSize + regionSize ∧
    Reaches blockStep (fun b op => op.legal b)
      ⟨socketNewCommand vmId structSize regionSize mem, []⟩ b

/-! ## What is kept while it is built -/

/-- The sizes describe the block, the buffers follow each other behind the struct, and the next one
goes behind the last. -/
structure SocketBlock.Layout (structSize regionSize : Nat) (b : SocketBlock) : Prop where
  length : b.cmd.length = structSize + regionSize
  struct : commandSize b.cmd = structSize
  region : Channel.regionSize b.cmd = regionSize
  cur : curOffset b.cmd = structSize + b.attachedSize
  attached : b.attachedSize ≤ regionSize
  behind : ∀ p ∈ b.buffers, structSize ≤ p.1 ∧ p.1 + p.2.length ≤ structSize + b.attachedSize
  buffer : ∀ p ∈ b.buffers, slice b.cmd p.1 p.2.length = p.2

namespace SocketBlock

variable {structSize regionSize : Nat} {b b' : SocketBlock}

/-- The fields that `command_channel_socket_new_command` sets. -/
def newFields (vmId : UInt8) (structSize regionSize : Nat) : List Field :=
  [⟨1, 1, vmId.toNat⟩, ⟨48, 8, structSize⟩, ⟨56, 8, structSize⟩, ⟨64, 8, regionSize⟩,
    ⟨88, 8, structSize⟩]

theorem layout_new {vmId : UInt8} {mem : Bytes} (hstruct : commandBaseSize ≤ structSize)
    (hlt : structSize + regionSize < 2 ^ 64) (hmem : mem.length = structSize + regionSize) :
    Layout structSize regionSize ⟨socketNewCommand vmId structSize regionSize mem, []⟩ := by
  rw [commandBaseSize] at hstruct
  have hzeroed :
      (writeAt mem 0 (List.replicate structSize 0)).length = structSize + regionSize := by
    rw [length_writeAt (by simp; omega), hmem]
  have hcmd : socketNewCommand vmId structSize regionSize mem =
      writeFields (writeAt mem 0 (List.replicate structSize 0))
        (newFields vmId structSize regionSize) := rfl
  have hinside : ∀ f ∈ newFields vmId structSize regionSize,
      f.off + f.width ≤ (writeAt mem 0 (List.replicate structSize 0)).length := by
    rw [hzeroed]
    simp [newFields]
    omega
  have hapart : (newFields vmId structSize regionSize).Pairwise Field.Apart := by
    simp [newFields, Field.Apart]
  have hread : ∀ {off value : Nat}, ⟨off, 8, value⟩ ∈ newFields vmId structSize regionSize →
      value < 2 ^ 64 → leNat (slice (socketNewCommand vmId structSize regionSize mem) off 8) =
        value := by
    intro off value hmem hvalue
    rw [hcmd, leNat_writeFields hinside hapart hmem]
    exact Nat.mod_eq_of_lt hvalue
  refine ⟨?_, ?_, ?_, ?_, Nat.zero_le _, (fun p hp => absurd hp List.not_mem_nil),
    (fun p hp => absurd hp List.not_mem_nil)⟩
  · rw [hcmd, length_writeFields hinside, hzeroed]
  · exact hread (by simp [newFields]) (by omega)
  · exact hread (by simp [newFields]) (by omega)
  · change leNat _ = structSize
    exact hread (by simp [newFields]) (by omega)

theorem Layout.set (h : Layout structSize regionSize b) {off : Nat} {data : Bytes}
    (hlegal : off + data.length ≤ 48 ∨ commandBaseSize ≤ off ∧ off + data.length ≤ structSize)
    (hstruct : commandBaseSize ≤ structSize) :
    Layout structSize regionSize { b with cmd := writeAt b.cmd off data } := by
  rw [commandBaseSize] at hlegal hstruct
  have hlength := h.length
  have hinside : off + data.length ≤ b.cmd.length := by omega
  have hsame : ∀ o n, 48 ≤ o → o + n ≤ 136 ∨ structSize ≤ o →
      slice (writeAt b.cmd off data) o n = slice b.cmd o n := by
    intro o n hlow hhigh
    apply slice_writeAt_of_disjoint hinside
    omega
  refine ⟨?_, ?_, ?_, ?_, h.attached, h.behind, ?_⟩
  · rw [length_writeAt hinside, h.length]
  · rw [commandSize, hsame 48 8 (by omega) (by omega)]
    exact h.struct
  · rw [Channel.regionSize, hsame 64 8 (by omega) (by omega)]
    exact h.region
  · rw [curOffset, hsame 88 8 (by omega) (by omega)]
    exact h.cur
  · intro p hp
    have hbehind := (h.behind p hp).1
    rw [hsame p.1 p.2.length (by omega) (.inr hbehind)]
    exact h.buffer p hp

/-- A buffer for which there is room is attached behind the last one. -/
theorem Layout.attach (h : Layout structSize regionSize b) {buffer : Bytes} (hne : buffer ≠ [])
    (hfits : b.attachedSize + buffer.length ≤ regionSize)
    (hstruct : commandBaseSize ≤ structSize) (hlt : structSize + regionSize < 2 ^ 64) :
    ∃ cmd, socketAttachBuffer b.cmd buffer = some (structSize + b.attachedSize, cmd) ∧
      Layout structSize regionSize
        ⟨cmd, b.buffers ++ [(structSize + b.attachedSize, buffer)]⟩ ∧
      slice cmd structSize b.attachedSize = slice b.cmd structSize b.attachedSize := by
  rw [commandBaseSize] at hstruct
  have hlength := h.length
  have hcur := h.cur
  have hsize : ∀ cmd, attachedSize ⟨cmd, b.buffers ++ [(structSize + b.attachedSize, buffer)]⟩ =
      b.attachedSize + buffer.length := by
    simp [attachedSize]
  generalize hoffset : structSize + b.attachedSize = offset at hcur hsize ⊢
  have hcond : ¬ (buffer = [] ∨ b.cmd.length < curOffset b.cmd + buffer.length) := by
    rintro (hnil | hlong)
    · exact hne hnil
    · omega
  refine ⟨writeAt (writeAt b.cmd 88 (leBytes 8 (offset + buffer.length))) offset buffer, ?_, ?_⟩
  · rw [socketAttachBuffer, if_neg hcond, hcur]
  have hlength' : (writeAt b.cmd 88 (leBytes 8 (offset + buffer.length))).length =
      b.cmd.length := length_writeAt_leBytes (by omega)
  have hinside : offset + buffer.length ≤
      (writeAt b.cmd 88 (leBytes 8 (offset + buffer.length))).length := by omega
  -- what lies before the new buffer and is not the offset itself stays
  have hsame : ∀ o n, o + n ≤ offset → o + n ≤ 88 ∨ 96 ≤ o →
      slice (writeAt (writeAt b.cmd 88 (leBytes 8 (offset + buffer.length))) offset buffer) o n =
        slice b.cmd o n := by
    intro o n hbefore hdisjoint
    rw [slice_writeAt_of_disjoint hinside (.inl hbefore)]
    apply slice_writeAt_leBytes_of_disjoint
    · omega
    · exact hdisjoint
  refine ⟨⟨?_, ?_, ?_, ?_, ?_, ?_, ?_⟩, hsame _ _ (by omega) (by omega)⟩
  · rw [length_writeAt hinside, hlength', hlength]
  · rw [commandSize, hsame 48 8 (by omega) (by omega)]
    exact h.struct
  · rw [Channel.regionSize, hsame 64 8 (by omega) (by omega)]
    exact h.region
  · rw [hsize, curOffset, slice_writeAt_of_disjoint hinside (by omega),
      slice_writeAt_leBytes (by omega), leNat_leBytes_of_lt (by omega)]
    omega
  · exact (hsize _).trans_le hfits
  · intro p hp
    rw [hsize]
    rcases List.mem_append.1 hp with hp | hp
    · have hbehind := h.behind p hp
      omega
    · obtain rfl := List.mem_singleton.1 hp
      dsimp only
      omega
  · intro p hp
    rcases List.mem_append.1 hp with hp | hp
    · have hbehind := h.behind p hp
      rw [hsame p.1 p.2.length (by omega) (by omega)]
      exact h.buffer p hp
    · obtain rfl := List.mem_singleton.1 hp
      exact slice_writeAt_self hinside

theorem Layout.step (h : Layout structSize regionSize b) (hstruct : commandBaseSize ≤ structSize)
    (hlt : structSize + regionSize < 2 ^ 64) {op : BlockOp} (hlegal : op.legal b) :
    ∃ b', blockStep b op = some b' ∧ Layout structSize regionSize b' := by
  cases op with
  | set off data =>
    rw [BlockOp.legal, h.struct] at hlegal
    exact ⟨_, rfl, h.set hlegal hstruct⟩
  | attach buffer =>
    rw [BlockOp.legal, h.region] at hlegal
    obtain ⟨cmd, hattach, hlayout, -⟩ := h.attach hlegal.1 hlegal.2 hstruct hlt
    refine ⟨_, ?_, hlayout⟩
    rw [blockStep, hattach]
    rfl

theorem IsBuilt.layout {vmId : UInt8} (h : b.IsBuilt vmId) :
    ∃ structSize regionSize, commandBaseSize ≤ structSize ∧ structSize + regionSize < 2 ^ 64 ∧
      Layout structSize regionSize b := by
  obtain ⟨structSize, regionSize, mem, hstruct, hlt, hmem, hreach⟩ := h
  refine ⟨structSize, regionSize, hstruct, hlt, ?_⟩
  refine hreach.invariant (I := Layout structSize regionSize) ?_ (layout_new hstruct hlt hmem)
  intro c op c' hI hlegal hstep
  obtain ⟨c'', hstep', hlayout⟩ := hI.step hstruct hlt hlegal
  rw [hstep] at hstep'
  obtain rfl := Option.some.inj hstep'
  exact hlayout

/-- The command as the generated code sees it. -/
def draft (b : SocketBlock) : SocketDraft :=
  ⟨commandSize b.cmd, Channel.regionSize b.cmd, curOffset b.cmd,
    slice b.cmd (commandSize b.cmd) b.attachedSize⟩

/-- An attach on the block is an attach on the draft. -/
theorem Layout.attach_draft (h : Layout structSize regionSize b) {buffer : Bytes}
    (hne : buffer ≠ []) (hfits : b.attachedSize + buffer.length ≤ regionSize)
    (hstruct : commandBaseSize ≤ structSize) (hlt : structSize + regionSize < 2 ^ 64) :
    ∃ b', blockStep b (.attach buffer) = some b' ∧
      b.draft.attachBuffer buffer = some (structSize + b.attachedSize, b'.draft) := by
  obtain ⟨cmd, hattach, hlayout, hsame⟩ := h.attach hne hfits hstruct hlt
  refine ⟨_, by rw [blockStep, hattach]; rfl, ?_⟩
  have hsize : attachedSize ⟨cmd, b.buffers ++ [(structSize + b.attachedSize, buffer)]⟩ =
      b.attachedSize + buffer.length := by
    simp [attachedSize]
  have hs := hlayout.struct
  have hr := hlayout.region
  have hc := hlayout.cur
  have hbuffer := hlayout.buffer (structSize + b.attachedSize, buffer) (by simp)
  rw [hsize] at hc
  dsimp only at hs hr hc hbuffer
  rw [SocketDraft.attachBuffer_eq hne, draft, draft]
  · simp only [h.struct, h.region, h.cur, hs, hr, hc, hsize, Option.some.injEq, Prod.mk.injEq,
      SocketDraft.mk.injEq, true_and]
    refine ⟨by omega, ?_⟩
    rw [slice_add, hsame, hbuffer]
  · simp only [draft, h.struct, h.region, h.cur]
    omega

theorem Layout.send (h : Layout structSize regionSize b) (hstruct : commandBaseSize ≤ structSize) :
    socketSendCommand b.cmd = writeAt b.cmd 8 (leBytes 8 newInvocation.toNat) ∧
      Layout structSize regionSize { b with cmd := socketSendCommand b.cmd } := by
  have hset : Layout structSize regionSize
      { b with cmd := writeAt b.cmd 8 (leBytes 8 newInvocation.toNat) } :=
    h.set (.inl (by rw [length_leBytes]; omega)) hstruct
  have hall : socketSendCommand b.cmd = writeAt b.cmd 8 (leBytes 8 newInvocation.toNat) := by
    have hs := hset.struct
    have hr := hset.region
    have hlength := hset.length
    dsimp only at hs hr hlength
    rw [socketSendCommand, hs, hr, ← hlength, slice_zero_length]
  rw [hall]
  exact ⟨rfl, hset⟩

end SocketBlock

/-! ## Commands on the stream -/

/-- The frame of `command_channel_socket_receive_command`: the struct base is received first, and
then what the size fields say, as a difference of type `size_t`. -/
def commandFraming : Framing where
  header := commandBaseSize
  header_pos := commandBaseSize_pos
  rest cmd := (commandSize cmd + regionSize cmd + (2 ^ 64 - commandBaseSize)) % 2 ^ 64

/-- A block whose size fields describe it is a frame. -/
theorem framed_of_wellSized {cmd : Bytes} (h : WellSized cmd) (hlt : cmd.length < 2 ^ 64) :
    commandFraming.Framed cmd := by
  obtain ⟨hbase, hsize⟩ := h
  have hle : commandBaseSize ≤ cmd.length := by omega
  refine ⟨hle, ?_⟩
  -- the size fields are in the header
  have htake : (cmd.take commandBaseSize).length = commandBaseSize := List.length_take_of_le hle
  obtain ⟨-, -, hs, hr⟩ := fields_append (cmd.drop commandBaseSize) htake.ge
  rw [List.take_append_drop] at hs hr
  change (commandSize (cmd.take commandBaseSize) + regionSize (cmd.take commandBaseSize) +
    (2 ^ 64 - commandBaseSize)) % 2 ^ 64 = cmd.length - commandBaseSize
  rw [← hs, ← hr, hsize]
  rw [commandBaseSize] at hle ⊢
  omega

theorem Command.framed (c : Command) : commandFraming.Framed c.bytes :=
  framed_of_wellSized c.wellSized (c.size_lt.trans (by norm_num))

theorem SocketBlock.Layout.framed {structSize regionSize : Nat} {b : SocketBlock}
    (h : Layout structSize regionSize b) (hstruct : commandBaseSize ≤ structSize)
    (hlt : structSize + regionSize < 2 ^ 64) : commandFraming.Framed b.cmd := by
  apply framed_of_wellSized
  · refine ⟨h.struct.symm ▸ hstruct, ?_⟩
    rw [h.struct, h.region, h.length]
  · rw [h.length]
    exact hlt

/-- Commands that are built on the socket channel and sent one after the other are received as they
were sent, however `send` and `recv` split the stream: in any state the commands received so far are
the first ones sent, the run goes on until all have arrived and cannot go on forever, and every
buffer id yields the attached bytes. -/
theorem socket_lossless {vmId : UInt8} {blocks : List SocketBlock}
    (hblocks : ∀ b ∈ blocks, b.IsBuilt vmId) :
    (∀ b ∈ blocks, ∀ op : BlockOp, op.legal b → (blockStep b op).isSome = true) ∧
      ∀ s, Reaches (linkStep commandFraming) (fun _ _ => True)
          (Link.new (blocks.map fun b => socketSendCommand b.cmd)) s →
        s.received <+: blocks.map (fun b => socketSendCommand b.cmd) ∧
        (s.received = blocks.map (fun b => socketSendCommand b.cmd) ∨
          ∃ op t, linkStep commandFraming s op = some t) ∧
        (∀ op t, linkStep commandFraming s op = some t → t.remaining < s.remaining) ∧
        ∀ (i : Nat) (b : SocketBlock) (cmd : Bytes), blocks[i]? = some b →
          s.received[i]? = some cmd →
          cmd = writeAt b.cmd 8 (leBytes 8 newInvocation.toNat) ∧
            ∀ p ∈ b.buffers, (socketGetBuffer cmd p.1).take p.2.length = p.2 := by
  refine ⟨?_, ?_⟩
  · intro b hb op hlegal
    obtain ⟨structSize, regionSize, hstruct, hlt, hlayout⟩ := (hblocks b hb).layout
    obtain ⟨b', hstep, -⟩ := hlayout.step hstruct hlt hlegal
    rw [hstep]
    rfl
  · intro s hs
    have hframed : ∀ m ∈ blocks.map (fun b => socketSendCommand b.cmd),
        commandFraming.Framed m := by
      intro m hm
      obtain ⟨b, hb, rfl⟩ := List.mem_map.1 hm
      obtain ⟨structSize, regionSize, hstruct, hlt, hlayout⟩ := (hblocks b hb).layout
      exact (hlayout.send hstruct).2.framed hstruct hlt
    obtain ⟨hfirst, hprogress⟩ := Link.delivers hframed hs
    refine ⟨hfirst, hprogress, fun op t hstep => Link.remaining_lt hstep, ?_⟩
    intro i b cmd hb hcmd
    -- the command with this number is the block with this number
    have hsame : cmd = socketSendCommand b.cmd := by
      obtain ⟨rest, hrest⟩ := hfirst
      have hlookup : (s.received ++ rest)[i]? = s.received[i]? :=
        List.getElem?_append_left (List.getElem?_eq_some_iff.1 hcmd).1
      rw [hrest, List.getElem?_map, hb, hcmd] at hlookup
      exact (Option.some.inj hlookup).symm
    obtain ⟨structSize, regionSize, hstruct, hlt, hlayout⟩ :=
      (hblocks b (List.mem_of_getElem? hb)).layout
    obtain ⟨hsend, hsent⟩ := hlayout.send hstruct
    rw [hsame]
    exact ⟨hsend, hsent.buffer⟩

set_option maxRecDepth 8000 in
/-- The case of one command with two buffers, received in four pieces. -/
theorem socket_lossless_two_buffers :
    ∃ b s, runGuarded blockStep (fun b op => op.legal b)
        ⟨socketNewCommand 1 136 3 (List.replicate 139 7), []⟩
        [.set 0 [2], .attach [5], .attach [6, 4]] = some b ∧
      runGuarded (linkStep commandFraming) (fun _ _ => True) (Link.new [socketSendCommand b.cmd])
        [.start, .send 100, .recv 99, .send 39, .recv 37, .recv 2, .recv 1] = some s ∧
      s.received = [socketSendCommand b.cmd] ∧
      ∀ p ∈ b.buffers, (socketGetBuffer (socketSendCommand b.cmd) p.1).take p.2.length = p.2 := by
  refine ⟨_, _, rfl, rfl, rfl, ?_⟩
  refine ((@socket_lossless 1 [_] ?_).2 _ (Reaches.of_runGuarded
    [.start, .send 100, .recv 99, .send 39, .recv 37, .recv 2, .recv 1] rfl)).2.2.2 0 _ _
    rfl rfl |>.2
  intro b hb
  obtain rfl := List.mem_singleton.1 hb
  exact ⟨136, 3, List.replicate 139 7, by decide, by decide, by decide,
    Reaches.of_runGuarded [.set 0 [2], .attach [5], .attach [6, 4]] rfl⟩

end Ava.Channel
