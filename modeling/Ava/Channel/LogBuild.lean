import Ava.Channel.LogFile
import Ava.Lib.Transition

/-!
# Commands built on the log channel

`command_channel_log_new_command` writes the metadata of a record and keeps in the command where the
struct and the buffers go. It does not make the file longer than the metadata, and
`command_channel_log_attach_buffer` does not advance the offset for the next buffer. So the room of
a record is taken only when the last byte of it is written, and all buffers of one command are
written at the same place.

This module has the operations on several commands at once, what each of them writes, and the bytes
of a record that was filled.
-/

set_option autoImplicit false

namespace Ava.Channel

open Ava.Lib

/-! ## Commands under construction -/

/-- A command created on the log, with what was done to it so far. -/
structure Built where
  structSize : Nat
  regionSize : Nat
  draft : Log.Draft
  /-- The returned buffer ids with the attached bytes. -/
  buffers : List (Nat × Bytes)
  /-- The struct as it was when the command was sent. -/
  sent : Option Bytes
  /-- The command created before this one, if any, was filled at that time. -/
  afterFilled : Bool

namespace Built

/-- The first byte of the record. -/
def first (b : Built) : Nat := b.draft.commandStartOffset - metadataSize

/-- The byte behind the record. -/
def last (b : Built) : Nat := b.draft.commandStartOffset + b.structSize + b.regionSize

def attachedSize (b : Built) : Nat := (b.buffers.map fun p => p.2.length).sum

/-- One `read` or `write` can move the command. -/
def Fits (b : Built) : Prop := b.structSize + b.regionSize ≤ File.maxTransfer

instance (b : Built) : Decidable b.Fits :=
  inferInstanceAs (Decidable (b.structSize + b.regionSize ≤ File.maxTransfer))

/-- The last byte of the record is written: one buffer takes the whole data region, or there is no
data region and the struct is written. -/
def Filled (b : Built) : Prop :=
  if b.regionSize = 0 then b.sent.isSome = true
  else ∃ p ∈ b.buffers, p.2.length = b.regionSize

instance (b : Built) : Decidable b.Filled :=
  inferInstanceAs (Decidable (if b.regionSize = 0 then b.sent.isSome = true
    else ∃ p ∈ b.buffers, p.2.length = b.regionSize))

end Built

/-- The log with the commands created on it, in this order. -/
structure LogBuild where
  chan : LogChannel
  built : List Built

inductive BuildOp where
  | new (structSize regionSize : Nat)
  | attach (i : Nat) (buffer : Bytes)
  | send (i : Nat) (struct : Bytes)

namespace LogBuild

def new : LogBuild := ⟨LogChannel.new, []⟩

/-- The command created last, if any, is filled. -/
def LastFilled (built : List Built) : Prop := ∀ b ∈ built.getLast?, b.Filled

instance (built : List Built) : Decidable (LastFilled built) :=
  inferInstanceAs (Decidable (∀ b ∈ built.getLast?, b.Filled))

end LogBuild

/-- One operation, on the command with number `i` where it is not a creation. -/
def buildStep (s : LogBuild) : BuildOp → Option LogBuild
  | .new structSize regionSize => do
      let (draft, chan) ← s.chan.newCommand structSize regionSize
      return ⟨chan, s.built ++
        [⟨structSize, regionSize, draft, [], none, decide (LogBuild.LastFilled s.built)⟩]⟩
  | .attach i buffer => do
      let b ← s.built[i]?
      let (id, chan) ← s.chan.attachBuffer b.draft buffer
      return ⟨chan, s.built.set i { b with buffers := b.buffers ++ [(id, buffer)] }⟩
  | .send i struct => do
      let b ← s.built[i]?
      let chan ← s.chan.sendCommand b.draft struct
      return ⟨chan, s.built.set i { b with sent := some struct }⟩

/-- The operations of each command are in order, its buffers have together at most the declared
size, and the struct that is sent has the size and the reserved area of the command. -/
def BuildOp.legal (s : LogBuild) : BuildOp → Prop
  | .new structSize _ => commandBaseSize ≤ structSize
  | .attach i buffer =>
    ∀ b ∈ s.built[i]?, b.sent = none ∧ b.attachedSize + buffer.length ≤ b.regionSize
  | .send i struct =>
    ∀ b ∈ s.built[i]?, b.sent = none ∧ struct.length = b.structSize ∧
      commandSize struct = b.structSize ∧ slice struct 72 64 = b.draft.reservedArea

instance BuildOp.decidableLegal (s : LogBuild) (op : BuildOp) : Decidable (op.legal s) :=
  match op with
  | .new structSize _ => inferInstanceAs (Decidable (commandBaseSize ≤ structSize))
  | .attach i buffer => inferInstanceAs (Decidable
      (∀ b ∈ s.built[i]?, b.sent = none ∧ b.attachedSize + buffer.length ≤ b.regionSize))
  | .send i struct => inferInstanceAs (Decidable
      (∀ b ∈ s.built[i]?, b.sent = none ∧ struct.length = b.structSize ∧
        commandSize struct = b.structSize ∧ slice struct 72 64 = b.draft.reservedArea))

/-! ## Loading back -/

/-- A load at `offset` and `n - 1` sequential loads after it. -/
def LogChannel.sequentialLoads (chan : LogChannel) (offset : Int) :
    Nat → List (Option (Nat × Bytes))
  | 0 => []
  | n + 1 => (chan.loadCommand offset).1 ::
      LogChannel.sequentialLoads (chan.loadCommand offset).2 (-1) n

/-- `cmd` is the command `b` with struct, data region and buffers. -/
def Built.IsLoaded (b : Built) (cmd : Bytes) : Prop :=
  cmd.length = b.structSize + b.regionSize ∧
    some (slice cmd 0 b.structSize) = b.sent ∧
    ∀ p ∈ b.buffers, slice cmd p.1 p.2.length = p.2

namespace LogBuild

/-- The records occupy disjoint ranges of the file. -/
def Separate (s : LogBuild) : Prop :=
  s.built.Pairwise fun b c => b.last ≤ c.first ∨ c.last ≤ b.first

/-- Sequential loading returns exactly the commands in creation order. -/
def LoadsBack (s : LogBuild) : Prop :=
  ∃ cmds : List Bytes,
    s.chan.sequentialLoads 0 (s.built.length + 1) =
        cmds.map (fun cmd => some (0, cmd)) ++ [none] ∧
      List.Forall₂ Built.IsLoaded s.built cmds

end LogBuild

/-! ## What a step writes -/

/-- An attach or a send on the command `b` makes it `b'` and writes `data` at `off`. -/
inductive Built.Writes (b : Built) : Nat → Bytes → Built → Prop
  | attach {buffer : Bytes} (hsent : b.sent = none)
      (hfits : b.attachedSize + buffer.length ≤ b.regionSize) :
      b.Writes b.draft.currentBufferOffset buffer
        { b with buffers := b.buffers ++
          [(b.draft.currentBufferOffset - b.draft.commandStartOffset, buffer)] }
  | send {struct : Bytes} (hsent : b.sent = none) (hlength : struct.length = b.structSize) :
      b.Writes b.draft.commandStartOffset struct { b with sent := some struct }

theorem exists_split_of_getElem? {bs : List Built} {i : Nat} {b : Built} (h : bs[i]? = some b) :
    ∃ l r, bs = l ++ b :: r ∧ ∀ b', bs.set i b' = l ++ b' :: r := by
  obtain ⟨hi, rfl⟩ := List.getElem?_eq_some_iff.1 h
  refine ⟨bs.take i, bs.drop (i + 1), ?_, fun b' => List.set_eq_take_cons_drop b' hi⟩
  rw [List.cons_getElem_drop_succ, List.take_append_drop]

/-- A step creates a command at the end, or writes for one that is there. -/
theorem buildStep_cases {s s' : LogBuild} {op : BuildOp} (hlegal : op.legal s)
    (hwhole : ∀ b ∈ s.built, b.Fits) (h : buildStep s op = some s') :
    (∃ structSize regionSize, commandBaseSize ≤ structSize ∧
      s'.built = s.built ++ [⟨structSize, regionSize,
        ⟨s.chan.file.contents.length + metadataSize,
          s.chan.file.contents.length + metadataSize + structSize⟩,
        [], none, decide (LogBuild.LastFilled s.built)⟩] ∧
      s'.chan.file.contents =
        s.chan.file.contents ++ recordCommandMetadata (structSize + regionSize) 0 ∧
      s'.chan.file.contents.length < 2 ^ 63) ∨
    ∃ l b r off data b', s.built = l ++ b :: r ∧ s'.built = l ++ b' :: r ∧ b.Writes off data b' ∧
      s'.chan.file.contents = writeAt s.chan.file.contents off data ∧
      off + data.length < 2 ^ 63 := by
  cases op with
  | new structSize regionSize =>
    left
    obtain ⟨⟨d, chan⟩, hchan, h⟩ := Option.bind_eq_some_iff.1 h
    cases h
    obtain ⟨rfl, hcontents, hlt⟩ := LogChannel.newCommand_spec hchan
    exact ⟨structSize, regionSize, hlegal, rfl, hcontents, hlt⟩
  | attach i buffer =>
    right
    obtain ⟨b, hb, h⟩ := Option.bind_eq_some_iff.1 h
    obtain ⟨⟨id, chan⟩, hchan, h⟩ := Option.bind_eq_some_iff.1 h
    cases h
    obtain ⟨hsent, hfits⟩ := hlegal b hb
    have hsize : buffer.length ≤ File.maxTransfer := by
      have hle := hwhole b (List.mem_of_getElem? hb)
      rw [Built.Fits] at hle
      omega
    obtain ⟨rfl, hcontents, hlt⟩ := LogChannel.attachBuffer_spec hsize hchan
    obtain ⟨l, r, hsplit, hset⟩ := exists_split_of_getElem? hb
    exact ⟨l, b, r, _, buffer, _, hsplit, hset _, .attach hsent hfits, hcontents, hlt⟩
  | send i struct =>
    right
    obtain ⟨b, hb, h⟩ := Option.bind_eq_some_iff.1 h
    obtain ⟨chan, hchan, h⟩ := Option.bind_eq_some_iff.1 h
    cases h
    obtain ⟨hsent, hlength, -⟩ := hlegal b hb
    have hsize : struct.length ≤ File.maxTransfer := by
      have hle := hwhole b (List.mem_of_getElem? hb)
      rw [Built.Fits] at hle
      omega
    obtain ⟨hcontents, hlt⟩ := LogChannel.sendCommand_spec hsize hchan
    obtain ⟨l, r, hsplit, hset⟩ := exists_split_of_getElem? hb
    exact ⟨l, b, r, _, struct, _, hsplit, hset _, .send hsent hlength, hcontents, hlt⟩

namespace Built

/-- What holds of every command at any time. -/
structure WellBuilt (b : Built) : Prop where
  struct : commandBaseSize ≤ b.structSize
  start : metadataSize ≤ b.draft.commandStartOffset
  offset : b.draft.currentBufferOffset = b.draft.commandStartOffset + b.structSize
  attached : b.attachedSize ≤ b.regionSize
  sent : ∀ struct ∈ b.sent, struct.length = b.structSize
  ids : ∀ p ∈ b.buffers, p.1 = b.structSize

/-- Nothing was written for the command but its metadata. -/
def Fresh (b : Built) : Prop := b.sent = none ∧ b.attachedSize = 0

variable {b b' : Built} {off : Nat} {data : Bytes}

variable {p : Nat × Bytes}

theorem length_le_attachedSize (hp : p ∈ b.buffers) : p.2.length ≤ b.attachedSize :=
  List.le_sum_of_mem (List.mem_map.2 ⟨p, hp, rfl⟩)

theorem filled_of_regionSize_zero (h : b.regionSize = 0) : b.Filled ↔ b.sent.isSome = true := by
  rw [Filled, if_pos h]

theorem filled_of_regionSize_pos (h : b.regionSize ≠ 0) :
    b.Filled ↔ ∃ p ∈ b.buffers, p.2.length = b.regionSize := by
  rw [Filled, if_neg h]

theorem Fresh.not_filled (h : b.Fresh) : ¬ b.Filled := by
  obtain ⟨hsent, hattached⟩ := h
  by_cases hregion : b.regionSize = 0
  · rw [filled_of_regionSize_zero hregion, hsent]
    exact Bool.false_ne_true
  · rw [filled_of_regionSize_pos hregion]
    rintro ⟨p, hp, hlength⟩
    have hle := length_le_attachedSize hp
    omega

namespace Writes

theorem first_eq (h : b.Writes off data b') : b'.first = b.first := by cases h <;> rfl

theorem last_eq (h : b.Writes off data b') : b'.last = b.last := by cases h <;> rfl

theorem afterFilled_eq (h : b.Writes off data b') : b'.afterFilled = b.afterFilled := by
  cases h <;> rfl

theorem le_last (h : b.Writes off data b') (hb : b.WellBuilt) : off + data.length ≤ b.last := by
  have hoffset := hb.offset
  cases h with
  | attach hsent hfits =>
    rw [hoffset, last]
    omega
  | send hsent hlength =>
    rw [hlength, last]
    omega

/-- A write fills the record if it ends where the record ends. -/
theorem filled_iff (h : b.Writes off data b') (hb : b.WellBuilt) :
    b'.Filled ↔ b.Filled ∨ data ≠ [] ∧ off + data.length = b.last := by
  have hoffset := hb.offset
  have hstruct := hb.struct
  rw [commandBaseSize] at hstruct
  by_cases hregion : b.regionSize = 0
  · rw [filled_of_regionSize_zero (b := b) hregion]
    cases h with
    | attach hsent hfits =>
      have hdata : data = [] := List.eq_nil_of_length_eq_zero (by omega)
      refine Iff.trans (filled_of_regionSize_zero hregion) ?_
      exact ⟨Or.inl, fun h => h.resolve_right fun h => h.1 hdata⟩
    | send hsent hlength =>
      refine Iff.trans (filled_of_regionSize_zero hregion) ?_
      refine ⟨fun _ => .inr ⟨?_, ?_⟩, fun _ => rfl⟩
      · rintro rfl
        rw [List.length_nil] at hlength
        omega
      · rw [hlength, last, hregion]
        rfl
  · rw [filled_of_regionSize_pos (b := b) hregion]
    cases h with
    | attach hsent hfits =>
      refine Iff.trans (filled_of_regionSize_pos hregion) ?_
      simp only [List.mem_append, List.mem_singleton, or_and_right, exists_or]
      refine or_congr Iff.rfl ⟨?_, ?_⟩
      · rintro ⟨p, rfl, hlength⟩
        refine ⟨?_, ?_⟩
        · rintro rfl
          exact hregion hlength.symm
        · rw [hoffset, last, ← hlength]
      · rintro ⟨-, hlength⟩
        rw [hoffset, last] at hlength
        exact ⟨_, rfl, Nat.add_left_cancel hlength⟩
    | send hsent hlength =>
      refine Iff.trans (filled_of_regionSize_pos hregion) ?_
      refine ⟨Or.inl, fun h => h.resolve_right ?_⟩
      rintro ⟨-, hend⟩
      rw [hlength, last] at hend
      omega

theorem filled (h : b.Writes off data b') (hb : b.WellBuilt) (hfilled : b.Filled) : b'.Filled :=
  (h.filled_iff hb).2 (.inl hfilled)

theorem sent_eq_none (h : b.Writes off data b') : b.sent = none := by
  cases h with
  | attach hsent hfits => exact hsent
  | send hsent hlength => exact hsent

theorem wellBuilt (h : b.Writes off data b') (hb : b.WellBuilt) : b'.WellBuilt := by
  cases h with
  | attach hsent hfits =>
    refine ⟨hb.struct, hb.start, hb.offset, ?_, hb.sent, ?_⟩
    · rw [attachedSize, List.map_append, List.sum_append]
      exact hfits
    · intro p hp
      rcases List.mem_append.1 hp with hp | hp
      · exact hb.ids p hp
      · obtain rfl := List.mem_singleton.1 hp
        change b.draft.currentBufferOffset - b.draft.commandStartOffset = b.structSize
        rw [hb.offset, Nat.add_sub_cancel_left]
  | send hsent hlength =>
    refine ⟨hb.struct, hb.start, hb.offset, hb.attached, ?_, hb.ids⟩
    intro struct hstruct
    obtain rfl := Option.some.inj hstruct
    exact hlength

/-- A command that was written to without being filled is never filled. -/
theorem filled_or_fresh (h : b.Writes off data b') (hb : b.WellBuilt) (h' : b'.Filled ∨ b'.Fresh) :
    b.Filled ∨ b.Fresh := by
  have hoffset := hb.offset
  have hattached := hb.attached
  rcases h' with hfilled | ⟨hsent', hempty⟩
  · refine ((h.filled_iff hb).1 hfilled).imp_right ?_
    -- the last write has taken the whole region, so nothing was attached before
    rintro ⟨-, hend⟩
    refine ⟨h.sent_eq_none, ?_⟩
    rw [last] at hend
    cases h with
    | attach hsent hfits => omega
    | send hsent hlength => omega
  · right
    refine ⟨h.sent_eq_none, ?_⟩
    cases h with
    | attach hsent hfits =>
      rw [attachedSize, List.map_append, List.sum_append] at hempty
      exact Nat.eq_zero_of_add_eq_zero_right hempty
    | send hsent hlength => cases hsent'

end Writes

/-! ## The bytes of a record -/

/-- The data region, where one buffer takes all of it. -/
def region (b : Built) : Bytes := (b.buffers.map Prod.snd).flatten

/-- What the file holds for a filled or fresh command. The struct is zeros until it is sent. -/
def image (b : Built) : Bytes :=
  recordCommandMetadata (b.structSize + b.regionSize) 0 ++
    if b.Filled then b.sent.getD (List.replicate b.structSize 0) ++ b.region else []

theorem length_region : b.region.length = b.attachedSize := by
  rw [region, attachedSize, List.length_flatten, List.map_map]
  rfl

theorem region_eq_nil (h : b.attachedSize = 0) : b.region = [] :=
  List.eq_nil_of_length_eq_zero (length_region.trans h)

theorem attachedSize_of_filled (h : b.Filled) (hb : b.WellBuilt) :
    b.attachedSize = b.regionSize := by
  have hattached := hb.attached
  by_cases hregion : b.regionSize = 0
  · omega
  · obtain ⟨p, hp, hlength⟩ := (filled_of_regionSize_pos hregion).1 h
    have hle := length_le_attachedSize hp
    omega

/-- The only buffer that is not empty takes the whole region. -/
theorem region_eq_of_length (hp : p ∈ b.buffers) (hlength : p.2.length = b.attachedSize) :
    b.region = p.2 := by
  obtain ⟨l, r, hsplit⟩ := List.append_of_mem hp
  have hsizes : b.region = (l.map Prod.snd).flatten ++ (p.2 ++ (r.map Prod.snd).flatten) := by
    rw [region, hsplit, List.map_append, List.flatten_append, List.map_cons, List.flatten_cons]
  have htotal := congrArg List.length hsizes
  rw [length_region, List.length_append, List.length_append] at htotal
  have hl : (l.map Prod.snd).flatten = [] := List.eq_nil_of_length_eq_zero (by omega)
  have hr : (r.map Prod.snd).flatten = [] := List.eq_nil_of_length_eq_zero (by omega)
  rw [hsizes, hl, hr, List.nil_append, List.append_nil]

/-- Beside a buffer that takes the whole region all others are empty. -/
theorem length_of_filled (hp : p ∈ b.buffers) (hne : p.2 ≠ []) (h : b.Filled) (hb : b.WellBuilt) :
    p.2.length = b.attachedSize := by
  have hattached := attachedSize_of_filled h hb
  have hpos : 0 < p.2.length := List.length_pos_of_ne_nil hne
  have hle := length_le_attachedSize hp
  obtain ⟨q, hq, hlength⟩ := (filled_of_regionSize_pos (by omega)).1 h
  obtain ⟨l, r, hsplit⟩ := List.append_of_mem hp
  have htotal : b.attachedSize = (l.map fun p => p.2.length).sum +
      (p.2.length + (r.map fun p => p.2.length).sum) := by
    rw [attachedSize, hsplit, List.map_append, List.sum_append, List.map_cons, List.sum_cons]
  rw [hsplit, List.mem_append, List.mem_cons] at hq
  rcases hq with hq | rfl | hq
  · have hpart := List.le_sum_of_mem (List.mem_map.2 ⟨q, hq, rfl⟩ :
      q.2.length ∈ l.map fun p => p.2.length)
    omega
  · exact hlength.trans hattached.symm
  · have hpart := List.le_sum_of_mem (List.mem_map.2 ⟨q, hq, rfl⟩ :
      q.2.length ∈ r.map fun p => p.2.length)
    omega

theorem image_of_filled (h : b.Filled) :
    b.image = recordCommandMetadata (b.structSize + b.regionSize) 0 ++
      (b.sent.getD (List.replicate b.structSize 0) ++ b.region) := by
  rw [image, if_pos h]

theorem image_of_not_filled (h : ¬ b.Filled) :
    b.image = recordCommandMetadata (b.structSize + b.regionSize) 0 := by
  rw [image, if_neg h, List.append_nil]

theorem length_struct (hb : b.WellBuilt) :
    (b.sent.getD (List.replicate b.structSize 0)).length = b.structSize := by
  cases hsent : b.sent with
  | none => exact List.length_replicate
  | some struct => exact hb.sent struct hsent

theorem length_image_of_filled (h : b.Filled) (hb : b.WellBuilt) :
    b.first + b.image.length = b.last := by
  have hstart := hb.start
  rw [image_of_filled h, List.length_append, List.length_append, length_recordCommandMetadata,
    length_struct hb, length_region, attachedSize_of_filled h hb, first, last]
  omega

/-- A write for the last command, for which the file has the metadata only. -/
theorem Writes.image_of_fresh (h : b.Writes off data b') (hb : b.WellBuilt) (hfresh : b.Fresh)
    (h' : b'.Filled ∨ b'.Fresh) {before : Bytes} (hbefore : before.length = b.first) :
    writeAt (before ++ b.image) off data = before ++ b'.image := by
  have hstart := hb.start
  have hstruct := hb.struct
  have hlength : (before ++ b.image).length = b.draft.commandStartOffset := by
    rw [image_of_not_filled hfresh.not_filled, List.length_append, length_recordCommandMetadata,
      hbefore, first]
    omega
  cases h with
  | attach hsent hfits =>
    by_cases hdata : data = []
    · subst hdata
      have hfresh' : ¬ Filled { b with buffers := b.buffers ++
          [(b.draft.currentBufferOffset - b.draft.commandStartOffset, [])] } := by
        apply Fresh.not_filled
        refine ⟨hsent, ?_⟩
        rw [attachedSize, List.map_append, List.sum_append]
        exact hfresh.2
      rw [writeAt_nil, image_of_not_filled hfresh.not_filled, image_of_not_filled hfresh']
    · have hfilled := h'.resolve_right fun hfresh' => hdata <| by
        have hempty := hfresh'.2
        rw [attachedSize, List.map_append, List.sum_append] at hempty
        exact List.eq_nil_of_length_eq_zero (Nat.eq_zero_of_add_eq_zero_left hempty)
      -- the struct, which is not there yet, becomes a hole in the file
      have hhole : writeAt (before ++ b.image) b.draft.currentBufferOffset data =
          before ++ b.image ++ List.replicate b.structSize 0 ++ data := by
        rw [hb.offset, ← hlength]
        exact writeAt_past_end _ _ hdata
      rw [hhole, image_of_filled hfilled, image_of_not_filled hfresh.not_filled, region,
        List.map_append, List.flatten_append]
      have hnil := region_eq_nil hfresh.2
      rw [region] at hnil
      simp only [hsent, Option.getD_none, hnil, List.map_cons, List.map_nil, List.flatten_cons,
        List.flatten_nil, List.append_nil, List.nil_append, List.append_assoc]
  | send hsent hlength' =>
    have hfilled := h'.resolve_right fun hfresh' => by cases hfresh'.1
    rw [← hlength, writeAt_end, image_of_filled hfilled, image_of_not_filled hfresh.not_filled]
    have hnil : region { b with sent := some data } = [] := region_eq_nil hfresh.2
    rw [hnil, List.append_nil, List.append_assoc]
    rfl

/-- A write for a filled command is the struct in the place of zeros, or nothing. -/
theorem Writes.image_of_filled (h : b.Writes off data b') (hb : b.WellBuilt) (hfilled : b.Filled)
    {before : Bytes} (hbefore : before.length = b.first) (after : Bytes) :
    writeAt (before ++ b.image ++ after) off data = before ++ b'.image ++ after := by
  have hfilled' := h.filled hb hfilled
  have hattached := attachedSize_of_filled hfilled hb
  have hstart := hb.start
  rw [Built.image_of_filled hfilled, Built.image_of_filled hfilled', h.sent_eq_none]
  cases h with
  | attach hsent hfits =>
    have hdata : data = [] := List.eq_nil_of_length_eq_zero (by omega)
    subst hdata
    rw [writeAt_nil, region, region, List.map_append, List.flatten_append]
    simp only [hsent, List.map_cons, List.map_nil, List.flatten_cons, List.flatten_nil,
      List.append_nil]
  | send hsent hlength =>
    have hwrite := writeAt_append_middle
      (before ++ recordCommandMetadata (b.structSize + b.regionSize) 0)
      (List.replicate b.structSize 0) (b.region ++ after) data
      (by rw [hlength, List.length_replicate])
    have hoff : (before ++ recordCommandMetadata (b.structSize + b.regionSize) 0).length =
        b.draft.commandStartOffset := by
      rw [List.length_append, length_recordCommandMetadata, hbefore, first]
      omega
    rw [hoff] at hwrite
    simp only [List.append_assoc, Option.getD_none, Option.getD_some] at hwrite ⊢
    exact hwrite

end Built

end Ava.Channel
