import Ava.Channel.LogFile
import Ava.Lib.Transition
import Mathlib.Logic.Function.Basic

/-!
# The record log as a store

Transfers, flag updates and loads on one log channel, in any order. The run keeps beside the channel
what an observer knows: the offsets that the transfers returned, the flags last set at each offset,
and what the loads have returned since the last load at offset 0. `logStore_faithful_iff` says that
the log gives back exactly this if and only if no command is longer than what one `read` moves.
-/

set_option autoImplicit false

namespace Ava.Channel

open Ava.Lib

/-- An operation on the log. A negative offset of a load continues after the last one. -/
inductive LogOp where
  | transfer (cmd : Command)
  | updateFlags (offset : Nat) (flags : UInt32)
  | load (offset : Int)

/-- The channel and what is known from the operations so far. -/
structure LogStore where
  chan : LogChannel
  /-- The offset that each transfer returned, and its command. -/
  transfers : List (Nat × Command)
  /-- The flags of the latest update at an offset, 0 if there was none. -/
  flags : Nat → UInt32
  /-- What the load at offset 0 and the sequential loads after it have returned, unless there was
  a load at another offset. -/
  enumerated : Option (List (Nat × Bytes))

namespace LogStore

def new : LogStore := ⟨LogChannel.new, [], fun _ => 0, none⟩

/-- The record of a transfer. -/
def record (flags : Nat → UInt32) (t : Nat × Command) : LogRecord := ⟨flags t.1, t.2⟩

/-- What a load of the record of a transfer returns. -/
def loaded (s : LogStore) (t : Nat × Command) : Nat × Bytes := ((s.flags t.1).toNat, t.2.bytes)

end LogStore

/-- One operation. -/
def logStep (s : LogStore) : LogOp → Option LogStore
  | .transfer cmd =>
    (s.chan.transferCommand cmd.bytes (cmd.bytes.drop (commandSize cmd.bytes))).map fun r =>
      { s with chan := r.2, transfers := s.transfers ++ [(r.1, cmd)] }
  | .updateFlags offset flags =>
    (s.chan.updateFlags offset flags).map fun chan =>
      { s with chan := chan, flags := Function.update s.flags offset flags }
  | .load offset =>
    let r := s.chan.loadCommand offset
    some { s with
      chan := r.2
      enumerated :=
        if offset = 0 then some r.1.toList
        else if offset < 0 then s.enumerated.map (· ++ r.1.toList)
        else none }

/-- Flags are updated at offsets that a transfer has returned. -/
def LogOp.legal (s : LogStore) : LogOp → Prop
  | .updateFlags offset _ => offset ∈ s.transfers.map Prod.fst
  | _ => True

instance LogOp.decidableLegal (s : LogStore) (op : LogOp) : Decidable (op.legal s) :=
  match op with
  | .transfer _ => .isTrue trivial
  | .updateFlags offset _ => inferInstanceAs (Decidable (offset ∈ s.transfers.map Prod.fst))
  | .load _ => .isTrue trivial

/-- The log is a faithful store of what was transferred. -/
structure LogStore.Faithful (s : LogStore) : Prop where
  /-- A load at the offset of a transfer returns its command with the latest flags. -/
  load : ∀ t ∈ s.transfers, (s.chan.loadCommand t.1).1 = some (s.loaded t)
  /-- An update of the flags at an offset changes the four bytes of these flags only. -/
  update : ∀ offset flags chan, offset ∈ s.transfers.map Prod.fst →
    s.chan.updateFlags offset flags = some chan →
      chan.file.contents.length = s.chan.file.contents.length ∧
        ∀ i, i < offset + 8 ∨ offset + 12 ≤ i →
          chan.file.contents[i]? = s.chan.file.contents[i]?
  /-- A transfer leaves all that is in the file. -/
  transfer : ∀ (cmd : Command) r,
    s.chan.transferCommand cmd.bytes (cmd.bytes.drop (commandSize cmd.bytes)) = some r →
      s.chan.file.contents <+: r.2.file.contents
  /-- A load at offset 0 returns the first record, or `NULL` if there is none. -/
  first : (s.chan.loadCommand 0).1 = s.transfers[0]?.map s.loaded
  /-- An enumeration has met the first records in the order of the transfers, and a sequential load
  returns the next one, or `NULL` after the last. -/
  enumerate : ∀ l, s.enumerated = some l →
    l.length ≤ s.transfers.length ∧
      l.map Prod.snd = (s.transfers.take l.length).map (fun t => t.2.bytes) ∧
      ∀ offset < 0, (s.chan.loadCommand offset).1 = s.transfers[l.length]?.map s.loaded

/-- Each command can be moved by one `read`. -/
def LogStore.Fits (s : LogStore) : Prop :=
  ∀ t ∈ s.transfers, t.2.bytes.length ≤ File.maxTransfer

/-! ## Offsets -/

/-- The number of bytes of the records of transfers. -/
def logLength (ts : List (Nat × Command)) : Nat :=
  (ts.map fun t => metadataSize + t.2.bytes.length).sum

/-- The transfers have returned the offsets of records that follow each other from `start` on. -/
def OffsetsFrom : Nat → List (Nat × Command) → Prop
  | _, [] => True
  | start, t :: ts => t.1 = start ∧ OffsetsFrom (start + (metadataSize + t.2.bytes.length)) ts

theorem logLength_cons (t : Nat × Command) (ts : List (Nat × Command)) :
    logLength (t :: ts) = metadataSize + t.2.bytes.length + logLength ts := List.sum_cons

variable {flags : Nat → UInt32} {start : Nat} {ts : List (Nat × Command)} {t : Nat × Command}

theorem length_encode_record (flags : Nat → UInt32) (t : Nat × Command) :
    (LogStore.record flags t).encode.length = metadataSize + t.2.bytes.length := by
  rw [LogRecord.length_encode, Nat.add_comm]
  rfl

/-- The length of the file does not depend on the flags. -/
theorem length_encodeLog_records (flags : Nat → UInt32) (ts : List (Nat × Command)) :
    (encodeLog (ts.map (LogStore.record flags))).length = logLength ts := by
  induction ts with
  | nil => rfl
  | cons t ts ih =>
    rw [List.map_cons, encodeLog_cons, List.length_append, ih, length_encode_record,
      logLength_cons]

theorem offsetsFrom_append (h : OffsetsFrom start ts) (ht : t.1 = start + logLength ts) :
    OffsetsFrom start (ts ++ [t]) := by
  induction ts generalizing start with
  | nil => exact ⟨ht, trivial⟩
  | cons u ts ih =>
    obtain ⟨hu, hts⟩ := h
    refine ⟨hu, ih hts ?_⟩
    rw [ht, logLength_cons]
    omega

theorem le_of_offsetsFrom (h : OffsetsFrom start ts) (ht : t ∈ ts) : start ≤ t.1 := by
  induction ts generalizing start with
  | nil => cases ht
  | cons u ts ih =>
    obtain ⟨hu, hts⟩ := h
    rcases List.mem_cons.1 ht with rfl | ht
    · exact hu.ge
    · exact (Nat.le_add_right _ _).trans (ih hts ht)

/-- The record of a transfer is at the offset that it returned. -/
theorem recordAt_of_offsetsFrom (flags : Nat → UInt32) (h : OffsetsFrom start ts) (ht : t ∈ ts) :
    RecordAt (ts.map (LogStore.record flags)) (t.1 - start) (LogStore.record flags t) := by
  induction ts generalizing start with
  | nil => cases ht
  | cons u ts ih =>
    obtain ⟨hu, hts⟩ := h
    rw [List.map_cons, RecordAt.cons_iff, length_encode_record]
    rcases List.mem_cons.1 ht with rfl | ht
    · left
      exact ⟨by omega, rfl⟩
    · right
      have hle := le_of_offsetsFrom hts ht
      refine ⟨by omega, ?_⟩
      rw [Nat.sub_sub]
      exact ih hts ht

theorem setFlags_records (h : OffsetsFrom start ts) {offset : Nat}
    (hoffset : offset ∈ ts.map Prod.fst) (f : UInt32) :
    setFlags (offset - start) f (ts.map (LogStore.record flags)) =
      ts.map (LogStore.record (Function.update flags offset f)) := by
  induction ts generalizing start with
  | nil => cases hoffset
  | cons u ts ih =>
    obtain ⟨hu, hts⟩ := h
    rw [List.map_cons, List.map_cons, setFlags]
    by_cases hat : offset = u.1
    · rw [if_pos (by omega)]
      -- the other records start behind this one
      have hrest : ts.map (LogStore.record (Function.update flags offset f)) =
          ts.map (LogStore.record flags) := by
        apply List.map_congr_left
        intro v hv
        have hlt := le_of_offsetsFrom hts hv
        have hne : v.1 ≠ offset := by
          rw [metadataSize] at hlt
          omega
        rw [LogStore.record, LogStore.record, Function.update_of_ne hne]
      rw [hrest, LogStore.record, LogStore.record, hat, Function.update_self]
    · have hmem : offset ∈ ts.map Prod.fst := (List.mem_cons.1 hoffset).resolve_left hat
      obtain ⟨v, hv, rfl⟩ := List.mem_map.1 hmem
      have hle := le_of_offsetsFrom hts hv
      have hne : ¬ v.1 - start = 0 := by
        rw [metadataSize] at hle
        omega
      rw [if_neg hne, length_encode_record, Nat.sub_sub, ih hts hmem, LogStore.record,
        LogStore.record, Function.update_of_ne (Ne.symm hat)]

theorem recordAt_take {k : Nat} (ht : ts[k]? = some t) :
    RecordAt (ts.map (LogStore.record flags)) (logLength (ts.take k))
      (LogStore.record flags t) := by
  obtain ⟨hk, rfl⟩ := List.getElem?_eq_some_iff.1 ht
  refine ⟨(ts.take k).map (LogStore.record flags), (ts.drop (k + 1)).map (LogStore.record flags),
    ?_, (length_encodeLog_records flags _).symm⟩
  rw [← List.map_cons, ← List.map_append, List.cons_getElem_drop_succ, List.take_append_drop]

/-! ## The invariant -/

namespace LogStore

/-- The sequential loads have reached the record behind those in `l`. -/
def EnumeratedTo (s : LogStore) (l : List (Nat × Bytes)) : Prop :=
  l.length ≤ s.transfers.length ∧
    l.map Prod.snd = (s.transfers.take l.length).map (fun t => t.2.bytes) ∧
    s.chan.readOffset = logLength (s.transfers.take l.length)

/-- The file is tiled by the records of the transfers. -/
structure Tiled (s : LogStore) : Prop where
  whole : s.Fits
  contents : s.chan.log.Represents (s.transfers.map (record s.flags))
  offsets : OffsetsFrom 0 s.transfers
  fits : s.chan.file.contents.length < 2 ^ 63
  /-- No flags were set behind the end. -/
  unset : ∀ offset, s.chan.file.contents.length ≤ offset → s.flags offset = 0
  /-- A load from an empty file does not move the read offset. -/
  unread : s.transfers = [] → s.chan.readOffset = 0
  enumerated : ∀ l, s.enumerated = some l → s.EnumeratedTo l

variable {s s' : LogStore}

theorem tiled_new : new.Tiled where
  whole _ h := nomatch h
  contents := rfl
  offsets := trivial
  fits := by decide
  unset _ _ := rfl
  unread _ := rfl
  enumerated _ h := nomatch h

theorem Tiled.length_contents (h : s.Tiled) :
    s.chan.file.contents.length = logLength s.transfers := by
  rw [← length_encodeLog_records s.flags]
  exact congrArg List.length h.contents

theorem Tiled.load_at (h : s.Tiled) {off : Nat} (ht : t ∈ s.transfers)
    (hr : RecordAt (s.transfers.map (record s.flags)) off (record s.flags t)) :
    (s.chan.loadCommand off).1 = some (s.loaded t) ∧
      (s.chan.loadCommand off).2.readOffset =
        (off + (metadataSize + t.2.bytes.length) : Nat) := by
  obtain ⟨hload, hread⟩ := LogChannel.loadCommand_eq (h.whole t ht)
    (Log.loadCommand_at h.contents hr)
  refine ⟨hload, ?_⟩
  rw [hread, length_encode_record]
  -- the end of a record is inside the file
  obtain ⟨before, after, hsplit, rfl⟩ := hr
  have hlength : s.chan.file.contents.length = (encodeLog before).length +
      ((metadataSize + t.2.bytes.length) + (encodeLog after).length) := by
    have hcontents : s.chan.file.contents = _ := h.contents
    rw [hcontents, hsplit, encodeLog_append, encodeLog_cons, List.length_append,
      List.length_append, length_encode_record]
  have hfits := h.fits
  apply signed64_of_lt
  change (encodeLog before).length + (metadataSize + t.2.bytes.length) < 2 ^ 63
  omega

theorem take_succ_of_getElem? {k : Nat} (ht : ts[k]? = some t) :
    ts.take (k + 1) = ts.take k ++ [t] := by
  rw [List.take_add_one, ht, Option.toList_some]

/-- A load behind the first `k` records returns the next one, if there is one. -/
theorem Tiled.load_next (h : s.Tiled) {k : Nat} (hk : k ≤ s.transfers.length) :
    (s.chan.loadCommand (logLength (s.transfers.take k))).1 = s.transfers[k]?.map s.loaded ∧
      (s.chan.loadCommand (logLength (s.transfers.take k))).2.readOffset =
        if k = s.transfers.length then s.chan.readOffset
        else logLength (s.transfers.take (k + 1)) := by
  rcases Nat.eq_or_lt_of_le hk with rfl | hlt
  · rw [List.take_length, List.getElem?_eq_none (le_refl _), if_pos rfl]
    exact LogChannel.loadCommand_end h.length_contents
  · obtain ⟨t, ht⟩ : ∃ t, s.transfers[k]? = some t := ⟨_, List.getElem?_eq_getElem hlt⟩
    obtain ⟨hload, hread⟩ := h.load_at (List.mem_of_getElem? ht) (recordAt_take ht)
    rw [ht, if_neg hlt.ne, hread, take_succ_of_getElem? ht]
    refine ⟨hload, ?_⟩
    simp only [logLength, List.map_append, List.sum_append, List.map_cons, List.map_nil,
      List.sum_cons, List.sum_nil, Nat.add_zero]

/-- A load behind the records of an enumeration takes it one record further. -/
theorem Tiled.enumeratedTo_load (h : s.Tiled) {l : List (Nat × Bytes)}
    (enumerated : Option (List (Nat × Bytes)))
    (hk : l.length ≤ s.transfers.length)
    (hl : l.map Prod.snd = (s.transfers.take l.length).map (fun t => t.2.bytes))
    (hread : l.length = s.transfers.length → s.chan.readOffset = logLength s.transfers) :
    EnumeratedTo
      { s with
        chan := (s.chan.loadCommand (logLength (s.transfers.take l.length))).2,
        enumerated := enumerated }
      (l ++ (s.chan.loadCommand (logLength (s.transfers.take l.length))).1.toList) := by
  obtain ⟨hload, hoffset⟩ := h.load_next hk
  rcases Nat.eq_or_lt_of_le hk with heq | hlt
  · -- at the end nothing is appended and the read offset stays
    rw [if_pos heq, hread heq] at hoffset
    rw [hload, List.getElem?_eq_none heq.ge, Option.map_none, Option.toList_none, List.append_nil]
    refine ⟨hk, hl, ?_⟩
    rw [heq, List.take_length] at hoffset ⊢
    exact hoffset
  · obtain ⟨t, ht⟩ : ∃ t, s.transfers[l.length]? = some t := ⟨_, List.getElem?_eq_getElem hlt⟩
    rw [if_neg hlt.ne] at hoffset
    rw [hload, ht, Option.map_some, Option.toList_some]
    refine ⟨?_, ?_, ?_⟩
    · rw [List.length_append]
      exact hlt
    · rw [List.length_append, List.length_singleton, take_succ_of_getElem? ht, List.map_append,
        List.map_append, hl]
      rfl
    · rw [List.length_append, List.length_singleton]
      exact hoffset

/-! ## The steps keep it -/

theorem Tiled.transfer (h : s.Tiled) {cmd : Command} (hwhole : s'.Fits)
    (hstep : logStep s (.transfer cmd) = some s') : s'.Tiled := by
  obtain ⟨⟨pos, chan⟩, hchan, rfl⟩ := Option.map_eq_some_iff.1 hstep
  have hsize : cmd.bytes.length ≤ File.maxTransfer := hwhole (pos, cmd) (by simp)
  rw [← cmd.size_eq] at hsize
  obtain ⟨hpos, hcontents, hread, hfits⟩ := LogChannel.transferCommand_spec hsize hchan
  obtain ⟨hoffset, hrep⟩ := Log.transferCommand_refines h.contents cmd
  rw [hoffset, length_encodeLog_records] at hpos
  -- the flags at the offset of the new record were not set before
  have hflags : record s.flags (pos, cmd) = ⟨0, cmd⟩ := by
    rw [record, h.unset pos (by rw [h.length_contents, hpos])]
  have hgrow : logLength s.transfers ≤ logLength (s.transfers ++ [(pos, cmd)]) := by
    rw [logLength, logLength, List.map_append, List.sum_append]
    exact Nat.le_add_right _ _
  have htiles : Log.Represents chan.log ((s.transfers ++ [(pos, cmd)]).map (record s.flags)) := by
    rw [List.map_append, List.map_singleton, hflags]
    exact hcontents.trans hrep
  refine ⟨hwhole, htiles, ?_, hfits, ?_, ?_, ?_⟩
  · exact offsetsFrom_append h.offsets (hpos.trans (Nat.zero_add _).symm)
  · intro offset hle
    have hlength : chan.file.contents.length = logLength (s.transfers ++ [(pos, cmd)]) := by
      rw [← length_encodeLog_records s.flags]
      exact congrArg List.length htiles
    apply h.unset
    rw [h.length_contents]
    exact hgrow.trans (hlength.ge.trans hle)
  · intro hnil
    exact absurd hnil (by simp)
  · intro l hl
    obtain ⟨hk, hmap, hoff⟩ := h.enumerated l hl
    have htake : (s.transfers ++ [(pos, cmd)]).take l.length = s.transfers.take l.length :=
      List.take_append_of_le_length hk
    refine ⟨?_, ?_, ?_⟩
    · rw [List.length_append]
      exact hk.trans (Nat.le_add_right _ _)
    · rw [htake]
      exact hmap
    · rw [htake]
      exact hread.trans hoff

theorem Tiled.updateFlags (h : s.Tiled) {offset : Nat} {flags : UInt32}
    (hlegal : offset ∈ s.transfers.map Prod.fst)
    (hstep : logStep s (.updateFlags offset flags) = some s') : s'.Tiled := by
  obtain ⟨chan, hchan, rfl⟩ := Option.map_eq_some_iff.1 hstep
  obtain ⟨hcontents, hread⟩ := LogChannel.updateFlags_spec hchan
  obtain ⟨t, ht, rfl⟩ := List.mem_map.1 hlegal
  have hr := recordAt_of_offsetsFrom s.flags h.offsets ht
  have hrep := Log.updateFlags_refines h.contents hr flags
  rw [setFlags_records h.offsets hlegal] at hrep
  have htiles : Log.Represents chan.log
      (s.transfers.map (record (Function.update s.flags t.1 flags))) := hcontents.trans hrep
  have hlength : chan.file.contents.length = s.chan.file.contents.length := by
    rw [h.length_contents, ← length_encodeLog_records (Function.update s.flags t.1 flags)]
    exact congrArg List.length htiles
  refine ⟨h.whole, htiles, h.offsets, ?_, ?_, ?_, ?_⟩
  · rw [hlength]
    exact h.fits
  · intro offset hle
    rw [hlength] at hle
    have hlt : t.1 < s.chan.file.contents.length := by
      have hlt := hr.lt_length
      rwa [length_encodeLog_records, ← h.length_contents, Nat.sub_zero] at hlt
    have hne : offset ≠ t.1 := by omega
    exact (Function.update_of_ne hne _ _).trans (h.unset offset hle)
  · intro hnil
    exact hread.trans (h.unread hnil)
  · intro l hl
    obtain ⟨hk, hmap, hoff⟩ := h.enumerated l hl
    exact ⟨hk, hmap, hread.trans hoff⟩

theorem Tiled.load (h : s.Tiled) {offset : Int} (hstep : logStep s (.load offset) = some s') :
    s'.Tiled := by
  obtain rfl := Option.some.inj hstep
  have hcontents := LogChannel.contents_loadCommand s.chan offset
  refine ⟨h.whole, ?_, h.offsets, ?_, ?_, ?_, ?_⟩
  · exact hcontents.trans h.contents
  · rw [hcontents]
    exact h.fits
  · intro o hle
    rw [hcontents] at hle
    exact h.unset o hle
  · -- in an empty file there is no metadata to read at any offset
    intro hnil
    have hempty : s.chan.file.contents = [] := by
      have hlength := h.length_contents
      rw [hnil] at hlength
      exact List.eq_nil_of_length_eq_zero hlength
    rw [LogChannel.readOffset_loadCommand_of_empty hempty]
    exact h.unread hnil
  · intro l hl
    split_ifs at hl with hzero hneg
    · obtain rfl := Option.some.inj hl
      have hgo := h.enumeratedTo_load (l := []) (some (s.chan.loadCommand 0).1.toList)
        (Nat.zero_le _) rfl (fun hlength => by
          rw [List.eq_nil_of_length_eq_zero hlength.symm]
          exact h.unread (List.eq_nil_of_length_eq_zero hlength.symm))
      rw [hzero]
      exact hgo
    · obtain ⟨l₀, hl₀, rfl⟩ := Option.map_eq_some_iff.1 hl
      obtain ⟨hk, hmap, hread⟩ := h.enumerated l₀ hl₀
      rw [LogChannel.loadCommand_of_neg hneg hread]
      apply h.enumeratedTo_load _ hk hmap
      intro hlength
      rw [hread, hlength, List.take_length]

theorem Fits.of_step {op : LogOp} (hstep : logStep s op = some s') (h : s'.Fits) : s.Fits := by
  cases op with
  | transfer cmd =>
    obtain ⟨r, -, rfl⟩ := Option.map_eq_some_iff.1 hstep
    exact fun t ht => h t (List.mem_append_left _ ht)
  | updateFlags offset flags =>
    obtain ⟨chan, -, rfl⟩ := Option.map_eq_some_iff.1 hstep
    exact h
  | load offset =>
    obtain rfl := Option.some.inj hstep
    exact h

theorem Tiled.step (h : s.Tiled) {op : LogOp} (hlegal : op.legal s) (hwhole : s'.Fits)
    (hstep : logStep s op = some s') : s'.Tiled := by
  cases op with
  | transfer cmd => exact h.transfer hwhole hstep
  | updateFlags offset flags => exact h.updateFlags hlegal hstep
  | load offset => exact h.load hstep

/-- As long as the commands fit, the file is tiled. -/
theorem tiled_of_reaches (h : Reaches logStep (fun s op => op.legal s) new s) (hwhole : s.Fits) :
    s.Tiled := by
  refine h.invariant (I := fun s => s.Fits → s.Tiled) ?_ (fun _ => tiled_new) hwhole
  intro s op s' hI hlegal hstep hwhole
  exact (hI (hwhole.of_step hstep)).step hlegal hwhole hstep

/-! ## What an observer sees -/

theorem Tiled.update_frame (h : s.Tiled) {offset : Nat} {flags : UInt32} {chan : LogChannel}
    (hlegal : offset ∈ s.transfers.map Prod.fst)
    (hupdate : s.chan.updateFlags offset flags = some chan) :
    chan.file.contents.length = s.chan.file.contents.length ∧
      ∀ i, i < offset + 8 ∨ offset + 12 ≤ i →
        chan.file.contents[i]? = s.chan.file.contents[i]? := by
  obtain ⟨hcontents, -⟩ := LogChannel.updateFlags_spec hupdate
  obtain ⟨t, ht, rfl⟩ := List.mem_map.1 hlegal
  -- the metadata of the record is inside the file
  have hfits : t.1 + 8 + (leBytes 4 flags.toNat).length ≤ s.chan.file.contents.length := by
    obtain ⟨before, after, hsplit, hbefore⟩ := recordAt_of_offsetsFrom s.flags h.offsets ht
    have hfile : s.chan.file.contents = _ := h.contents
    rw [hfile, hsplit, encodeLog_append, encodeLog_cons, List.length_append, List.length_append,
      length_encode_record, length_leBytes, ← hbefore, metadataSize]
    omega
  have hwritten : chan.file.contents =
      writeAt s.chan.file.contents (t.1 + 8) (leBytes 4 flags.toNat) := hcontents
  rw [hwritten, length_writeAt hfits]
  refine ⟨rfl, fun i hi => ?_⟩
  rw [getElem?_writeAt hfits, if_neg]
  rw [length_leBytes]
  omega

theorem transfer_appends {chan : LogChannel} {cmd : Bytes} {r : Nat × LogChannel}
    (h : chan.transferCommand cmd (cmd.drop (commandSize cmd)) = some r) :
    chan.file.contents <+: r.2.file.contents := by
  obtain ⟨pos, chan'⟩ := r
  obtain ⟨-, hcontents, -, -⟩ := LogChannel.transferCommand_appends h
  rw [hcontents]
  simp only [List.append_assoc]
  exact List.prefix_append _ _

end LogStore

/-- The log is a faithful append-only store, after any transfers, flag updates and loads, if and only
if no transferred command is longer than what one `read` moves. -/
theorem logStore_faithful_iff {s : LogStore}
    (h : Reaches logStep (fun s op => op.legal s) LogStore.new s) :
    s.Faithful ↔ ∀ t ∈ s.transfers, t.2.bytes.length ≤ File.maxTransfer := by
  constructor
  · intro hfaithful t ht
    exact LogChannel.length_le_of_loadCommand (hfaithful.load t ht)
  · intro hwhole
    have hs := LogStore.tiled_of_reaches h hwhole
    refine ⟨?_, ?_, ?_, ?_, ?_⟩
    · intro t ht
      exact (hs.load_at ht (recordAt_of_offsetsFrom s.flags hs.offsets ht)).1
    · intro offset flags chan hlegal hupdate
      exact hs.update_frame hlegal hupdate
    · intro cmd r htransfer
      exact LogStore.transfer_appends htransfer
    · exact (hs.load_next (Nat.zero_le _)).1
    · intro l hl
      obtain ⟨hk, hmap, hread⟩ := hs.enumerated l hl
      refine ⟨hk, hmap, fun offset hneg => ?_⟩
      rw [LogChannel.loadCommand_of_neg hneg hread]
      exact (hs.load_next hk).1

set_option maxRecDepth 8000 in
/-- The case of two transfers with a flag update and an enumeration between them. -/
theorem logStore_faithful_between :
    ∃ s : LogStore,
      runGuarded logStep (fun s op => op.legal s) .new
        [.transfer (.ofIds 1 1), .updateFlags 0 7, .load 0, .transfer (.ofIds 1 2)] = some s ∧
      s.Faithful := by
  refine ⟨_, rfl, ?_⟩
  refine (logStore_faithful_iff (Reaches.of_runGuarded
    [.transfer (.ofIds 1 1), .updateFlags 0 7, .load 0, .transfer (.ofIds 1 2)] rfl)).2 ?_
  decide

/-! ## A command that is too long -/

theorem LogStore.not_faithful_of_load {s : LogStore} (ht : t ∈ s.transfers)
    (h : (s.chan.loadCommand t.1).1 = none) : ¬ s.Faithful := by
  intro hfaithful
  rw [hfaithful.load t ht] at h
  cases h

theorem length_largeRegion :
    (UInt64.ofNat (2 ^ 31)).toNat = (List.replicate (2 ^ 31) (0 : UInt8)).length := by
  rw [List.length_replicate]
  rfl

theorem largeCommand_lt :
    commandBaseSize + ([] : Bytes).length + (List.replicate (2 ^ 31) (0 : UInt8)).length <
      2 ^ 47 := by
  rw [List.length_replicate]
  decide

/-- A command with one buffer of 2 GiB. -/
def largeCommand : Command :=
  .ofBase (.new commandBaseSize (2 ^ 31) (List.replicate 64 0) length_zeroArea) []
    (List.replicate (2 ^ 31) 0) rfl length_largeRegion largeCommand_lt

theorem sizes_largeCommand : commandSize largeCommand.bytes = 136 ∧
    regionSize largeCommand.bytes = 2 ^ 31 :=
  ⟨CommandBase.commandSize_encode _ _, CommandBase.regionSize_encode _ _⟩

/-- One write takes the first part of the buffer, and the command cannot be loaded any more. -/
theorem largeCommand_not_loaded :
    ∃ s : LogStore, Reaches logStep (fun s op => op.legal s) .new s ∧
      s.transfers = [(0, largeCommand)] ∧ (s.chan.loadCommand 0).1 = none ∧ ¬ s.Faithful := by
  obtain ⟨hstruct, hregion⟩ := sizes_largeCommand
  obtain ⟨⟨pos, chan⟩, hchan⟩ := LogChannel.new.exists_transferCommand largeCommand.bytes
    (largeCommand.bytes.drop (commandSize largeCommand.bytes)) (by
      rw [hstruct, hregion]
      decide)
  obtain ⟨rfl, -⟩ := LogChannel.transferCommand_appends hchan
  have hnone : (chan.loadCommand (0 : Nat)).1 = none := by
    refine LogChannel.loadCommand_too_long ?_ ?_ hchan
    · rw [hstruct, hregion]
      decide
    · rw [hstruct, hregion]
      decide
  refine ⟨⟨chan, [(0, largeCommand)], fun _ => 0, none⟩, ?_, rfl, hnone,
    LogStore.not_faithful_of_load (List.mem_singleton_self _) hnone⟩
  refine Relation.ReflTransGen.single ⟨.transfer largeCommand, trivial, ?_⟩
  rw [logStep, LogStore.new, hchan]
  rfl

end Ava.Channel
