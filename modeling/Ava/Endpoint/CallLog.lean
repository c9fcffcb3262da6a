import Ava.Endpoint.Extract

/-!
# The record log as a list of calls

The generated handlers write the call and the return of a recorded call one after the other, and
expunging sets the flags of both. So the record log is, abstractly, a list of entries (a call, its
return, and one flags word), and an offset pair stands for the position of an entry. `entryPair` is
the pair of a position; the pairs of a log are ordered as the positions are.
-/

set_option autoImplicit false

namespace Ava.Endpoint

open Ava.Lib Ava.Channel

/-- A recorded call with its return. -/
structure Entry where
  flags : UInt32
  call : Command
  ret : Command

namespace Entry

/-- The two records of an entry. -/
def records (e : Entry) : List LogRecord := [⟨e.flags, e.call⟩, ⟨e.flags, e.ret⟩]

/-- Bytes of the call record and of the return record. -/
def lengths (e : Entry) : Nat × Nat :=
  (e.call.bytes.length + metadataSize, e.ret.bytes.length + metadataSize)

/-- The entry after it was expunged. -/
def expunge (e : Entry) : Entry := { e with flags := 1 }

@[simp] theorem lengths_expunge (e : Entry) : e.expunge.lengths = e.lengths := rfl

end Entry

/-- The records of a list of entries. -/
def entriesLog (es : List Entry) : List LogRecord := es.flatMap Entry.records

/-- Where the entry at position `i` starts, from the lengths of the entries. -/
def entryOffset (ls : List (Nat × Nat)) (i : Nat) : Nat :=
  ((ls.take i).map fun l => l.1 + l.2).sum

/-- The offset pair of the entry at position `i`. -/
def entryPair (ls : List (Nat × Nat)) (i : Nat) : OffsetPair :=
  ⟨entryOffset ls i, entryOffset ls i + (ls.getD i (0, 0)).1⟩

/-- The lengths of the entries. -/
abbrev entryLengths (es : List Entry) : List (Nat × Nat) := es.map Entry.lengths

/-! ## Positions and offsets -/

theorem length_encodeLog_records (e : Entry) :
    (encodeLog e.records).length = e.lengths.1 + e.lengths.2 := by
  rw [Entry.records, encodeLog_cons, encodeLog_singleton, List.length_append,
    LogRecord.length_encode, LogRecord.length_encode, Entry.lengths]

theorem entriesLog_append (es es' : List Entry) :
    entriesLog (es ++ es') = entriesLog es ++ entriesLog es' := List.flatMap_append

theorem length_encodeLog_entries (es : List Entry) :
    (encodeLog (entriesLog es)).length = ((entryLengths es).map fun l => l.1 + l.2).sum := by
  induction es with
  | nil => rfl
  | cons e es ih =>
    rw [entriesLog, List.flatMap_cons, encodeLog_append, List.length_append,
      length_encodeLog_records, entryLengths, List.map_cons, List.map_cons, List.sum_cons, ← ih]
    rfl

theorem entryOffset_eq (es : List Entry) (i : Nat) :
    entryOffset (entryLengths es) i = (encodeLog (entriesLog (es.take i))).length := by
  simp only [length_encodeLog_entries, entryOffset, entryLengths, List.map_take]

variable {e : Entry} {es : List Entry} {i : Nat}

theorem split_at (h : es[i]? = some e) : es = es.take i ++ e :: es.drop (i + 1) := by
  obtain ⟨hi, rfl⟩ := List.getElem?_eq_some_iff.1 h
  rw [← List.drop_eq_getElem_cons hi, List.take_append_drop]

theorem getD_lengths (h : es[i]? = some e) : (entryLengths es).getD i (0, 0) = e.lengths := by
  rw [List.getD_eq_getElem?_getD, List.getElem?_map, h]
  rfl

/-- The call and the return of an entry are at the offsets of its pair. -/
theorem recordAt_entryPair (h : es[i]? = some e) :
    RecordAt (entriesLog es) (entryPair (entryLengths es) i).a ⟨e.flags, e.call⟩ ∧
      RecordAt (entriesLog es) (entryPair (entryLengths es) i).b ⟨e.flags, e.ret⟩ := by
  have hsplit : entriesLog es =
      entriesLog (es.take i) ++ e.records ++ entriesLog (es.drop (i + 1)) := by
    conv_lhs => rw [split_at h]
    rw [entriesLog_append, List.append_assoc]
    rfl
  rw [entryPair, entryOffset_eq, getD_lengths h, hsplit]
  constructor
  · exact ⟨entriesLog (es.take i), ⟨e.flags, e.ret⟩ :: entriesLog (es.drop (i + 1)),
      by simp [Entry.records], rfl⟩
  · refine ⟨entriesLog (es.take i) ++ [⟨e.flags, e.call⟩], entriesLog (es.drop (i + 1)),
      by simp [Entry.records], ?_⟩
    rw [encodeLog_append, encodeLog_singleton, List.length_append, LogRecord.length_encode,
      Entry.lengths]

theorem lengths_pos (e : Entry) : 0 < e.lengths.1 + e.lengths.2 := by
  rw [Entry.lengths, metadataSize]
  omega

theorem entryOffset_succ (h : es[i]? = some e) :
    entryOffset (entryLengths es) (i + 1) =
      entryOffset (entryLengths es) i + (e.lengths.1 + e.lengths.2) := by
  have hl : (entryLengths es)[i]? = some e.lengths := by rw [List.getElem?_map, h]; rfl
  rw [entryOffset, entryOffset, List.take_add_one, hl]
  simp

variable {j : Nat}

theorem entryOffset_lt (hij : i < j) (hj : j ≤ es.length) :
    entryOffset (entryLengths es) i < entryOffset (entryLengths es) j := by
  induction j with
  | zero => omega
  | succ j ih =>
    have hpos := lengths_pos (es[j])
    rw [entryOffset_succ (List.getElem?_eq_getElem (by omega))]
    rcases Nat.lt_succ_iff_lt_or_eq.1 hij with hlt | rfl
    · have := ih hlt (by omega)
      omega
    · omega

theorem entryPair_lt_iff (hi : i < es.length) (hj : j < es.length) :
    (entryPair (entryLengths es) i).a < (entryPair (entryLengths es) j).a ↔ i < j := by
  constructor
  · intro h
    by_contra hji
    rcases Nat.lt_or_eq_of_le (Nat.not_lt.1 hji) with hlt | rfl
    · exact absurd (lt_trans h (entryOffset_lt hlt hi.le)) (lt_irrefl _)
    · exact absurd h (lt_irrefl _)
  · intro h
    exact entryOffset_lt h hj.le

theorem entryPair_inj (hi : i < es.length) (hj : j < es.length)
    (h : (entryPair (entryLengths es) i).a = (entryPair (entryLengths es) j).a) : i = j := by
  rcases Nat.lt_trichotomy i j with hlt | rfl | hlt
  · exact absurd h ((entryPair_lt_iff hi hj).2 hlt).ne
  · rfl
  · exact absurd h ((entryPair_lt_iff hj hi).2 hlt).ne'

/-- The pairs of old entries do not change when entries are added. -/
theorem entryPair_append {ls : List (Nat × Nat)} (ls' : List (Nat × Nat)) (hi : i < ls.length) :
    entryPair (ls ++ ls') i = entryPair ls i := by
  rw [entryPair, entryPair, entryOffset, entryOffset, List.take_append_of_le_length hi.le,
    List.getD_eq_getElem?_getD, List.getD_eq_getElem?_getD, List.getElem?_append_left hi]

/-! ## The operations on the log -/

/-- Writing a call and its return appends an entry, and the two offsets are its pair. -/
theorem transfer_entry {log : Log} (h : log.Represents (entriesLog es)) (call ret : Command) :
    let first := log.transferCommand call.bytes
    let second := first.2.transferCommand ret.bytes
    (⟨first.1, second.1⟩ : OffsetPair) =
        entryPair (entryLengths (es ++ [⟨0, call, ret⟩])) es.length ∧
      second.2.Represents (entriesLog (es ++ [⟨0, call, ret⟩])) := by
  intro first second
  obtain ⟨hoff₁, hrep₁⟩ := Log.transferCommand_refines h call
  obtain ⟨hoff₂, hrep₂⟩ := Log.transferCommand_refines hrep₁ ret
  have hnew : (es ++ [⟨0, call, ret⟩])[es.length]? = some ⟨0, call, ret⟩ := by simp
  constructor
  · rw [entryPair, entryOffset_eq, List.take_left, getD_lengths hnew]
    rw [encodeLog_append, encodeLog_singleton, List.length_append, LogRecord.length_encode]
      at hoff₂
    exact congrArg₂ OffsetPair.mk hoff₁ hoff₂
  · rw [entriesLog_append]
    rwa [List.append_assoc] at hrep₂

/-- Setting the flags at both offsets of an entry expunges it. -/
theorem updateFlags_entry {log : Log} (h : log.Represents (entriesLog es)) (he : es[i]? = some e) :
    ((log.updateFlags (entryPair (entryLengths es) i).a 1).updateFlags
        (entryPair (entryLengths es) i).b 1).Represents (entriesLog (es.set i e.expunge)) := by
  obtain ⟨hcall, -⟩ := recordAt_entryPair he
  have hi : i < es.length := (List.getElem?_eq_some_iff.1 he).1
  -- the records before, the two records of the entry, and the records after
  have hsplit : entriesLog es = entriesLog (es.take i) ++
      ⟨e.flags, e.call⟩ :: ⟨e.flags, e.ret⟩ :: entriesLog (es.drop (i + 1)) := by
    conv_lhs => rw [split_at he]
    rw [entriesLog_append]
    rfl
  have hset : entriesLog (es.set i e.expunge) = (entriesLog (es.take i) ++ [⟨1, e.call⟩]) ++
      ⟨1, e.ret⟩ :: entriesLog (es.drop (i + 1)) := by
    rw [List.set_eq_take_append_cons_drop, if_pos hi, entriesLog_append, List.append_assoc]
    rfl
  have ha : (entryPair (entryLengths es) i).a = (encodeLog (entriesLog (es.take i))).length := by
    rw [entryPair, entryOffset_eq]
  have hb : (entryPair (entryLengths es) i).b =
      (encodeLog (entriesLog (es.take i) ++ [⟨1, e.call⟩])).length := by
    rw [entryPair, entryOffset_eq, getD_lengths he, encodeLog_append, encodeLog_singleton,
      List.length_append, LogRecord.length_encode, Entry.lengths]
  have hfirst := Log.updateFlags_refines h hcall 1
  rw [hsplit, ha, setFlags_append, List.append_cons] at hfirst
  have hret' : RecordAt ((entriesLog (es.take i) ++ [⟨1, e.call⟩]) ++
      ⟨e.flags, e.ret⟩ :: entriesLog (es.drop (i + 1)))
      (entryPair (entryLengths es) i).b ⟨e.flags, e.ret⟩ := ⟨_, _, rfl, hb⟩
  have hsecond := Log.updateFlags_refines hfirst hret' 1
  rw [hb, setFlags_append] at hsecond
  rw [hset, ha, hb]
  exact hsecond

end Ava.Endpoint
