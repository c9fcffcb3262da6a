import Ava.Lib.Arena
import Ava.Lib.Transition
import Mathlib.Data.List.Basic

/-!
# Managed buffers

An endpoint allocates buffers that live as long as an object, to which they are coupled. A buffer is
an array of GLib with a reference count. It is in the list of its object, which is unreferenced with
the object, and, if it is cached for a call id, in a table of buffers, which unreferences what is
removed from it (`common/endpoint_lib.c`).

A new array has one reference. `ava_cached_alloc` puts it into both containers without taking a
second one. Apart from that, `ava_coupled_record_free` has two parameters, but is registered as a
function with one: it gets the record as its first argument, and whatever is in the register for its
second one. `managed_buffers_released_once` says which operations go wrong, and that no other does.
-/

set_option autoImplicit false

namespace Ava.Endpoint

open Ava.Lib

/-! ## The model -/

/-- `struct call_id_and_handle_t`. It is compared with `memcmp`, that is with its padding. -/
structure CallIdAndHandle where
  callId : Int32
  padding : UInt32
  handle : UInt64
deriving DecidableEq, Repr

/-- A `GArray` with elements of one byte. The last field only serves to state which buffers belong
to an object. -/
structure ManagedArray where
  len : UInt32
  coupledTo : UInt64
deriving DecidableEq, Repr

/-- `struct ava_coupled_record_t`. -/
structure CoupledRecord where
  keyList : List CallIdAndHandle
  bufferList : List Nat
deriving DecidableEq, Repr

/-- What a pointer leads to. -/
inductive Target where
  | theEndpoint
  | record (r : Nat)
  | other
deriving DecidableEq, Repr

/-- The part of `struct ava_endpoint` with the managed buffers, the arrays and the records. -/
structure ManagedBuffers where
  managedBufferMap : HashTable CallIdAndHandle Nat
  managedByCoupledMap : HashTable UInt64 Nat
  records : Arena CoupledRecord
  heap : RefHeap ManagedArray

namespace ManagedBuffers

def empty : ManagedBuffers := ⟨∅, ∅, .empty, .empty⟩

/-- `g_array_set_size`. The size is a `guint`. -/
def setSize (s : ManagedBuffers) (b : Nat) (size : UInt64) : Option ManagedBuffers :=
  (s.heap.get b).map fun c =>
    { s with heap := { s.heap with
        arena := s.heap.arena.set b ⟨c.refCount, { c.value with len := size.toUInt32 }⟩ } }

/-- `ava_get_coupled_record_unlocked`. -/
def getCoupledRecord (s : ManagedBuffers) (coupled : UInt64) : Nat × ManagedBuffers :=
  match s.managedByCoupledMap.lookup coupled with
  | some r => (r, s)
  | none =>
    (s.records.next,
      { s with
        records := s.records.new ⟨[], []⟩
        managedByCoupledMap := s.managedByCoupledMap.insert coupled s.records.next })

/-- Add a buffer to the record of an object, with the key if it has one. -/
def couple (s : ManagedBuffers) (coupled : UInt64) (key : Option CallIdAndHandle) (b : Nat) :
    Option ManagedBuffers :=
  let (r, s) := s.getCoupledRecord coupled
  (s.records.get r).map fun rec =>
    { s with records := s.records.set r ⟨rec.keyList ++ key.toList, rec.bufferList ++ [b]⟩ }

/-- `ava_cached_alloc`: the buffer, and the endpoint. -/
def cachedAlloc (s : ManagedBuffers) (callId : Int32) (padding : UInt32) (coupled size : UInt64) :
    Option (Nat × ManagedBuffers) :=
  let key := ⟨callId, padding, coupled⟩
  match s.managedBufferMap.lookup key with
  | some b => (s.setSize b size).map fun s => (b, s)
  | none =>
    let b := s.heap.arena.next
    let s := { s with
      heap := s.heap.new ⟨0, coupled⟩
      managedBufferMap := s.managedBufferMap.insert key b }
    ((s.couple coupled (some key) b).bind fun s => s.setSize b size).map fun s => (b, s)

/-- `ava_uncached_alloc`. The size is reserved; the length of the array stays 0. -/
def uncachedAlloc (s : ManagedBuffers) (coupled _size : UInt64) : Option (Nat × ManagedBuffers) :=
  let b := s.heap.arena.next
  ({ s with heap := s.heap.new ⟨0, coupled⟩ }.couple coupled none b).map fun s => (b, s)

/-- `ava_static_alloc`. -/
def staticAlloc (s : ManagedBuffers) (callId : Int32) (padding : UInt32) (size : UInt64) :
    Option (Nat × ManagedBuffers) :=
  s.cachedAlloc callId padding 0 size

/-- `g_array_unref`. -/
def arrayUnref (s : ManagedBuffers) (b : Nat) : Option ManagedBuffers :=
  (s.heap.unref b).map fun heap => { s with heap := heap }

/-- `nw_hash_table_remove_flipped` with the `managed_buffer_map` of what is taken for the endpoint.
The destroy functions of the table free the key and unreference the buffer. -/
def removeFlipped (endpoint : Target) (s : ManagedBuffers) (key : CallIdAndHandle) :
    Option ManagedBuffers :=
  match endpoint with
  | .theEndpoint =>
    match s.managedBufferMap.lookup key with
    | none => some s
    | some b => { s with managedBufferMap := s.managedBufferMap.erase key }.arrayUnref b
  | _ => none

/-- `ava_coupled_record_free`. -/
def coupledRecordFree (s : ManagedBuffers) (endpoint r : Target) : Option ManagedBuffers :=
  match r with
  | .record r =>
    (s.records.get r).bind fun rec =>
      (rec.keyList.foldlM (removeFlipped endpoint) s).bind fun s =>
        (s.heap.unrefAll rec.bufferList).map fun heap =>
          { s with heap := heap, records := s.records.free r }
  | _ => none

/-- `ava_coupled_free`. The table calls its destroy function with the record and nothing else;
`unpassed` is what the second parameter leads to. -/
def coupledFree (s : ManagedBuffers) (coupled : UInt64) (unpassed : Target) :
    Option ManagedBuffers :=
  match s.managedByCoupledMap.lookup coupled with
  | none => some s
  | some r =>
    { s with managedByCoupledMap := s.managedByCoupledMap.erase coupled }.coupledRecordFree
      (.record r) unpassed

inductive Op where
  | cachedAlloc (callId : Int32) (padding : UInt32) (coupled size : UInt64)
  | uncachedAlloc (coupled size : UInt64)
  | staticAlloc (callId : Int32) (padding : UInt32) (size : UInt64)
  | coupledFree (coupled : UInt64) (unpassed : Target)
deriving DecidableEq, Repr

/-- The endpoint after an operation, unless it is undefined. -/
def step (s : ManagedBuffers) : Op → Option ManagedBuffers
  | .cachedAlloc callId padding coupled size =>
    (s.cachedAlloc callId padding coupled size).map Prod.snd
  | .uncachedAlloc coupled size => (s.uncachedAlloc coupled size).map Prod.snd
  | .staticAlloc callId padding size => (s.staticAlloc callId padding size).map Prod.snd
  | .coupledFree coupled unpassed => s.coupledFree coupled unpassed

/-! ## Released once -/

/-- The buffers in the list of a record. -/
def listOf (s : ManagedBuffers) (r : Nat) : List Nat :=
  ((s.records.get r).map CoupledRecord.bufferList).getD []

/-- The references that the containers will drop: those of the table, and those of the lists. -/
def pointers (s : ManagedBuffers) : List Nat :=
  s.managedBufferMap.entries.map Sigma.snd ++
    s.managedByCoupledMap.entries.flatMap fun e => s.listOf e.2

/-- The reference count of a buffer, 0 if it has been released. -/
def refCountOf (s : ManagedBuffers) (b : Nat) : Nat := ((s.heap.get b).map Counted.refCount).getD 0

/-- Every reference is counted. -/
def Balanced (s : ManagedBuffers) : Prop := ∀ b, s.refCountOf b = s.pointers.count b

/-- From `s` to `t` the buffers of an object are released once each, and no others. -/
structure Releases (s : ManagedBuffers) (coupled : UInt64) (t : ManagedBuffers) : Prop where
  once : ∃ ids : List Nat, t.heap.released = s.heap.released ++ ids ∧ ids.Nodup ∧
    ∀ b, b ∈ ids ↔ ∃ c, s.heap.get b = some c ∧ c.value.coupledTo = coupled
  others : ∀ b c, s.heap.get b = some c → c.value.coupledTo ≠ coupled → t.heap.get b = some c

/-- The operation is defined and leaves every reference counted; if it is a free it releases the
buffers of the object. -/
def Handles (s : ManagedBuffers) (op : Op) : Prop :=
  ∃ t, s.step op = some t ∧ t.Balanced ∧
    ∀ coupled unpassed, op = .coupledFree coupled unpassed → s.Releases coupled t

/-- The condition on an operation: it does not cache a buffer; and if it frees the buffers of an
object that has a record, the second argument, which is not passed, happens to be that record. -/
def Meets (s : ManagedBuffers) : Op → Prop
  | .cachedAlloc _ _ _ _ => False
  | .uncachedAlloc _ _ => True
  | .staticAlloc _ _ _ => False
  | .coupledFree coupled unpassed =>
    ∀ r, s.managedByCoupledMap.lookup coupled = some r → unpassed = .record r

/-- No buffer is cached, and every buffer is in the list of its object and nowhere else. -/
structure Plain (s : ManagedBuffers) : Prop where
  uncached : s.managedBufferMap = ∅
  record : ∀ c r, s.managedByCoupledMap.lookup c = some r →
    ∃ l, s.records.get r = some ⟨[], l⟩ ∧ l ≠ [] ∧ l.Nodup ∧
      ∀ b, b ∈ l ↔ ∃ len, s.heap.get b = some ⟨1, len, c⟩
  inMap : ∀ r rec, s.records.get r = some rec → ∃ c, s.managedByCoupledMap.lookup c = some r
  buffer : ∀ b c, s.heap.get b = some c →
    c.refCount = 1 ∧ ∃ r, s.managedByCoupledMap.lookup c.value.coupledTo = some r

section Plain

variable {s t : ManagedBuffers} {c d : UInt64} {b r : Nat} {key : Option CallIdAndHandle}

theorem plain_empty : empty.Plain := by
  refine ⟨rfl, fun c r h => ?_, fun r rec h => ?_, fun b c h => ?_⟩
  · cases (AList.lookup_empty c).symm.trans h
  · cases (Arena.get_empty r).symm.trans h
  · cases (Arena.get_empty b).symm.trans h

theorem Plain.record_injective (h : s.Plain) (hc : s.managedByCoupledMap.lookup c = some r)
    (hd : s.managedByCoupledMap.lookup d = some r) : c = d := by
  obtain ⟨l, hl, hne, -, hmem⟩ := h.record c r hc
  obtain ⟨l', hl', -, -, hmem'⟩ := h.record d r hd
  cases hl.symm.trans hl'
  obtain ⟨b, hb⟩ := List.exists_mem_of_ne_nil l hne
  obtain ⟨len, hlen⟩ := (hmem b).1 hb
  obtain ⟨len', hlen'⟩ := (hmem' b).1 hb
  cases hlen.symm.trans hlen'
  rfl

/-- The lists have the buffers that are not released. -/
theorem Plain.mem_pointers (h : s.Plain) : b ∈ s.pointers ↔ ∃ c, s.heap.get b = some c := by
  rw [pointers, h.uncached, List.mem_append, List.mem_flatMap]
  constructor
  · rintro (hnil | ⟨e, he, hb⟩)
    · cases hnil
    · obtain ⟨l, hl, -, -, hmem⟩ := h.record e.1 e.2 (AList.mem_lookup_iff.2 he)
      rw [listOf, hl] at hb
      obtain ⟨len, hlen⟩ := (hmem b).1 hb
      exact ⟨_, hlen⟩
  · rintro ⟨c, hc⟩
    obtain ⟨hcount, r, hr⟩ := h.buffer b c hc
    obtain ⟨l, hl, -, -, hmem⟩ := h.record _ r hr
    refine .inr ⟨⟨c.value.coupledTo, r⟩, AList.mem_lookup_iff.1 hr, ?_⟩
    rw [listOf, hl]
    refine (hmem b).2 ⟨c.value.len, ?_⟩
    rw [hc, ← hcount]

theorem Plain.nodup_pointers (h : s.Plain) : s.pointers.Nodup := by
  have hentry : ∀ e ∈ s.managedByCoupledMap.entries, ∃ l, s.listOf e.2 = l ∧ l.Nodup ∧
      ∀ b, b ∈ l ↔ ∃ len, s.heap.get b = some ⟨1, len, e.1⟩ := by
    intro e he
    obtain ⟨l, hl, -, hnodup, hmem⟩ := h.record e.1 e.2 (AList.mem_lookup_iff.2 he)
    exact ⟨l, by rw [listOf, hl]; rfl, hnodup, hmem⟩
  rw [pointers, h.uncached]
  refine List.nodup_flatMap.2 ⟨fun e he => ?_, ?_⟩
  · obtain ⟨l, hl, hnodup, -⟩ := hentry e he
    rw [hl]
    exact hnodup
  · -- a buffer in the lists of two objects would be coupled to both
    refine (List.nodupKeys_iff_pairwise.1 s.managedByCoupledMap.nodupKeys).imp_of_mem ?_
    intro e e' he he' hne b (hb : b ∈ s.listOf e.2) (hb' : b ∈ s.listOf e'.2)
    obtain ⟨l, hl, -, hmem⟩ := hentry e he
    obtain ⟨l', hl', -, hmem'⟩ := hentry e' he'
    rw [hl, hmem] at hb
    rw [hl', hmem'] at hb'
    obtain ⟨len, hlen⟩ := hb
    obtain ⟨len', hlen'⟩ := hb'
    injection hlen.symm.trans hlen' with heq
    injection heq with _ hvalue
    injection hvalue with _ hcoupled
    exact hne hcoupled

theorem Plain.balanced (h : s.Plain) : s.Balanced := by
  intro b
  rw [refCountOf]
  cases hget : s.heap.get b with
  | none =>
    have hnot : b ∉ s.pointers := by
      rw [h.mem_pointers, hget]
      rintro ⟨c, hc⟩
      cases hc
    rw [List.count_eq_zero_of_not_mem hnot]
    rfl
  | some c =>
    rw [List.count_eq_one_of_mem h.nodup_pointers (h.mem_pointers.2 ⟨c, hget⟩)]
    exact (h.buffer b c hget).1

end Plain

/-! ## Allocations -/

/-- What adding the buffer `b` to the record `r` of an object does. -/
structure Couples (s : ManagedBuffers) (c : UInt64) (key : Option CallIdAndHandle) (b r : Nat)
    (rec : CoupledRecord) (t : ManagedBuffers) : Prop where
  heap : t.heap = s.heap
  table : t.managedBufferMap = s.managedBufferMap
  before : (s.managedByCoupledMap.lookup c = some r ∧ s.records.get r = some rec) ∨
    (s.managedByCoupledMap.lookup c = none ∧ s.records.get r = none ∧ rec = ⟨[], []⟩)
  lookup : ∀ d, t.managedByCoupledMap.lookup d =
    if d = c then some r else s.managedByCoupledMap.lookup d
  get : ∀ q, t.records.get q =
    if q = r then some ⟨rec.keyList ++ key.toList, rec.bufferList ++ [b]⟩ else s.records.get q

section Allocations

variable {s t : ManagedBuffers} {c size : UInt64} {b r : Nat} {key : Option CallIdAndHandle}
  {rec : CoupledRecord} {callId : Int32} {padding : UInt32}

theorem couples_of_eq_some (h : s.couple c key b = some t) :
    ∃ r rec, s.Couples c key b r rec t := by
  rw [couple, getCoupledRecord] at h
  cases hc : s.managedByCoupledMap.lookup c with
  | some r =>
    simp only [hc] at h
    obtain ⟨rec, hrec, rfl⟩ := Option.map_eq_some_iff.1 h
    refine ⟨r, rec, rfl, rfl, .inl ⟨hc, hrec⟩, fun d => ?_, Arena.get_set hrec _⟩
    split_ifs with hd
    · rw [hd, hc]
    · rfl
  | none =>
    simp only [hc] at h
    obtain ⟨rec, hrec, rfl⟩ := Option.map_eq_some_iff.1 h
    have hget := hrec
    rw [Arena.get_new, if_pos rfl] at hget
    cases hget
    refine ⟨s.records.next, ⟨[], []⟩, rfl, rfl, .inr ⟨hc, s.records.get_next, rfl⟩,
      fun d => HashTable.lookup_insert_eq _ _ _ _, fun q => ?_⟩
    rw [Arena.get_set hrec, Arena.get_new]
    split_ifs
    · rfl
    · rfl

theorem couple_isSome (h : ∀ r, s.managedByCoupledMap.lookup c = some r →
    ∃ rec, s.records.get r = some rec) : ∃ t, s.couple c key b = some t := by
  rw [couple, getCoupledRecord]
  cases hc : s.managedByCoupledMap.lookup c with
  | some r =>
    obtain ⟨rec, hrec⟩ := h r hc
    exact ⟨_, Option.map_eq_some_iff.2 ⟨rec, hrec, rfl⟩⟩
  | none => exact ⟨_, Option.map_eq_some_iff.2 ⟨⟨[], []⟩, by simp [Arena.get_new], rfl⟩⟩

theorem Couples.mem_lists (h : s.Couples c key b r rec t) :
    b ∈ t.managedByCoupledMap.entries.flatMap fun e => t.listOf e.2 := by
  have hlookup : t.managedByCoupledMap.lookup c = some r := by rw [h.lookup, if_pos rfl]
  refine List.mem_flatMap.2 ⟨⟨c, r⟩, AList.mem_lookup_iff.1 hlookup, ?_⟩
  rw [listOf, h.get, if_pos rfl]
  exact List.mem_append_right _ List.mem_cons_self

/-- The list of the object before the allocation. -/
theorem Plain.list_before (h : s.Plain)
    (hbefore : (s.managedByCoupledMap.lookup c = some r ∧ s.records.get r = some rec) ∨
      (s.managedByCoupledMap.lookup c = none ∧ s.records.get r = none ∧ rec = ⟨[], []⟩)) :
    rec.keyList = [] ∧ rec.bufferList.Nodup ∧
      ∀ b, b ∈ rec.bufferList ↔ ∃ len, s.heap.get b = some ⟨1, len, c⟩ := by
  rcases hbefore with ⟨hc, hr⟩ | ⟨hc, -, rfl⟩
  · obtain ⟨l, hl, -, hnodup, hmem⟩ := h.record c r hc
    cases hl.symm.trans hr
    exact ⟨rfl, hnodup, hmem⟩
  · refine ⟨rfl, List.nodup_nil, fun b => iff_of_false List.not_mem_nil ?_⟩
    rintro ⟨len, hlen⟩
    obtain ⟨-, q, hq⟩ := h.buffer b _ hlen
    cases hc.symm.trans hq

/-- Only the object of the allocation gets the new buffer. -/
theorem get_new_iff (d : UInt64) :
    (∃ len, (s.heap.new ⟨0, c⟩).get b = some ⟨1, len, d⟩) ↔
      (∃ len, s.heap.get b = some ⟨1, len, d⟩) ∨ (d = c ∧ b = s.heap.arena.next) := by
  rw [RefHeap.get_new]
  split_ifs with hb
  · have hfree : s.heap.get b = none := by
      rw [hb]
      exact s.heap.arena.get_next
    rw [hfree]
    constructor
    · rintro ⟨len, hlen⟩
      cases hlen
      exact .inr ⟨rfl, hb⟩
    · rintro (⟨len, hlen⟩ | ⟨rfl, -⟩)
      · cases hlen
      · exact ⟨0, rfl⟩
  · exact (or_iff_left fun h => hb h.2).symm

/-- An allocation without a cache adds the new buffer to the list of its object. -/
theorem Plain.couples (h : s.Plain)
    (hcouples : ({ s with heap := s.heap.new ⟨0, c⟩ } : ManagedBuffers).Couples c none
      s.heap.arena.next r rec t) : t.Plain := by
  obtain ⟨hheap, htable, hbefore, hlookup, hget⟩ := hcouples
  obtain ⟨hkeys, hnodup, hmem⟩ := h.list_before hbefore
  have hrecord : t.records.get r = some ⟨[], rec.bufferList ++ [s.heap.arena.next]⟩ := by
    rw [hget, if_pos rfl, hkeys]
    rfl
  refine ⟨htable.trans h.uncached, fun d q hq => ?_, fun q rec' hq => ?_, fun b c' hb => ?_⟩
  · rw [hlookup] at hq
    split_ifs at hq with hd
    · cases hq
      refine ⟨_, hrecord, List.append_ne_nil_of_right_ne_nil _ (List.cons_ne_nil _ _), ?_, ?_⟩
      · refine List.nodup_append'.2 ⟨hnodup, List.nodup_singleton _, ?_⟩
        have hfree : s.heap.get s.heap.arena.next = none := s.heap.arena.get_next
        rw [List.disjoint_singleton, hmem, hfree]
        rintro ⟨len, hlen⟩
        cases hlen
      · intro b
        rw [List.mem_append, List.mem_singleton, hmem, hheap, get_new_iff, hd]
        exact or_congr_right (and_iff_right rfl).symm
    · -- the records of other objects are as before
      obtain ⟨l, hl, hne, hnodup', hmem'⟩ := h.record d q hq
      have hqr : q ≠ r := by
        rintro rfl
        rcases hbefore with ⟨hc, -⟩ | ⟨-, hnone, -⟩
        · exact hd (h.record_injective hq hc)
        · cases hl.symm.trans hnone
      refine ⟨l, ?_, hne, hnodup', fun b => ?_⟩
      · rw [hget, if_neg hqr]
        exact hl
      · rw [hmem', hheap, get_new_iff]
        exact (or_iff_left fun h => hd h.1).symm
  · by_cases hqr : q = r
    · exact ⟨c, by rw [hlookup, if_pos rfl, hqr]⟩
    · rw [hget, if_neg hqr] at hq
      obtain ⟨d, hd⟩ := h.inMap q rec' hq
      refine ⟨d, ?_⟩
      rw [hlookup, if_neg]
      · exact hd
      · rintro rfl
        rcases hbefore with ⟨hc, -⟩ | ⟨hc, -⟩
        · exact hqr (Option.some.inj (hd.symm.trans hc))
        · cases hd.symm.trans hc
  · rw [hheap, RefHeap.get_new] at hb
    split_ifs at hb with hnext
    · cases hb
      exact ⟨rfl, r, by rw [hlookup, if_pos rfl]⟩
    · obtain ⟨hcount, q, hq⟩ := h.buffer b c' hb
      refine ⟨hcount, ?_⟩
      rw [hlookup]
      split_ifs
      · exact ⟨r, rfl⟩
      · exact ⟨q, hq⟩

theorem Plain.uncachedAlloc (h : s.Plain) (c size : UInt64) :
    ∃ t, s.step (.uncachedAlloc c size) = some t ∧ t.Plain := by
  obtain ⟨t, ht⟩ : ∃ t, ({ s with heap := s.heap.new ⟨0, c⟩ } : ManagedBuffers).couple c none
      s.heap.arena.next = some t := by
    refine couple_isSome fun r hr => ?_
    obtain ⟨l, hl, -⟩ := h.record c r hr
    exact ⟨_, hl⟩
  obtain ⟨r, rec, hcouples⟩ := couples_of_eq_some ht
  refine ⟨t, ?_, h.couples hcouples⟩
  rw [step, ManagedBuffers.uncachedAlloc, ht]
  rfl

/-- A new cached buffer is in two containers, and has one reference. -/
theorem Plain.not_balanced_cachedAlloc (h : s.Plain) {result : Nat × ManagedBuffers}
    (hrun : s.cachedAlloc callId padding c size = some result) : ¬ result.2.Balanced := by
  have hmiss : s.managedBufferMap.lookup ⟨callId, padding, c⟩ = none := by
    rw [h.uncached]
    exact AList.lookup_empty _
  rw [cachedAlloc, hmiss] at hrun
  obtain ⟨u, hu, rfl⟩ := Option.map_eq_some_iff.1 hrun
  obtain ⟨t, ht, hsize⟩ := Option.bind_eq_some_iff.1 hu
  obtain ⟨r, rec, hcouples⟩ := couples_of_eq_some ht
  obtain ⟨cell, hcell, rfl⟩ := Option.map_eq_some_iff.1 hsize
  have hlists := hcouples.mem_lists
  have hone : cell.refCount = 1 := by
    rw [hcouples.heap] at hcell
    have hget := RefHeap.get_new s.heap ⟨0, c⟩ s.heap.arena.next
    rw [if_pos rfl] at hget
    cases hget.symm.trans hcell
    rfl
  intro hbalanced
  have hb := hbalanced s.heap.arena.next
  have hcount : t.pointers.count s.heap.arena.next = 1 := by
    refine Eq.trans (Eq.symm hb) ?_
    rw [refCountOf, RefHeap.get]
    dsimp only
    rw [Arena.get_set hcell, if_pos rfl]
    exact hone
  rw [pointers, List.count_append] at hcount
  have htable : 0 < (t.managedBufferMap.entries.map Sigma.snd).count s.heap.arena.next := by
    rw [List.count_pos_iff, hcouples.table]
    refine List.mem_map.2 ⟨⟨⟨callId, padding, c⟩, s.heap.arena.next⟩, ?_, rfl⟩
    exact AList.mem_lookup_iff.1 (AList.lookup_insert _)
  have hlist := List.count_pos_iff.2 hlists
  omega

end Allocations

/-! ## Frees -/

section Frees

variable {s t : ManagedBuffers} {c d : UInt64} {q r : Nat} {l : List Nat} {op : Op}

/-- The record of an object is freed with the buffers in its list, whatever is taken for the
endpoint. -/
theorem Plain.coupledRecordFree (h : s.Plain) (hd : s.managedByCoupledMap.lookup d = some q)
    (hl : s.records.get q = some ⟨[], l⟩) (c : UInt64) (endpoint : Target) :
    ∃ heap : RefHeap ManagedArray,
      ({ s with managedByCoupledMap := s.managedByCoupledMap.erase c } :
        ManagedBuffers).coupledRecordFree endpoint (.record q) =
          some { s with
            managedByCoupledMap := s.managedByCoupledMap.erase c
            records := s.records.free q
            heap := heap } ∧
      heap.released = s.heap.released ++ l ∧
      ∀ b, heap.get b = if b ∈ l then none else s.heap.get b := by
  obtain ⟨l', hl', -, hnodup, hmem⟩ := h.record d q hd
  cases hl.symm.trans hl'
  obtain ⟨heap, hrun, hreleased, hget⟩ := s.heap.unrefAll_single hnodup fun b hb => by
    obtain ⟨len, hlen⟩ := (hmem b).1 hb
    exact ⟨_, hlen⟩
  refine ⟨heap, ?_, hreleased, hget⟩
  rw [ManagedBuffers.coupledRecordFree]
  dsimp only
  rw [hl, Option.bind_some, List.foldlM_nil]
  dsimp only [pure, Option.bind_some]
  rw [hrun]
  rfl

/-- The endpoint after the record of an object and its buffers have been freed. -/
theorem Plain.freed (h : s.Plain) (hc : s.managedByCoupledMap.lookup c = some r)
    (hl : s.records.get r = some ⟨[], l⟩) {heap : RefHeap ManagedArray}
    (hget : ∀ b, heap.get b = if b ∈ l then none else s.heap.get b) :
    ({ s with
      managedByCoupledMap := s.managedByCoupledMap.erase c
      records := s.records.free r
      heap := heap } : ManagedBuffers).Plain := by
  obtain ⟨l', hl', -, -, hmem⟩ := h.record c r hc
  cases hl.symm.trans hl'
  have hlookup := HashTable.lookup_erase_eq s.managedByCoupledMap c
  have hrecords := s.records.get_free r
  refine ⟨h.uncached, fun d q hd => ?_, fun q rec hq => ?_, fun b cell hb => ?_⟩
  · dsimp only at hd ⊢
    rw [hlookup] at hd
    split_ifs at hd with hdc
    obtain ⟨m, hm, hne, hnodup, hmem'⟩ := h.record d q hd
    refine ⟨m, ?_, hne, hnodup, fun b => ?_⟩
    · rw [hrecords, if_neg]
      · exact hm
      · rintro rfl
        exact hdc (h.record_injective hd hc)
    · rw [hmem', hget]
      split_ifs with hb
      · -- the buffers that are gone were not those of the other object
        refine iff_of_false ?_ (fun ⟨len, hlen⟩ => by cases hlen)
        rintro ⟨len, hlen⟩
        obtain ⟨len', hlen'⟩ := (hmem b).1 hb
        cases hlen.symm.trans hlen'
        exact hdc rfl
      · exact Iff.rfl
  · dsimp only at hq ⊢
    rw [hrecords] at hq
    split_ifs at hq with hqr
    obtain ⟨d, hd⟩ := h.inMap q rec hq
    refine ⟨d, ?_⟩
    rw [hlookup, if_neg]
    · exact hd
    · rintro rfl
      exact hqr (Option.some.inj (hd.symm.trans hc))
  · dsimp only at hb ⊢
    rw [hget] at hb
    split_ifs at hb with hbl
    obtain ⟨hcount, q, hq⟩ := h.buffer b cell hb
    refine ⟨hcount, q, ?_⟩
    rw [hlookup, if_neg]
    · exact hq
    · rintro heq
      apply hbl
      rw [hmem, hb, ← hcount, ← heq]
      exact ⟨cell.value.len, rfl⟩

theorem Plain.coupledTo_iff (h : s.Plain) {b : Nat} :
    (∃ cell, s.heap.get b = some cell ∧ cell.value.coupledTo = c) ↔
      ∃ len, s.heap.get b = some ⟨1, len, c⟩ := by
  constructor
  · rintro ⟨cell, hcell, rfl⟩
    refine ⟨cell.value.len, ?_⟩
    rw [hcell, ← (h.buffer b cell hcell).1]
  · rintro ⟨len, hlen⟩
    exact ⟨_, hlen, rfl⟩

/-- An object without a record has no buffers. -/
theorem Plain.releases_self (h : s.Plain) (hc : s.managedByCoupledMap.lookup c = none) :
    s.Releases c s := by
  refine ⟨⟨[], (List.append_nil _).symm, List.nodup_nil, fun b => ?_⟩, fun b cell hb _ => hb⟩
  refine iff_of_false List.not_mem_nil ?_
  rintro ⟨cell, hcell, rfl⟩
  obtain ⟨-, r, hr⟩ := h.buffer b cell hcell
  cases hc.symm.trans hr

theorem Plain.releases_freed (h : s.Plain) (hc : s.managedByCoupledMap.lookup c = some r)
    (hl : s.records.get r = some ⟨[], l⟩) (hreleased : t.heap.released = s.heap.released ++ l)
    (hget : ∀ b, t.heap.get b = if b ∈ l then none else s.heap.get b) : s.Releases c t := by
  obtain ⟨l', hl', -, hnodup, hmem⟩ := h.record c r hc
  cases hl.symm.trans hl'
  refine ⟨⟨l, hreleased, hnodup, fun b => ?_⟩, fun b cell hb hother => ?_⟩
  · rw [hmem, h.coupledTo_iff]
  · rw [hget, if_neg, hb]
    intro hbl
    obtain ⟨len, hlen⟩ := (hmem b).1 hbl
    cases hb.symm.trans hlen
    exact hother rfl

/-- If freeing some record releases the buffers of an object, it is the record of the object. -/
theorem Plain.record_eq_of_releases (h : s.Plain) (hc : s.managedByCoupledMap.lookup c = some r)
    {endpoint : Target}
    (hrun : ({ s with managedByCoupledMap := s.managedByCoupledMap.erase c } :
      ManagedBuffers).coupledRecordFree endpoint (.record q) = some t)
    (hreleases : s.Releases c t) : q = r := by
  obtain ⟨⟨ids, hids, -, hidmem⟩, -⟩ := hreleases
  obtain ⟨l, hl, hne, -, hmem⟩ := h.record c r hc
  cases hq : s.records.get q with
  | none =>
    rw [ManagedBuffers.coupledRecordFree] at hrun
    dsimp only at hrun
    rw [hq] at hrun
    cases hrun
  | some rec =>
    obtain ⟨d, hd⟩ := h.inMap q rec hq
    obtain ⟨m, hm, -, -, hmem'⟩ := h.record d q hd
    obtain ⟨heap, hrun', hreleased, -⟩ := h.coupledRecordFree hd hm c endpoint
    cases hrun'.symm.trans hrun
    have hidsm : m = ids := List.append_cancel_left (hreleased.symm.trans hids)
    -- a buffer in the lists of both objects
    obtain ⟨b, hb⟩ := List.exists_mem_of_ne_nil l hne
    obtain ⟨len, hlen⟩ := (hmem b).1 hb
    have hbm : b ∈ m := by
      rw [hidsm, hidmem]
      exact ⟨_, hlen, rfl⟩
    obtain ⟨len', hlen'⟩ := (hmem' b).1 hbm
    cases hlen.symm.trans hlen'
    exact Option.some.inj (hd.symm.trans hc)

/-- A free is handled if and only if it meets the condition. -/
theorem Plain.coupledFree_iff (h : s.Plain) (c : UInt64) (unpassed : Target) :
    (s.Handles (.coupledFree c unpassed) ↔ s.Meets (.coupledFree c unpassed)) ∧
      (s.Meets (.coupledFree c unpassed) → ∀ t, s.step (.coupledFree c unpassed) = some t →
        t.Plain) := by
  cases hc : s.managedByCoupledMap.lookup c with
  | none =>
    have hstep : s.step (.coupledFree c unpassed) = some s := by
      rw [step, coupledFree, hc]
    refine ⟨iff_of_true ⟨s, hstep, h.balanced, ?_⟩ ?_, ?_⟩
    · rintro _ _ ⟨⟩
      exact h.releases_self hc
    · intro r hr
      cases hc.symm.trans hr
    · intro _ t ht
      cases hstep.symm.trans ht
      exact h
  | some r =>
    obtain ⟨l, hl, -⟩ := h.record c r hc
    obtain ⟨heap, hrun, hreleased, hget⟩ := h.coupledRecordFree hc hl c (.record r)
    have hplain := h.freed hc hl hget
    have hmeets : s.Meets (.coupledFree c unpassed) ↔ unpassed = .record r := by
      constructor
      · exact fun hm => hm r hc
      · rintro rfl q hq
        rw [Option.some.inj (hc.symm.trans hq)]
    have hstep : s.step (.coupledFree c unpassed) =
        ({ s with managedByCoupledMap := s.managedByCoupledMap.erase c } :
          ManagedBuffers).coupledRecordFree (.record r) unpassed := by
      rw [step, coupledFree, hc]
    rw [hmeets, Handles, hstep]
    refine ⟨⟨?_, ?_⟩, ?_⟩
    · rintro ⟨t, ht, -, hreleases⟩
      cases unpassed with
      | theEndpoint => cases ht
      | other => cases ht
      | record q => rw [h.record_eq_of_releases hc ht (hreleases c _ rfl)]
    · rintro rfl
      refine ⟨_, hrun, hplain.balanced, ?_⟩
      rintro _ _ ⟨⟩
      exact h.releases_freed hc hl hreleased hget
    · rintro rfl t ht
      cases hrun.symm.trans ht
      exact hplain

/-- Every operation is handled if and only if it meets the condition. -/
theorem Plain.handles_iff (h : s.Plain) (op : Op) : s.Handles op ↔ s.Meets op := by
  cases op with
  | cachedAlloc callId padding coupled size =>
    refine iff_of_false ?_ id
    rintro ⟨t, ht, hbalanced, -⟩
    obtain ⟨result, hresult, rfl⟩ := Option.map_eq_some_iff.1 ht
    exact h.not_balanced_cachedAlloc hresult hbalanced
  | uncachedAlloc coupled size =>
    obtain ⟨t, ht, hplain⟩ := h.uncachedAlloc coupled size
    refine iff_of_true ⟨t, ht, hplain.balanced, ?_⟩ trivial
    rintro _ _ ⟨⟩
  | staticAlloc callId padding size =>
    refine iff_of_false ?_ id
    rintro ⟨t, ht, hbalanced, -⟩
    obtain ⟨result, hresult, rfl⟩ := Option.map_eq_some_iff.1 ht
    exact h.not_balanced_cachedAlloc hresult hbalanced
  | coupledFree coupled unpassed => exact (h.coupledFree_iff coupled unpassed).1

theorem Plain.step (h : s.Plain) (hmeets : s.Meets op) (hstep : s.step op = some t) : t.Plain := by
  cases op with
  | cachedAlloc callId padding coupled size => exact hmeets.elim
  | uncachedAlloc coupled size =>
    obtain ⟨t', ht', hplain⟩ := h.uncachedAlloc coupled size
    cases ht'.symm.trans hstep
    exact hplain
  | staticAlloc callId padding size => exact hmeets.elim
  | coupledFree coupled unpassed => exact (h.coupledFree_iff coupled unpassed).2 hmeets t hstep

/-- After every sequence of operations that meet the condition every reference is counted, and a
further operation is handled if and only if it meets the condition, too. -/
theorem managed_buffers_released_once (h : Reaches step Meets empty s) :
    s.Balanced ∧ ∀ op, s.Handles op ↔ s.Meets op := by
  have hplain : s.Plain :=
    h.invariant (I := Plain) (fun _ _ _ hs hmeets hstep => hs.step hmeets hstep) plain_empty
  exact ⟨hplain.balanced, hplain.handles_iff⟩

end Frees

/-- Two objects with a buffer each. The first one is freed, and the second argument happens to be
its record. -/
theorem managed_buffers_released_once_two :
    ∃ s, Reaches step Meets empty s ∧ s.heap.released = [0] ∧ s.Balanced ∧
      s.Handles (.coupledFree 2 (.record 1)) := by
  have h : Reaches step Meets empty _ :=
    .head ⟨.uncachedAlloc 1 16, trivial, rfl⟩ (.head ⟨.uncachedAlloc 2 32, trivial, rfl⟩
      (.single ⟨.coupledFree 1 (.record 0), fun r hr => by cases hr; rfl, rfl⟩))
  obtain ⟨hbalanced, hhandles⟩ := managed_buffers_released_once h
  exact ⟨_, h, rfl, hbalanced, (hhandles _).2 fun r hr => by cases hr; rfl⟩

/-- A cached buffer has one reference and is in two containers. -/
theorem cached_buffer_miscounted :
    ∃ s, Reaches step (fun _ _ => True) empty s ∧ s.refCountOf 0 = 1 ∧ s.pointers = [0, 0] ∧
      ¬ s.Balanced ∧ s.step (.coupledFree 5 (.record 0)) = none := by
  have h : Reaches step (fun _ _ => True) empty _ :=
    .single ⟨.cachedAlloc 1 0 5 16, trivial, rfl⟩
  refine ⟨_, h, rfl, rfl, fun hbalanced => ?_, rfl⟩
  exact absurd (hbalanced 0) (by decide)

end ManagedBuffers

end Ava.Endpoint
