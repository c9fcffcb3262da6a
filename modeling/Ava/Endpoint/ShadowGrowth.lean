import Ava.Endpoint.ShadowIndexes

/-!
# Shadow buffers grow

A shadow buffer is asked for with a size, by a call that creates it or with the header of a message
(`ava_shadow_buffer_get_buffer`). The first request allocates it. A later one gets the same buffer,
unless it asks for more than has been allocated; then `ava_shadow_buffer_get_unlocked` frees the
buffer and creates it again, under the same id.

The size of a buffer is not in the state of the endpoint: the record has a copy of what `alloc` was
asked for. `Growing` has the sizes of the allocated blocks as the allocator knows them, and
`shadow_buffer_only_grows` is about these.
-/

set_option autoImplicit false

namespace Ava.Endpoint

open Ava.Lib
open Function (update update_self)

/-- The fields of `struct ava_buffer_header_t` that are read for a shadow buffer. -/
structure BufferHeader (ι : Type) where
  id : ι
  size : Nat
deriving DecidableEq

namespace ShadowPool

variable {ι α ρ : Type} [DecidableEq ι] [DecidableEq α] [DecidableEq ρ]
variable {s t m : ShadowPool ι α ρ}

/-! ## The calls -/

/-- `ava_shadow_buffer_get_buffer`, with the header that is in front of the data in the channel: the
buffer and `*size_out`. -/
def getBuffer (s : ShadowPool ι α ρ) (header : BufferHeader ι) (lifetime : Lifetime)
    (lifetimeCoupled : Option α) (newBuffer : α) (newRecord : ρ) :
    Except ShadowFault ((α × Nat) × ShadowPool ι α ρ) :=
  if lifetime = .call then .error .callLifetime
  else
    (newShadowUnlocked ⟨header.id, header.size, lifetime, lifetimeCoupled, newBuffer, newRecord⟩ 2
      s).map fun shadow => ((shadow.1, header.size), shadow.2)

/-- A call that returns a shadow buffer. -/
inductive Call (ι α ρ : Type) where
  | newShadow (q : ShadowRequest ι α ρ)
  | getBuffer (header : BufferHeader ι) (lifetime : Lifetime) (lifetimeCoupled : Option α)
      (newBuffer : α) (newRecord : ρ)

namespace Call

/-- What is asked for. -/
def request : Call ι α ρ → ShadowRequest ι α ρ
  | .newShadow q => q
  | .getBuffer header lifetime lifetimeCoupled newBuffer newRecord =>
    ⟨header.id, header.size, lifetime, lifetimeCoupled, newBuffer, newRecord⟩

/-- The buffer that is returned, and the pool afterwards. -/
def run (s : ShadowPool ι α ρ) : Call ι α ρ → Except ShadowFault (α × ShadowPool ι α ρ)
  | .newShadow q => newShadowUnlocked q 2 s
  | .getBuffer header lifetime lifetimeCoupled newBuffer newRecord =>
    (s.getBuffer header lifetime lifetimeCoupled newBuffer newRecord).map fun got =>
      (got.1.1, got.2)

/-- Both calls do the same with what they ask for. -/
theorem run_eq (c : Call ι α ρ) (hlifetime : c.request.lifetime ≠ .call) :
    c.run s = newShadowUnlocked c.request 2 s := by
  cases c with
  | newShadow q => rfl
  | getBuffer header lifetime lifetimeCoupled newBuffer newRecord =>
    have hnot : lifetime ≠ .call := hlifetime
    rw [run, ShadowPool.getBuffer, if_neg hnot, request]
    cases newShadowUnlocked ⟨header.id, header.size, lifetime, lifetimeCoupled, newBuffer,
      newRecord⟩ 2 s with
    | error e => rfl
    | ok shadow => rfl

end Call

/-- An endpoint and its allocator. `block` is the size of the block at an address: what `alloc` was
asked for when it last returned the address. `last` is what the last call has returned. -/
structure Growing (ι α ρ : Type) where
  pool : ShadowPool ι α ρ
  block : α → Nat
  last : Option α

/-- A call that returns. -/
def Growing.call (g : Growing ι α ρ) (c : Call ι α ρ) : Option (Growing ι α ρ) :=
  (c.run g.pool).toOption.map fun got =>
    { pool := got.2
      block := match g.pool.allocates (.newShadow c.request) with
        | some buffer => update g.block buffer c.request.size
        | none => g.block
      last := some got.1 }

/-! ## What is kept -/

/-- Every address that has a record is allocated. -/
def Held (s : ShadowPool ι α ρ) : Prop :=
  ∀ buffer ptr, s.shadowOf buffer = some ptr → buffer ∈ s.allocated

theorem Held.freed (h : s.Held) {ptr : ρ} {r : ShadowRecord ι α} (hfreed : Freed s ptr r t) :
    t.Held := by
  intro buffer p hp
  rw [hfreed.shadowOf] at hp
  split_ifs at hp with hother
  rw [hfreed.allocated, Finset.mem_erase]
  exact ⟨hother, h buffer p hp⟩

variable {q : ShadowRequest ι α ρ}

theorem Held.created (h : s.Held) (hcreated : Created s q t) : t.Held := by
  intro buffer p hp
  rw [hcreated.newRecord.shadowOf] at hp
  rw [hcreated.allocated, Finset.mem_insert]
  split_ifs at hp with hnew
  · exact Or.inl hnew
  · exact Or.inr (h buffer p hp)

theorem recordOf_created (h : Created s q t) :
    t.recordOf q.id = some ⟨q.size, true, q.id, q.newBuffer⟩ := by
  rw [recordOf, h.newRecord.buffersById, if_pos rfl, Option.bind_some, h.newRecord.records,
    if_pos rfl]

theorem createShadow_of_held (h : s.Held) (hid : s.buffersById.lookup q.id = none)
    (hpossible : s.createShadow q ≠ .error .impossible) :
    ∃ t, s.createShadow q = .ok (q.newBuffer, t) := by
  have hallocated : q.newBuffer ∉ s.allocated := fun hmem => hpossible (if_pos hmem)
  cases hshadow : s.shadowOf q.newBuffer with
  | none => exact createShadow_ok hid hshadow hpossible
  | some ptr => exact absurd (h _ _ hshadow) hallocated

namespace Growing

variable {g g' : Growing ι α ρ} {id : ι}

/-- Before the first call the id has no record. From then on it has the record of the buffer that
the last call has returned, with the size of its block. -/
structure Good (id : ι) (g : Growing ι α ρ) : Prop where
  consistent : g.pool.Consistent
  held : g.pool.Held
  resolved : match g.last with
    | none => g.pool.recordOf id = none
    | some buffer => ∃ r, g.pool.recordOf id = some r ∧ r.localBuffer = buffer ∧
        r.deallocator = true ∧ r.size = g.block buffer

/-- What a call does: it returns the buffer that is there, or one that it has allocated. In the
second case `m` is the pool without the buffer that was too small. -/
inductive Called (g : Growing ι α ρ) (q : ShadowRequest ι α ρ) : Growing ι α ρ → Prop where
  | kept {buffer} (last : g.last = some buffer) (fits : q.size ≤ g.block buffer) : Called g q g
  | allocated {m t : ShadowPool ι α ρ} (consistent : m.Consistent) (held : m.Held)
      (created : Created m q t)
      (outgrown : ∀ buffer, g.last = some buffer → g.block buffer < q.size) :
      Called g q ⟨t, update g.block q.newBuffer q.size, some q.newBuffer⟩

variable {c : Call ι α ρ}

theorem call_of_ok (hlifetime : c.request.lifetime ≠ .call) {buffer : α}
    (hrun : newShadowUnlocked c.request 2 g.pool = .ok (buffer, t)) :
    g.call c = some ⟨t, match g.pool.allocates (.newShadow c.request) with
      | some buffer => update g.block buffer c.request.size
      | none => g.block, some buffer⟩ := by
  rw [call, c.run_eq hlifetime, hrun]
  rfl

theorem Good.called_first (h : g.Good id) (hid : c.request.id = id)
    (hlifetime : c.request.lifetime ≠ .call) (hpossible : c.run g.pool ≠ .error .impossible)
    (hlast : g.last = none) : ∃ g', g.call c = some g' ∧ Called g c.request g' := by
  have hrun := newShadowUnlocked_eq h.consistent c.request 0
  have hnone := h.resolved
  rw [hlast] at hnone
  rw [c.run_eq hlifetime, hrun] at hpossible
  simp only [if_neg hlifetime, hid, hnone] at hrun hpossible
  have hunused : g.pool.buffersById.lookup c.request.id = none := by
    rw [hid]
    exact AList.lookup_eq_none.2 ((recordOf_eq_none_iff h.consistent id).1 hnone)
  obtain ⟨t, ht⟩ := createShadow_of_held h.held hunused hpossible
  refine ⟨_, call_of_ok hlifetime (hrun.trans ht), ?_⟩
  simp only [allocates, if_neg hlifetime, hid, hnone]
  refine .allocated h.consistent h.held (created_of_ok ht) fun buffer hbuffer => ?_
  cases hlast.symm.trans hbuffer

/-- A later call finds the record of the buffer, and frees it if it is too small. -/
theorem Good.called_again (h : g.Good id) (hid : c.request.id = id)
    (hlifetime : c.request.lifetime ≠ .call) (hpossible : c.run g.pool ≠ .error .impossible)
    {buffer : α} (hlast : g.last = some buffer) :
    ∃ g', g.call c = some g' ∧ Called g c.request g' := by
  have hrun := newShadowUnlocked_eq h.consistent c.request 0
  have hresolved := h.resolved
  rw [hlast] at hresolved
  obtain ⟨r, hrecord, rfl, hdealloc, hsize⟩ := hresolved
  rw [c.run_eq hlifetime, hrun] at hpossible
  simp only [if_neg hlifetime, hid, hrecord] at hrun hpossible
  by_cases hsmall : TooSmall c.request r
  · obtain ⟨m, hm⟩ := freeUnlocked_ok h.consistent hrecord hdealloc
    obtain ⟨ptr, -, hfreed, hunused⟩ := freed_of_recordOf h.consistent hrecord hm
    have hreuse : g.pool.reuse c.request r = m.createShadow c.request := by
      rw [reuse, if_pos hsmall, hm]
      rfl
    rw [hreuse] at hpossible hrun
    obtain ⟨t, ht⟩ := createShadow_of_held (h.held.freed hfreed) (hid ▸ hunused) hpossible
    refine ⟨_, call_of_ok hlifetime (hrun.trans ht), ?_⟩
    simp only [allocates, if_neg hlifetime, hid, hrecord, if_pos hsmall]
    refine .allocated (h.consistent.freed hfreed) (h.held.freed hfreed) (created_of_ok ht)
      fun buffer hbuffer => ?_
    cases hlast.symm.trans hbuffer
    exact hsize ▸ hsmall.1
  · have hfits : c.request.size ≤ g.block r.localBuffer :=
      hsize ▸ not_lt.1 fun hlt => hsmall ⟨hlt, hdealloc⟩
    have hreuse : g.pool.reuse c.request r = .ok (r.localBuffer, g.pool) := if_neg hsmall
    refine ⟨_, call_of_ok hlifetime (hrun.trans hreuse), ?_⟩
    simp only [allocates, if_neg hlifetime, hid, hrecord, if_neg hsmall]
    rw [← hlast]
    exact .kept hlast hfits

theorem Good.called (h : g.Good id) (hid : c.request.id = id)
    (hlifetime : c.request.lifetime ≠ .call) (hpossible : c.run g.pool ≠ .error .impossible) :
    ∃ g', g.call c = some g' ∧ Called g c.request g' := by
  cases hlast : g.last with
  | none => exact h.called_first hid hlifetime hpossible hlast
  | some buffer => exact h.called_again hid hlifetime hpossible hlast

theorem Good.of_called (h : g.Good id) (hid : q.id = id) (hcalled : Called g q g') : g'.Good id := by
  cases hcalled with
  | kept => exact h
  | allocated hconsistent hheld hcreated =>
    have hblock : update g.block q.newBuffer q.size q.newBuffer = q.size := update_self _ _ _
    refine ⟨hconsistent.newRecord hcreated.newRecord, hheld.created hcreated, ?_⟩
    exact ⟨_, hid ▸ recordOf_created hcreated, rfl, rfl, hblock.symm⟩

/-- A call that the allocator cannot answer so has no next state. -/
theorem possible_of_call (h : g.call c = some g') : c.run g.pool ≠ .error .impossible := by
  intro hrun
  rw [call, hrun] at h
  cases h

/-- The invariant holds after every sequence of calls with the id. -/
theorem good_of_reaches {block : α → Nat} (hs : s.Consistent) (hheld : s.Held)
    (hnew : s.recordOf id = none)
    (h : Reaches call (fun _ c => c.request.id = id ∧ c.request.lifetime ≠ .call)
      ⟨s, block, none⟩ g) : g.Good id := by
  refine h.invariant (I := Good id) (fun g c g' hg hc hcall => ?_) ⟨hs, hheld, hnew⟩
  obtain ⟨g'', hcall', hcalled⟩ := hg.called hc.1 hc.2 (possible_of_call hcall)
  cases hcall.symm.trans hcall'
  exact hg.of_called hc.1 hcalled

/-- In a state that is consistent, in which the id has no record and every address that has one is
allocated, any calls are made with the id. Then every further call returns a buffer. Its block has
at least the size that is asked for, it is the buffer of the call before unless the size exceeds its
block, and the id leads to it and to no other buffer. -/
theorem shadow_buffer_only_grows {block : α → Nat} (hs : s.Consistent) (hheld : s.Held)
    (hnew : s.recordOf id = none)
    (h : Reaches call (fun _ c => c.request.id = id ∧ c.request.lifetime ≠ .call)
      ⟨s, block, none⟩ g)
    (c : Call ι α ρ) (hid : c.request.id = id) (hlifetime : c.request.lifetime ≠ .call)
    (hpossible : c.run g.pool ≠ .error .impossible) :
    ∃ g' buffer, g.call c = some g' ∧ g'.last = some buffer ∧
      buffer ∈ g'.pool.allocated ∧ c.request.size ≤ g'.block buffer ∧
      (∀ previous, g.last = some previous → c.request.size ≤ g.block previous →
        buffer = previous) ∧
      (∃ r, g'.pool.recordOf id = some r ∧ r.localBuffer = buffer) ∧
      ∀ other ptr r, g'.pool.shadowOf other = some ptr → g'.pool.records.lookup ptr = some r →
        r.id = id → other = buffer := by
  have hgood := good_of_reaches hs hheld hnew h
  obtain ⟨g', hcall, hcalled⟩ := hgood.called hid hlifetime hpossible
  have hgood' := hgood.of_called hid hcalled
  have hlast : ∃ buffer, g'.last = some buffer ∧ c.request.size ≤ g'.block buffer ∧
      ∀ previous, g.last = some previous → c.request.size ≤ g.block previous →
        buffer = previous := by
    cases hcalled with
    | kept hlast hfits =>
      exact ⟨_, hlast, hfits, fun _ hprevious _ => Option.some.inj (hlast.symm.trans hprevious)⟩
    | allocated _ _ _ houtgrown =>
      have hblock : update g.block c.request.newBuffer c.request.size c.request.newBuffer =
          c.request.size := update_self _ _ _
      refine ⟨_, rfl, hblock.ge, fun previous hprevious hfits => ?_⟩
      exact absurd (houtgrown previous hprevious) (not_lt.2 hfits)
  obtain ⟨buffer, hlast, hsize, hsame⟩ := hlast
  have hresolved := hgood'.resolved
  rw [hlast] at hresolved
  obtain ⟨r, hrecord, hlocal, -, -⟩ := hresolved
  obtain ⟨ptr, hptr, hr, -, hshadow⟩ := exists_of_recordOf hgood'.consistent hrecord
  rw [hlocal] at hshadow
  refine ⟨g', buffer, hcall, hlast, hgood'.held buffer ptr hshadow, hsize, hsame,
    ⟨r, hrecord, hlocal⟩, fun other ptr' r' hother hr' hid' => ?_⟩
  -- a record with the id is the one that the table has
  have hptr' := (hgood'.consistent.record ptr' r' hr').1
  rw [hid', hptr] at hptr'
  cases hptr'
  cases hr.symm.trans hr'
  obtain ⟨r', hr'', rfl⟩ := hgood'.consistent.byLocal other ptr hother
  cases hr.symm.trans hr''
  exact hlocal

/-- A buffer of 4 bytes is created and grows to 8 when a message of that size arrives. -/
def createAndGrow : List (Call Nat Nat Nat) :=
  [.newShadow ⟨7, 4, .coupled, none, 100, 20⟩, .getBuffer ⟨7, 8⟩ .coupled none 101 21]

theorem shadow_buffer_only_grows_third : ∃ g g' : Growing Nat Nat Nat,
    runGuarded call (fun _ c => c.request.id = 7 ∧ c.request.lifetime ≠ .call)
      ⟨empty, fun _ => 0, none⟩ createAndGrow = some g ∧
    g.last = some 101 ∧ g.block 101 = 8 ∧
    g.call (.newShadow ⟨7, 6, .coupled, none, 102, 22⟩) = some g' ∧ g'.last = some 101 := by
  have hrun : ∃ g : Growing Nat Nat Nat,
      runGuarded call (fun _ c => c.request.id = 7 ∧ c.request.lifetime ≠ .call)
        ⟨empty, fun _ => 0, none⟩ createAndGrow = some g ∧ g.last = some 101 ∧ g.block 101 = 8 ∧
      Call.run g.pool (.newShadow ⟨7, 6, .coupled, none, 102, 22⟩) = .ok (101, g.pool) :=
    ⟨_, rfl, rfl, rfl, rfl⟩
  obtain ⟨g, hg, hlast, hblock, hthird⟩ := hrun
  obtain ⟨g', buffer, hcall, hlast', -, -, hsame, -⟩ := shadow_buffer_only_grows
    sound_empty.consistent (fun _ _ h => by cases h) rfl (Reaches.of_runGuarded _ hg)
    (.newShadow ⟨7, 6, .coupled, none, 102, 22⟩) rfl (by decide) (by rw [hthird]; simp)
  have hfits : 6 ≤ g.block 101 := by rw [hblock]; decide
  exact ⟨g, g', hg, hlast, hblock, hcall, hsame 101 hlast hfits ▸ hlast'⟩

end Growing

end ShadowPool

end Ava.Endpoint
