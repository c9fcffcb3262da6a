import Ava.Endpoint.ShadowBuffers

/-!
# The two indexes of shadow buffers

A record is found by its id and by the address of its buffer. `Consistent` says that the two ways
lead to the same records, and that these are the records on the heap. Each piece of the code keeps
it, also when lists of coupled records have become stale.

What can go wrong is an address. The application releases a solid buffer without telling the
endpoint, whose record stays; when the allocator gives the address to a new shadow buffer the
assertion that the address has no record fails. `shadow_indexes_agree` says that nothing else makes
it fail.
-/

set_option autoImplicit false

namespace Ava.Endpoint

open Ava.Lib
open Function (update update_apply)

namespace ShadowPool

variable {ι α ρ : Type} [DecidableEq ι] [DecidableEq α] [DecidableEq ρ]
variable {s t : ShadowPool ι α ρ}

/-- The record of a buffer. -/
def shadowOf (s : ShadowPool ι α ρ) (buffer : α) : Option ρ := (s.metadata buffer).shadow

/-- The records that are to be freed with an object. -/
def coupledOf (s : ShadowPool ι α ρ) (obj : α) : List ρ :=
  (s.metadata obj).coupledShadowBuffers.getD []

/-- The records on the heap are those in the table, each under its own id, and those in the
metadata, each at its own buffer. -/
structure Consistent (s : ShadowPool ι α ρ) : Prop where
  record : ∀ ptr r, s.records.lookup ptr = some r →
    s.buffersById.lookup r.id = some ptr ∧ s.shadowOf r.localBuffer = some ptr
  byId : ∀ id ptr, s.buffersById.lookup id = some ptr →
    ∃ r, s.records.lookup ptr = some r ∧ r.id = id
  byLocal : ∀ buffer ptr, s.shadowOf buffer = some ptr →
    ∃ r, s.records.lookup ptr = some r ∧ r.localBuffer = buffer

/-- The buffers that the endpoint has allocated are allocated. -/
def Owned (s : ShadowPool ι α ρ) : Prop :=
  ∀ ptr r, s.records.lookup ptr = some r → r.deallocator = true → r.localBuffer ∈ s.allocated

/-! ## What the pieces of the code do -/

/-- A new record in both indexes. -/
structure NewRecord (s : ShadowPool ι α ρ) (ptr : ρ) (r : ShadowRecord ι α)
    (t : ShadowPool ι α ρ) : Prop where
  fresh : s.records.lookup ptr = none
  unused : s.buffersById.lookup r.id = none
  free : s.shadowOf r.localBuffer = none
  records : ∀ p, t.records.lookup p = if p = ptr then some r else s.records.lookup p
  buffersById : ∀ i, t.buffersById.lookup i = if i = r.id then some ptr else s.buffersById.lookup i
  shadowOf : ∀ b, t.shadowOf b = if b = r.localBuffer then some ptr else s.shadowOf b

variable {id : ι}

theorem newRecord_of_ok {size : Nat} {buffer : α} {deallocator : Bool} {ptr : ρ}
    (h : s.newRecordUnlocked id size buffer deallocator ptr = .ok t) :
    NewRecord s ptr ⟨size, deallocator, id, buffer⟩ t ∧ (∀ b, t.coupledOf b = s.coupledOf b) ∧
      t.allocated = s.allocated := by
  rw [newRecordUnlocked] at h
  split_ifs at h with hptr hid hshadow
  cases h
  refine ⟨⟨AList.lookup_eq_none.2 hptr, AList.lookup_eq_none.2 hid, not_not.1 hshadow,
    fun p => HashTable.lookup_insert_eq _ _ _ _, fun i => HashTable.lookup_insert_eq _ _ _ _,
    fun b => ?_⟩, fun b => ?_, rfl⟩
  · by_cases hb : b = buffer
    · simp [ShadowPool.shadowOf, hb]
    · simp [ShadowPool.shadowOf, hb]
  · by_cases hb : b = buffer
    · simp [ShadowPool.coupledOf, hb]
    · simp [ShadowPool.coupledOf, hb]

/-- The record `r` of a shadow buffer is freed, and the buffer with it. -/
structure Freed (s : ShadowPool ι α ρ) (ptr : ρ) (r : ShadowRecord ι α) (t : ShadowPool ι α ρ) :
    Prop where
  record : s.records.lookup ptr = some r
  deallocator : r.deallocator = true
  records : ∀ p, t.records.lookup p = if p = ptr then none else s.records.lookup p
  buffersById : ∀ i, t.buffersById.lookup i = if i = r.id then none else s.buffersById.lookup i
  shadowOf : ∀ b, t.shadowOf b = if b = r.localBuffer then none else s.shadowOf b
  coupledOf : ∀ b, t.coupledOf b = s.coupledOf b
  allocated : t.allocated = s.allocated.erase r.localBuffer

theorem freed_of_ok (hs : s.Consistent) {buffer : α} (h : s.freeUnlocked buffer = .ok t) :
    (s.shadowOf buffer = none ∧ t = s) ∨
      ∃ ptr r, s.shadowOf buffer = some ptr ∧ r.localBuffer = buffer ∧ Freed s ptr r t := by
  rw [freeUnlocked] at h
  cases hshadow : (s.metadata buffer).shadow with
  | none =>
    rw [hshadow] at h
    cases h
    exact Or.inl ⟨hshadow, rfl⟩
  | some ptr =>
    obtain ⟨r, hr, hbuffer⟩ := hs.byLocal buffer ptr hshadow
    rw [hshadow] at h
    simp only [freeRecordUnlocked, hr, (hs.record ptr r hr).1] at h
    split_ifs at h with hdealloc
    · cases h
      refine Or.inr ⟨ptr, r, hshadow, hbuffer, hr, hdealloc,
        fun p => HashTable.lookup_erase_eq _ _ _, fun i => HashTable.lookup_erase_eq _ _ _,
        fun b => ?_, fun b => ?_, rfl⟩
      · rw [hbuffer]
        by_cases hb : b = buffer
        · simp [ShadowPool.shadowOf, hb]
        · simp [ShadowPool.shadowOf, hb]
      · by_cases hb : b = buffer
        · simp [ShadowPool.coupledOf, hb]
        · simp [ShadowPool.coupledOf, hb]
    · cases h

/-- A new shadow buffer. -/
structure Created (s : ShadowPool ι α ρ) (q : ShadowRequest ι α ρ) (t : ShadowPool ι α ρ) :
    Prop where
  unallocated : q.newBuffer ∉ s.allocated
  newRecord : NewRecord s q.newRecord ⟨q.size, true, q.id, q.newBuffer⟩ t
  coupledOf : ∀ b, t.coupledOf b =
    if q.coupledTo = some b then s.coupledOf b ++ [q.newRecord] else s.coupledOf b
  allocated : t.allocated = insert q.newBuffer s.allocated

omit [DecidableEq ι] [DecidableEq ρ] in
theorem coupledOf_couple (s : ShadowPool ι α ρ) (obj b : α) (ptr : ρ) :
    (s.couple obj ptr).coupledOf b =
      if some obj = some b then s.coupledOf b ++ [ptr] else s.coupledOf b := by
  by_cases hb : b = obj
  · simp [couple, coupledOf, hb]
  · simp [couple, coupledOf, hb, Ne.symm hb]

omit [DecidableEq ι] [DecidableEq ρ] in
theorem shadowOf_couple (s : ShadowPool ι α ρ) (obj b : α) (ptr : ρ) :
    (s.couple obj ptr).shadowOf b = s.shadowOf b := by
  by_cases hb : b = obj
  · simp [couple, shadowOf, hb]
  · simp [couple, shadowOf, hb]

theorem created_of_ok {q : ShadowRequest ι α ρ} {buffer : α}
    (h : s.createShadow q = .ok (buffer, t)) : Created s q t := by
  rw [createShadow] at h
  split_ifs at h with hallocated
  cases hnew : ({ s with allocated := insert q.newBuffer s.allocated } :
      ShadowPool ι α ρ).newRecordUnlocked q.id q.size q.newBuffer true q.newRecord with
  | error e =>
    rw [hnew] at h
    cases h
  | ok m =>
    obtain ⟨hrecord, hcoupled, hallocated'⟩ := newRecord_of_ok hnew
    rw [hnew] at h
    cases hto : q.coupledTo with
    | none =>
      simp only [hto] at h
      cases h
      refine ⟨hallocated, ⟨hrecord.fresh, hrecord.unused, hrecord.free, hrecord.records,
        hrecord.buffersById, hrecord.shadowOf⟩, fun b => ?_, hallocated'⟩
      rw [hcoupled, hto]
      rfl
    | some obj =>
      simp only [hto] at h
      cases h
      refine ⟨hallocated, ⟨hrecord.fresh, hrecord.unused, hrecord.free, hrecord.records,
        hrecord.buffersById, fun b => ?_⟩, fun b => ?_, hallocated'⟩
      · rw [shadowOf_couple, hrecord.shadowOf]
        rfl
      · rw [coupledOf_couple, hcoupled, hto]
        rfl

/-! ## Consistency is kept -/

theorem Consistent.newRecord (hs : s.Consistent) {ptr : ρ} {r : ShadowRecord ι α}
    (h : NewRecord s ptr r t) : t.Consistent := by
  -- an older record has another id and another buffer, which were in use
  have hother : ∀ p r', s.records.lookup p = some r' → r'.id ≠ r.id ∧
      r'.localBuffer ≠ r.localBuffer := by
    intro p r' hr'
    obtain ⟨hid, hlocal⟩ := hs.record p r' hr'
    refine ⟨fun heq => ?_, fun heq => ?_⟩
    · rw [heq, h.unused] at hid
      cases hid
    · rw [heq, h.free] at hlocal
      cases hlocal
  refine ⟨fun p r' hr' => ?_, fun id p hid => ?_, fun buffer p hp => ?_⟩
  · rw [h.records] at hr'
    split_ifs at hr' with hp
    · cases hr'
      rw [h.buffersById, if_pos rfl, h.shadowOf, if_pos rfl, hp]
      exact ⟨rfl, rfl⟩
    · rw [h.buffersById, if_neg (hother p r' hr').1, h.shadowOf, if_neg (hother p r' hr').2]
      exact hs.record p r' hr'
  · rw [h.buffersById] at hid
    split_ifs at hid with heq
    · cases hid
      exact ⟨r, by rw [h.records, if_pos rfl], heq.symm⟩
    · obtain ⟨r', hr', hid'⟩ := hs.byId id p hid
      refine ⟨r', ?_, hid'⟩
      rw [h.records, if_neg, hr']
      rintro rfl
      rw [h.fresh] at hr'
      cases hr'
  · rw [h.shadowOf] at hp
    split_ifs at hp with heq
    · cases hp
      exact ⟨r, by rw [h.records, if_pos rfl], heq.symm⟩
    · obtain ⟨r', hr', hlocal⟩ := hs.byLocal buffer p hp
      refine ⟨r', ?_, hlocal⟩
      rw [h.records, if_neg, hr']
      rintro rfl
      rw [h.fresh] at hr'
      cases hr'

theorem Consistent.freed (hs : s.Consistent) {ptr : ρ} {r : ShadowRecord ι α}
    (h : Freed s ptr r t) : t.Consistent := by
  obtain ⟨hid, hlocal⟩ := hs.record ptr r h.record
  -- a record with the id or the buffer of the freed one is the freed one
  have hother : ∀ p r', s.records.lookup p = some r' → p ≠ ptr →
      r'.id ≠ r.id ∧ r'.localBuffer ≠ r.localBuffer := by
    intro p r' hr' hne
    obtain ⟨hid', hlocal'⟩ := hs.record p r' hr'
    refine ⟨fun heq => hne ?_, fun heq => hne ?_⟩
    · rw [heq, hid] at hid'
      exact (Option.some.inj hid').symm
    · rw [heq, hlocal] at hlocal'
      exact (Option.some.inj hlocal').symm
  refine ⟨fun p r' hr' => ?_, fun id p hp => ?_, fun buffer p hp => ?_⟩
  · rw [h.records] at hr'
    split_ifs at hr' with hne
    rw [h.buffersById, if_neg (hother p r' hr' hne).1, h.shadowOf, if_neg (hother p r' hr' hne).2]
    exact hs.record p r' hr'
  · rw [h.buffersById] at hp
    split_ifs at hp with hne
    obtain ⟨r', hr', rfl⟩ := hs.byId id p hp
    refine ⟨r', ?_, rfl⟩
    rw [h.records, if_neg, hr']
    rintro rfl
    rw [h.record] at hr'
    cases hr'
    exact hne rfl
  · rw [h.shadowOf] at hp
    split_ifs at hp with hne
    obtain ⟨r', hr', rfl⟩ := hs.byLocal buffer p hp
    refine ⟨r', ?_, rfl⟩
    rw [h.records, if_neg, hr']
    rintro rfl
    rw [h.record] at hr'
    cases hr'
    exact hne rfl

theorem Owned.freed (howned : s.Owned) (hs : s.Consistent) {ptr : ρ} {r : ShadowRecord ι α}
    (h : Freed s ptr r t) : t.Owned := by
  intro p r' hr' hdealloc
  rw [h.records] at hr'
  split_ifs at hr' with hne
  rw [h.allocated, Finset.mem_erase]
  refine ⟨fun heq => hne ?_, howned p r' hr' hdealloc⟩
  have hlocal := (hs.record ptr r h.record).2
  rw [← heq, (hs.record p r' hr').2] at hlocal
  exact Option.some.inj hlocal

theorem Owned.created {q : ShadowRequest ι α ρ} (howned : s.Owned) (h : Created s q t) :
    t.Owned := by
  intro p r hr hdealloc
  rw [h.newRecord.records] at hr
  rw [h.allocated, Finset.mem_insert]
  split_ifs at hr with hp
  · cases hr
    exact Or.inl rfl
  · exact Or.inr (howned p r hr hdealloc)

/-! ## Getting and creating a shadow buffer -/

/-- The record that is found by an id. -/
def recordOf (s : ShadowPool ι α ρ) (id : ι) : Option (ShadowRecord ι α) :=
  (s.buffersById.lookup id).bind fun ptr => s.records.lookup ptr

/-- A shadow buffer that is too small for a request. -/
def TooSmall (q : ShadowRequest ι α ρ) (r : ShadowRecord ι α) : Prop :=
  r.size < q.size ∧ r.deallocator = true

instance (q : ShadowRequest ι α ρ) (r : ShadowRecord ι α) : Decidable (TooSmall q r) :=
  inferInstanceAs (Decidable (_ ∧ _))

/-- What is done for an id that has a record. -/
def reuse (s : ShadowPool ι α ρ) (q : ShadowRequest ι α ρ) (r : ShadowRecord ι α) :
    Except ShadowFault (α × ShadowPool ι α ρ) :=
  if TooSmall q r then (s.freeUnlocked r.localBuffer).bind fun m => m.createShadow q
  else .ok (r.localBuffer, s)

omit [DecidableEq α] in
theorem recordOf_eq_none_iff (hs : s.Consistent) (id : ι) :
    s.recordOf id = none ↔ id ∉ s.buffersById := by
  rw [recordOf, ← AList.lookup_eq_none]
  cases hid : s.buffersById.lookup id with
  | none => simp
  | some ptr =>
    obtain ⟨r, hr, -⟩ := hs.byId id ptr hid
    simp [hr]

omit [DecidableEq α] in
theorem exists_of_recordOf (hs : s.Consistent) {r : ShadowRecord ι α} (h : s.recordOf id = some r) :
    ∃ ptr, s.buffersById.lookup id = some ptr ∧ s.records.lookup ptr = some r ∧ r.id = id ∧
      s.shadowOf r.localBuffer = some ptr := by
  obtain ⟨ptr, hid, hr⟩ := Option.bind_eq_some_iff.1 h
  obtain ⟨r', hr', hid'⟩ := hs.byId id ptr hid
  cases hr.symm.trans hr'
  exact ⟨ptr, hid, hr, hid', (hs.record ptr r hr).2⟩

/-- When a record is freed its id is free. -/
theorem freed_of_recordOf (hs : s.Consistent) {r : ShadowRecord ι α} (h : s.recordOf id = some r)
    (hfree : s.freeUnlocked r.localBuffer = .ok t) :
    ∃ ptr, s.buffersById.lookup id = some ptr ∧ Freed s ptr r t ∧
      t.buffersById.lookup id = none := by
  obtain ⟨ptr, hid, hr, rfl, hlocal⟩ := exists_of_recordOf hs h
  rcases freed_of_ok hs hfree with ⟨hnone, -⟩ | ⟨ptr', r', hptr', -, hfreed⟩
  · rw [hlocal] at hnone
    cases hnone
  · cases hlocal.symm.trans hptr'
    cases hr.symm.trans hfreed.record
    exact ⟨ptr, hid, hfreed, by rw [hfreed.buffersById, if_pos rfl]⟩

theorem freeUnlocked_ok (hs : s.Consistent) {r : ShadowRecord ι α} (h : s.recordOf id = some r)
    (hdealloc : r.deallocator = true) : ∃ t, s.freeUnlocked r.localBuffer = .ok t := by
  obtain ⟨ptr, -, hr, -, hlocal⟩ := exists_of_recordOf hs h
  have hshadow : (s.metadata r.localBuffer).shadow = some ptr := hlocal
  rw [freeUnlocked, hshadow]
  simp only [freeRecordUnlocked, hr, hdealloc, if_true]
  exact ⟨_, rfl⟩

theorem newShadowUnlocked_of_none {q : ShadowRequest ι α ρ} (hlifetime : q.lifetime ≠ .call)
    (h : s.buffersById.lookup q.id = none) (fuel : Nat) :
    newShadowUnlocked q (fuel + 1) s = s.createShadow q := by
  rw [newShadowUnlocked, if_neg hlifetime, if_neg (AList.lookup_eq_none.1 h)]

theorem getUnlocked_eq (hs : s.Consistent) (q : ShadowRequest ι α ρ) (fuel : Nat) :
    s.getUnlocked (newShadowUnlocked q (fuel + 1)) q =
      if q.lifetime = .call then .error .callLifetime
      else match s.recordOf q.id with
        | none => .error .noRecord
        | some r => s.reuse q r := by
  rw [getUnlocked]
  by_cases hlifetime : q.lifetime = .call
  · rw [if_pos hlifetime, if_pos hlifetime]
  rw [if_neg hlifetime, if_neg hlifetime]
  cases hid : s.buffersById.lookup q.id with
  | none => simp [recordOf, hid]
  | some ptr =>
    obtain ⟨r, hr, hrid⟩ := hs.byId q.id ptr hid
    have hrecord : s.recordOf q.id = some r := by simp [recordOf, hid, hr]
    simp only [hr, hrecord, hrid, ne_eq, not_true_eq_false, if_false, reuse]
    by_cases hsmall : TooSmall q r
    · rw [if_pos (c := r.size < q.size ∧ r.deallocator = true) hsmall, if_pos hsmall]
      cases hfree : s.freeUnlocked r.localBuffer with
      | error e => rfl
      | ok m =>
        obtain ⟨-, -, -, hnone⟩ := freed_of_recordOf hs hrecord hfree
        exact newShadowUnlocked_of_none hlifetime hnone fuel
    · rw [if_neg (c := r.size < q.size ∧ r.deallocator = true) hsmall, if_neg hsmall]

/-- The bound on the recursion does not matter from 2 on. -/
theorem newShadowUnlocked_eq (hs : s.Consistent) (q : ShadowRequest ι α ρ) (fuel : Nat) :
    newShadowUnlocked q (fuel + 2) s =
      if q.lifetime = .call then .error .callLifetime
      else match s.recordOf q.id with
        | none => s.createShadow q
        | some r => s.reuse q r := by
  rw [newShadowUnlocked]
  by_cases hlifetime : q.lifetime = .call
  · rw [if_pos hlifetime, if_pos hlifetime]
  rw [if_neg hlifetime, if_neg hlifetime, getUnlocked_eq hs, if_neg hlifetime]
  cases hrecord : s.recordOf q.id with
  | none => rw [if_neg ((recordOf_eq_none_iff hs q.id).1 hrecord)]
  | some r =>
    have hmem : q.id ∈ s.buffersById := by
      by_contra hnot
      rw [(recordOf_eq_none_iff hs q.id).2 hnot] at hrecord
      cases hrecord
    rw [if_pos hmem]

/-- A record that is there is returned as it is, or freed and replaced. -/
theorem reuse_of_ok (hs : s.Consistent) {q : ShadowRequest ι α ρ} {r : ShadowRecord ι α}
    {buffer : α}
    (hrecord : s.recordOf q.id = some r) (h : s.reuse q r = .ok (buffer, t)) :
    (¬ TooSmall q r ∧ t = s) ∨
      TooSmall q r ∧ ∃ ptr m, s.buffersById.lookup q.id = some ptr ∧ Freed s ptr r m ∧
        Created m q t := by
  rw [reuse] at h
  split_ifs at h with hsmall
  · cases hfree : s.freeUnlocked r.localBuffer with
    | error e =>
      rw [hfree] at h
      cases h
    | ok m =>
      rw [hfree] at h
      obtain ⟨ptr, hid, hfreed, -⟩ := freed_of_recordOf hs hrecord hfree
      exact Or.inr ⟨hsmall, ptr, m, hid, hfreed, created_of_ok h⟩
  · cases h
    exact Or.inl ⟨hsmall, rfl⟩

/-! ## What an operation can do -/

/-- The list of an object is removed. -/
structure Uncoupled (s : ShadowPool ι α ρ) (obj : α) (t : ShadowPool ι α ρ) : Prop where
  records : t.records = s.records
  buffersById : t.buffersById = s.buffersById
  shadowOf : ∀ b, t.shadowOf b = s.shadowOf b
  coupledOf : ∀ b, t.coupledOf b = if b = obj then [] else s.coupledOf b
  allocated : t.allocated = s.allocated

/-- The operations that ask for a shadow buffer. -/
def Op.asksFor : Op ι α ρ → Option (ShadowRequest ι α ρ)
  | .newShadow q => some q
  | .get q => some q
  | _ => none

/-- The record that is too small for a request. -/
def outgrown (s : ShadowPool ι α ρ) (q : ShadowRequest ι α ρ) : Option ρ :=
  match s.recordOf q.id with
  | some r => if TooSmall q r then s.buffersById.lookup q.id else none
  | none => none

/-- The record that an operation on a single buffer frees. -/
def frees (s : ShadowPool ι α ρ) : Op ι α ρ → Option ρ
  | .newShadow q => s.outgrown q
  | .get q => s.outgrown q
  | .free buffer => s.shadowOf buffer
  | _ => none

omit [DecidableEq α] in
theorem frees_of_asks {op : Op ι α ρ} {q : ShadowRequest ι α ρ} (h : op.asksFor = some q) :
    s.frees op = s.outgrown q := by
  cases op with
  | newShadow q' =>
    cases h
    rfl
  | get q' =>
    cases h
    rfl
  | attachSolid | free | freeCoupled | allocate | release => cases h

/-- The ways in which an operation succeeds. -/
inductive Change (s : ShadowPool ι α ρ) : Op ι α ρ → ShadowPool ι α ρ → Prop where
  | nothing {op} (kept : s.frees op = none) : Change s op s
  | attach {buffer size lifetime nextId ptr t}
      (record : NewRecord s ptr ⟨size, false, nextId, buffer⟩ t)
      (coupledOf : ∀ b, t.coupledOf b = s.coupledOf b) (allocated : t.allocated = s.allocated) :
      Change s (.attachSolid buffer size lifetime nextId ptr) t
  | create {q t} (kept : s.outgrown q = none) (created : Created s q t) :
      Change s (.newShadow q) t
  | regrow {op q r ptr m t} (asks : op.asksFor = some q) (outgrown : s.outgrown q = some ptr)
      (freed : Freed s ptr r m) (created : Created m q t) : Change s op t
  | free {ptr r t} (freed : Freed s ptr r t) : Change s (.free r.localBuffer) t
  | freeCoupled {obj freed m t}
      (loop : (s.coupledOf obj).foldlM (fun s ptr => s.freeUnlocked (s.readLocal freed ptr)) s =
        .ok m)
      (uncoupled : Uncoupled m obj t) : Change s (.freeCoupled obj freed) t
  | allocate (buffer) :
      Change s (.allocate buffer) { s with allocated := insert buffer s.allocated }
  | release {buffer} (solid : s.isShadow buffer = false) :
      Change s (.release buffer) { s with allocated := s.allocated.erase buffer }

variable {buffer : α} {op : Op ι α ρ} {q : ShadowRequest ι α ρ} {r : ShadowRecord ι α}

theorem change_of_reuse (hs : s.Consistent) (hasks : op.asksFor = some q)
    (hrecord : s.recordOf q.id = some r) (h : s.reuse q r = .ok (buffer, t)) : Change s op t := by
  rcases reuse_of_ok hs hrecord h with ⟨hfits, rfl⟩ | ⟨hsmall, ptr, m, hid, hfreed, hcreated⟩
  · apply Change.nothing
    rw [frees_of_asks hasks, outgrown, hrecord]
    exact if_neg hfits
  · refine .regrow hasks ?_ hfreed hcreated
    rw [outgrown, hrecord, ← hid]
    exact if_pos hsmall

omit [DecidableEq ι] [DecidableEq ρ] in
theorem uncoupled_clear (s : ShadowPool ι α ρ) (obj : α) :
    Uncoupled s obj { s with
      metadata := update s.metadata obj { s.metadata obj with coupledShadowBuffers := none } } := by
  refine ⟨rfl, rfl, fun b => ?_, fun b => ?_, rfl⟩
  · by_cases hb : b = obj
    · simp [ShadowPool.shadowOf, hb]
    · simp [ShadowPool.shadowOf, hb]
  · by_cases hb : b = obj
    · simp [ShadowPool.coupledOf, hb]
    · simp [ShadowPool.coupledOf, hb]

theorem change_of_freeCoupled {obj : α} {freed : ρ → α}
    (h : s.freeCoupledUnlocked obj freed = .ok t) : Change s (.freeCoupled obj freed) t := by
  rw [freeCoupledUnlocked] at h
  cases hlist : (s.metadata obj).coupledShadowBuffers with
  | none =>
    rw [hlist] at h
    cases h
    exact .nothing rfl
  | some ptrs =>
    have hcoupled : s.coupledOf obj = ptrs := by rw [coupledOf, hlist]; rfl
    rw [hlist] at h
    obtain ⟨m, hm, hclear⟩ := bind_eq_ok.1 h
    cases hclear
    exact .freeCoupled (hcoupled ▸ hm) (uncoupled_clear m obj)

/-- Every operation that succeeds is one of the changes. -/
theorem change_of_run (hs : s.Consistent) (h : s.run op = .ok t) : Change s op t := by
  cases op with
  | attachSolid buffer size lifetime nextId ptr =>
    rw [run, newSolidUnlocked] at h
    split_ifs at h with hlifetime hshadow
    · cases h
      exact .nothing rfl
    · obtain ⟨hrecord, hcoupled, hallocated⟩ := newRecord_of_ok h
      exact .attach hrecord hcoupled hallocated
  | newShadow q =>
    obtain ⟨⟨buffer, t'⟩, hnew, rfl⟩ := map_eq_ok.1 h
    rw [newShadowUnlocked_eq hs] at hnew
    split_ifs at hnew
    cases hrecord : s.recordOf q.id with
    | none =>
      rw [hrecord] at hnew
      exact .create (by rw [outgrown, hrecord]) (created_of_ok hnew)
    | some r =>
      rw [hrecord] at hnew
      exact change_of_reuse hs rfl hrecord hnew
  | get q =>
    obtain ⟨⟨buffer, t'⟩, hget, rfl⟩ := map_eq_ok.1 h
    rw [getUnlocked_eq hs] at hget
    split_ifs at hget
    cases hrecord : s.recordOf q.id with
    | none =>
      rw [hrecord] at hget
      cases hget
    | some r =>
      rw [hrecord] at hget
      exact change_of_reuse hs rfl hrecord hget
  | free buffer =>
    rcases freed_of_ok hs h with ⟨hnone, rfl⟩ | ⟨ptr, r, -, rfl, hfreed⟩
    · exact .nothing hnone
    · exact .free hfreed
  | freeCoupled obj freed => exact change_of_freeCoupled h
  | allocate buffer =>
    rw [run] at h
    split_ifs at h
    cases h
    exact .allocate buffer
  | release buffer =>
    rw [run] at h
    split_ifs at h with hguard
    cases h
    exact .release (Bool.not_eq_true _ ▸ (not_or.1 hguard).2)

/-! ## Every operation keeps the indexes consistent -/

/-- The invariant of the indexes. -/
structure Sound (s : ShadowPool ι α ρ) : Prop where
  consistent : s.Consistent
  owned : s.Owned

variable {ptr : ρ}

theorem Sound.freed (h : s.Sound) (hfreed : Freed s ptr r t) : t.Sound :=
  ⟨h.consistent.freed hfreed, h.owned.freed h.consistent hfreed⟩

theorem Sound.created (h : s.Sound) (hcreated : Created s q t) : t.Sound :=
  ⟨h.consistent.newRecord hcreated.newRecord, h.owned.created hcreated⟩

theorem Sound.free (h : s.Sound) (hfree : s.freeUnlocked buffer = .ok t) : t.Sound := by
  rcases freed_of_ok h.consistent hfree with ⟨-, rfl⟩ | ⟨ptr, r, -, -, hfreed⟩
  · exact h
  · exact h.freed hfreed

theorem Sound.attach (h : s.Sound) (hnew : NewRecord s ptr r t) (hsolid : r.deallocator = false)
    (hallocated : t.allocated = s.allocated) : t.Sound := by
  refine ⟨h.consistent.newRecord hnew, fun p r' hr' hdealloc => ?_⟩
  rw [hnew.records] at hr'
  split_ifs at hr'
  · cases hr'
    rw [hsolid] at hdealloc
    cases hdealloc
  · rw [hallocated]
    exact h.owned p r' hr' hdealloc

theorem Sound.uncoupled (h : s.Sound) {obj : α} (huncoupled : Uncoupled s obj t) : t.Sound := by
  refine ⟨⟨fun ptr r hr => ?_, fun id ptr hid => ?_, fun buffer ptr hptr => ?_⟩,
    fun ptr r hr hdealloc => ?_⟩
  · rw [huncoupled.buffersById, huncoupled.shadowOf]
    exact h.consistent.record ptr r (huncoupled.records ▸ hr)
  · rw [huncoupled.records]
    exact h.consistent.byId id ptr (huncoupled.buffersById ▸ hid)
  · rw [huncoupled.records]
    exact h.consistent.byLocal buffer ptr (huncoupled.shadowOf buffer ▸ hptr)
  · rw [huncoupled.allocated]
    exact h.owned ptr r (huncoupled.records ▸ hr) hdealloc

/-- The application does not release what the endpoint has allocated. -/
theorem Sound.release (h : s.Sound) (hsolid : s.isShadow buffer = false) :
    Sound { s with allocated := s.allocated.erase buffer } := by
  refine ⟨⟨h.consistent.record, h.consistent.byId, h.consistent.byLocal⟩,
    fun ptr r hr hdealloc => ?_⟩
  apply Finset.mem_erase.2
  refine ⟨?_, h.owned ptr r hr hdealloc⟩
  rintro rfl
  have hshadow : (s.metadata r.localBuffer).shadow = some ptr := (h.consistent.record ptr r hr).2
  rw [isShadow, hshadow, Option.bind_some] at hsolid
  change AList.lookup ptr s.records = some r at hr
  rw [hr] at hsolid
  cases hdealloc.symm.trans hsolid

theorem Sound.change (h : s.Sound) (hchange : Change s op t) : t.Sound := by
  cases hchange with
  | nothing => exact h
  | attach hrecord _ hallocated => exact h.attach hrecord rfl hallocated
  | create _ hcreated => exact h.created hcreated
  | regrow _ _ hfreed hcreated => exact (h.freed hfreed).created hcreated
  | free hfreed => exact h.freed hfreed
  | freeCoupled hloop huncoupled =>
    apply Sound.uncoupled _ huncoupled
    exact foldlM_invariant (fun m ptr m' hm hfree => hm.free hfree) _ h hloop
  | allocate buffer =>
    exact ⟨⟨h.consistent.record, h.consistent.byId, h.consistent.byLocal⟩,
      fun ptr r hr hdealloc => Finset.mem_insert_of_mem (h.owned ptr r hr hdealloc)⟩
  | release hsolid => exact h.release hsolid

omit [DecidableEq α] in
theorem sound_empty : (empty : ShadowPool ι α ρ).Sound :=
  ⟨⟨fun _ _ h => (by cases h), fun _ _ h => (by cases h), fun _ _ h => (by cases h)⟩,
    fun _ _ h _ => (by cases h)⟩

/-- The indexes are consistent in every state that is reached. -/
theorem sound_of_reaches {ok : ShadowPool ι α ρ → Op ι α ρ → Prop}
    (h : Reaches step ok empty s) : s.Sound :=
  h.invariant
    (fun _ _ _ hs _ hstep => hs.change (change_of_run hs.consistent (eq_ok_of_toOption hstep)))
    sound_empty

/-! ## When the assertion fails -/

/-- The address has the record of a solid buffer. -/
def Attached (s : ShadowPool ι α ρ) (buffer : α) : Prop :=
  ∃ ptr r, s.shadowOf buffer = some ptr ∧ s.records.lookup ptr = some r ∧ r.deallocator = false

/-- The address that an operation gets from the allocator of shadow buffers, if it asks for one. -/
def allocates (s : ShadowPool ι α ρ) : Op ι α ρ → Option α
  | .newShadow q =>
    if q.lifetime = .call then none
    else match s.recordOf q.id with
      | none => some q.newBuffer
      | some r => if TooSmall q r then some q.newBuffer else none
  | .get q =>
    if q.lifetime = .call then none
    else match s.recordOf q.id with
      | none => none
      | some r => if TooSmall q r then some q.newBuffer else none
  | _ => none

omit [DecidableEq α] in
/-- An address that is not allocated has no record but that of a solid buffer. -/
theorem Sound.attached_iff (h : s.Sound) (hbuffer : buffer ∉ s.allocated) :
    s.Attached buffer ↔ s.shadowOf buffer ≠ none := by
  constructor
  · rintro ⟨ptr, r, hptr, -, -⟩ hnone
    cases hptr.symm.trans hnone
  · intro hne
    obtain ⟨ptr, hptr⟩ := Option.ne_none_iff_exists'.1 hne
    obtain ⟨r, hr, hlocal⟩ := h.consistent.byLocal buffer ptr hptr
    refine ⟨ptr, r, hptr, hr, Bool.eq_false_iff.2 fun hdealloc => hbuffer ?_⟩
    exact hlocal ▸ h.owned ptr r hr hdealloc

theorem newRecordUnlocked_eq_shadowNotNull (size : Nat) (deallocator : Bool)
    (hptr : ptr ∉ s.records) (hid : s.buffersById.lookup id = none)
    (hshadow : s.shadowOf buffer ≠ none) :
    s.newRecordUnlocked id size buffer deallocator ptr = .error .shadowNotNull := by
  rw [newRecordUnlocked, if_neg hptr, if_neg (AList.lookup_eq_none.1 hid)]
  exact if_pos hshadow

theorem newRecordUnlocked_ok (size : Nat) (deallocator : Bool) (hptr : ptr ∉ s.records)
    (hid : s.buffersById.lookup id = none) (hshadow : s.shadowOf buffer = none) :
    ∃ t, s.newRecordUnlocked id size buffer deallocator ptr = .ok t := by
  rw [newRecordUnlocked, if_neg hptr, if_neg (AList.lookup_eq_none.1 hid)]
  exact ⟨_, if_neg (not_not.2 hshadow)⟩

/-- For a new id, at an address without a record, a shadow buffer is created. -/
theorem createShadow_ok (hid : s.buffersById.lookup q.id = none)
    (hshadow : s.shadowOf q.newBuffer = none) (hpossible : s.createShadow q ≠ .error .impossible) :
    ∃ t, s.createShadow q = .ok (q.newBuffer, t) := by
  by_cases hallocated : q.newBuffer ∈ s.allocated
  · exact absurd (if_pos hallocated) hpossible
  rw [createShadow, if_neg hallocated] at hpossible ⊢
  by_cases hptr : q.newRecord ∈ s.records
  · exact absurd (by rw [newRecordUnlocked, if_pos hptr]; rfl) hpossible
  obtain ⟨t, ht⟩ := newRecordUnlocked_ok
    (s := { s with allocated := insert q.newBuffer s.allocated }) q.size true hptr hid hshadow
  rw [ht]
  cases hto : q.coupledTo with
  | none => exact ⟨t, rfl⟩
  | some obj => exact ⟨t.couple obj q.newRecord, rfl⟩

theorem Sound.createShadow_eq_shadowNotNull (h : s.Sound) (hid : s.buffersById.lookup q.id = none)
    (hpossible : s.createShadow q ≠ .error .impossible) :
    s.createShadow q = .error .shadowNotNull ↔ s.Attached q.newBuffer := by
  by_cases hallocated : q.newBuffer ∈ s.allocated
  · exact absurd (if_pos hallocated) hpossible
  rw [h.attached_iff hallocated]
  by_cases hshadow : s.shadowOf q.newBuffer = none
  · obtain ⟨t, ht⟩ := createShadow_ok hid hshadow hpossible
    rw [ht]
    simp [hshadow]
  rw [createShadow, if_neg hallocated] at hpossible ⊢
  by_cases hptr : q.newRecord ∈ s.records
  · exact absurd (by rw [newRecordUnlocked, if_pos hptr]; rfl) hpossible
  rw [newRecordUnlocked_eq_shadowNotNull
    (s := { s with allocated := insert q.newBuffer s.allocated }) q.size true hptr hid hshadow]
  simp [bind, Except.bind, hshadow]

/-- A shadow buffer that is freed is not the one of an attached record. -/
theorem Freed.attached_iff (hs : s.Consistent) (h : Freed s ptr r t) (buffer : α) :
    t.Attached buffer ↔ s.Attached buffer := by
  have hlocal := (hs.record ptr r h.record).2
  constructor
  · rintro ⟨p, r', hp, hr', hsolid⟩
    rw [h.shadowOf] at hp
    split_ifs at hp
    rw [h.records] at hr'
    split_ifs at hr'
    exact ⟨p, r', hp, hr', hsolid⟩
  · rintro ⟨p, r', hp, hr', hsolid⟩
    have hne : p ≠ ptr := by
      rintro rfl
      cases hr'.symm.trans h.record
      cases hsolid.symm.trans h.deallocator
    refine ⟨p, r', ?_, ?_, hsolid⟩
    · rw [h.shadowOf, if_neg, hp]
      rintro rfl
      exact hne (Option.some.inj (hp.symm.trans hlocal))
    · rw [h.records, if_neg hne, hr']

theorem Sound.reuse_eq_shadowNotNull (h : s.Sound) (hrecord : s.recordOf q.id = some r)
    (hpossible : s.reuse q r ≠ .error .impossible) :
    s.reuse q r = .error .shadowNotNull ↔ TooSmall q r ∧ s.Attached q.newBuffer := by
  by_cases hsmall : TooSmall q r
  · rw [reuse, if_pos hsmall] at hpossible ⊢
    obtain ⟨m, hm⟩ := freeUnlocked_ok h.consistent hrecord hsmall.2
    obtain ⟨ptr, -, hfreed, hid⟩ := freed_of_recordOf h.consistent hrecord hm
    rw [hm] at hpossible ⊢
    have hiff := (h.freed hfreed).createShadow_eq_shadowNotNull hid hpossible
    rw [hfreed.attached_iff h.consistent] at hiff
    exact hiff.trans (and_iff_right hsmall).symm
  · rw [reuse, if_neg hsmall]
    simp [hsmall]

theorem freeUnlocked_ne_shadowNotNull (s : ShadowPool ι α ρ) (buffer : α) :
    s.freeUnlocked buffer ≠ .error .shadowNotNull := by
  rw [freeUnlocked]
  cases (s.metadata buffer).shadow with
  | none => exact nofun
  | some ptr =>
    simp only [freeRecordUnlocked]
    cases s.records.lookup ptr with
    | none => exact nofun
    | some r => by_cases hdealloc : r.deallocator <;> simp [hdealloc, bind, Except.bind]

theorem freeCoupledUnlocked_ne_shadowNotNull (s : ShadowPool ι α ρ) (obj : α) (freed : ρ → α) :
    s.freeCoupledUnlocked obj freed ≠ .error .shadowNotNull := by
  have hloop : ∀ (ptrs : List ρ) (s : ShadowPool ι α ρ),
      ptrs.foldlM (fun s ptr => s.freeUnlocked (s.readLocal freed ptr)) s ≠
        .error .shadowNotNull := by
    intro ptrs
    induction ptrs with
    | nil => exact fun _ => nofun
    | cons ptr ptrs ih =>
      intro s
      rw [List.foldlM_cons]
      cases hfree : s.freeUnlocked (s.readLocal freed ptr) with
      | error e => exact fun h => freeUnlocked_ne_shadowNotNull _ _ (hfree.trans h)
      | ok t => exact ih t
  rw [freeCoupledUnlocked]
  cases (s.metadata obj).coupledShadowBuffers with
  | none => exact nofun
  | some ptrs =>
    cases hptrs : ptrs.foldlM (fun s ptr => s.freeUnlocked (s.readLocal freed ptr)) s with
    | error e =>
      intro h
      simp only [hptrs] at h
      exact hloop ptrs s (hptrs.trans h)
    | ok t =>
      simp only [hptrs]
      exact nofun

theorem newSolidUnlocked_ne_shadowNotNull (s : ShadowPool ι α ρ) (buffer : α) (size : Nat)
    (lifetime : Lifetime) (nextId : ι) (ptr : ρ) :
    s.newSolidUnlocked buffer size lifetime nextId ptr ≠ .error .shadowNotNull := by
  rw [newSolidUnlocked, newRecordUnlocked]
  split_ifs <;> exact nofun

/-- The assertion fails exactly when the allocator returns the address of a released solid
buffer. -/
theorem Sound.run_eq_shadowNotNull (h : s.Sound) (hpossible : s.run op ≠ .error .impossible) :
    s.run op = .error .shadowNotNull ↔ ∃ buffer, s.allocates op = some buffer ∧
      s.Attached buffer := by
  cases op with
  | attachSolid buffer size lifetime nextId ptr =>
    simp [run, allocates, newSolidUnlocked_ne_shadowNotNull]
  | newShadow q =>
    simp only [run, ne_eq, map_eq_error, newShadowUnlocked_eq h.consistent] at hpossible ⊢
    by_cases hlifetime : q.lifetime = .call
    · simp [allocates, hlifetime]
    rw [if_neg hlifetime] at hpossible ⊢
    cases hrecord : s.recordOf q.id with
    | none =>
      have hid := (recordOf_eq_none_iff h.consistent q.id).1 hrecord
      rw [hrecord] at hpossible
      simpa [allocates, hlifetime, hrecord] using
        h.createShadow_eq_shadowNotNull (AList.lookup_eq_none.2 hid) hpossible
    | some r =>
      rw [hrecord] at hpossible
      simpa [allocates, hlifetime, hrecord] using h.reuse_eq_shadowNotNull hrecord hpossible
  | get q =>
    simp only [run, ne_eq, map_eq_error, getUnlocked_eq h.consistent] at hpossible ⊢
    by_cases hlifetime : q.lifetime = .call
    · simp [allocates, hlifetime]
    rw [if_neg hlifetime] at hpossible ⊢
    cases hrecord : s.recordOf q.id with
    | none => simp [allocates, hlifetime, hrecord]
    | some r =>
      rw [hrecord] at hpossible
      simpa [allocates, hlifetime, hrecord] using h.reuse_eq_shadowNotNull hrecord hpossible
  | free buffer => simp [run, allocates, freeUnlocked_ne_shadowNotNull]
  | freeCoupled obj freed => simp [run, allocates, freeCoupledUnlocked_ne_shadowNotNull]
  | allocate buffer =>
    by_cases hbuffer : buffer ∈ s.allocated <;> simp [run, allocates, hbuffer]
  | release buffer =>
    rw [run]
    split_ifs <;> simp [allocates]

/-- After every sequence of operations the two indexes agree, and a further operation fails at the
assertion that a new record has an address without record if and only if the allocator gives it an
address that still has the record of a solid buffer. -/
theorem shadow_indexes_agree (h : Reaches step (fun _ _ => True) empty s) :
    s.Consistent ∧ ∀ op : Op ι α ρ, s.run op ≠ .error .impossible →
      (s.run op = .error .shadowNotNull ↔
        ∃ buffer, s.allocates op = some buffer ∧ s.Attached buffer) :=
  ⟨(sound_of_reaches h).consistent, fun _ hpossible =>
    (sound_of_reaches h).run_eq_shadowNotNull hpossible⟩

/-- The application attaches the buffer at 5 and releases it. -/
def attachAndRelease : List (Op Nat Nat Nat) :=
  [.allocate 5, .attachSolid 5 10 .coupled 100 1, .release 5]

theorem shadow_indexes_agree_after_release :
    ∃ s : ShadowPool Nat Nat Nat, Reaches step (fun _ _ => True) empty s ∧
      s.buffersById.lookup 100 = some 1 ∧ s.Consistent :=
  have h : Reaches step (fun _ _ => True) empty _ := Reaches.of_runGuarded attachAndRelease rfl
  ⟨_, h, rfl, (shadow_indexes_agree h).1⟩

/-- The allocator gives the address to a shadow buffer. -/
theorem solid_address_reused :
    ∃ s : ShadowPool Nat Nat Nat, Reaches step (fun _ _ => True) empty s ∧
      s.run (.newShadow ⟨7, 4, .coupled, none, 5, 2⟩) = .error .shadowNotNull :=
  ⟨_, Reaches.of_runGuarded attachAndRelease rfl, rfl⟩

end ShadowPool

end Ava.Endpoint
