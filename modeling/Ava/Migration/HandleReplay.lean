import Ava.Migration.SelfContained

/-!
# The handles of a replay

A worker that takes over an application runs the recorded calls again. Its library returns other
handles than the library of the first worker did, and the guest goes on using the ids it has, so the
generated code assigns the ids of the recorded return to the handles of the new one
(`assign_original_handle_for_argument`). The arguments of the calls are translated as usual, with the
handle pool of the new worker.

`target` is the object of the new worker that takes the place of an id. `idsCall` is what a call does
to the ids that are in use, without any handles: it is the abstract model of both pools. A pool on
which calls run (`apiStep`) follows it, and so does a pool on which they are replayed, where every id
in use stands for its target (`Mirrors`). The calls of any history can be replayed, and also any part
of them in which no call takes an id that the part does not supply.
-/

set_option autoImplicit false

namespace Ava.Migration

open Ava.Lib Ava.Channel Ava.Endpoint

/-! ## Replaying a call -/

/-- The value in the replay: the handle is the target of the id. -/
def HandleValue.onTarget (target : Ptr → Ptr) (v : HandleValue) : HandleValue :=
  { v with handle := target v.id }

/-- The default case of `assign_original_handle_for_argument`, for a handle. -/
def replayOutput (target : Ptr → Ptr) (q : HandlePool) (v : HandleValue) : Option HandlePool :=
  match v.direction with
  | .input => some q
  | .output => if v.deallocates then some q else q.assignHandle v.id (target v.id)

/-- What `replay_command_implementation` does to the handle pool. The translation of the arguments
succeeds if the native function gets the targets of their ids. -/
def replayCall (target : Ptr → Ptr) (q : HandlePool) (c : ApiCall) : Option HandlePool :=
  ((c.args.map (HandleValue.onTarget target)).foldlM translateInput q).bind fun q =>
    (c.result ++ c.args).foldlM (replayOutput target) q

/-- What a call does to the handle pool. -/
def callPool (tag : UInt64) (p : HandlePool) (c : ApiCall) : Option HandlePool :=
  (c.args.foldlM translateInput p).bind fun p =>
    (c.result ++ c.args).foldlM (translateOutput tag) p

/-! ## The ids in use -/

/-- An argument takes an id that is in use, or a value that is no id. -/
def takeId (live : Finset Ptr) (v : HandleValue) : Option (Finset Ptr) :=
  match v.direction with
  | .output => some live
  | .input =>
    if v.id ∈ live then some (if v.deallocates then live.erase v.id else live)
    else if v.id = NULL ∨ v.deallocates = false ∧ isHandle v.id = false then some live
    else none

/-- The return of a call gives an id to the guest, unless it is that of a deallocated handle. -/
def giveId (live : Finset Ptr) (v : HandleValue) : Option (Finset Ptr) :=
  match v.direction with
  | .input => some live
  | .output =>
    if v.deallocates ∨ v.id = NULL then some live
    else if isHandle v.id then some (insert v.id live) else none

/-- What a call does to the ids in use. -/
def idsCall (live : Finset Ptr) (c : ApiCall) : Option (Finset Ptr) :=
  (c.args.foldlM takeId live).bind fun live => (c.result ++ c.args).foldlM giveId live

/-- The pool has the ids in use, and is a bijection between them and their handles. -/
structure LiveIds (p : HandlePool) (live : Finset Ptr) : Prop where
  inverse : HashTable.Inverse p.toHandle p.toId
  mem : ∀ id, id ∈ p.toHandle ↔ id ∈ live
  handle_ne : ∀ id h, p.toHandle.lookup id = some h → h ≠ NULL
  isHandle : ∀ id ∈ live, isHandle id = true

/-- The pool has the targets of the ids in use. -/
structure Mirrors (target : Ptr → Ptr) (q : HandlePool) (live : Finset Ptr) : Prop
    extends LiveIds q live where
  value : ∀ id h, q.toHandle.lookup id = some h → h = target id

/-- What is no id stays as it is, and ids have targets. -/
structure TargetHandles (target : Ptr → Ptr) : Prop where
  plain : ∀ id, isHandle id = false → target id = id
  nonnull : ∀ id, isHandle id = true → target id ≠ NULL

theorem isHandle_null : isHandle NULL = false := by decide

theorem ne_null_of_isHandle {id : Ptr} (h : isHandle id = true) : id ≠ NULL := by
  rintro rfl
  rw [isHandle_null] at h
  cases h

theorem TargetHandles.null {target : Ptr → Ptr} (h : TargetHandles target) :
    target NULL = NULL := h.plain NULL isHandle_null

theorem liveIds_new : LiveIds HandlePool.new ∅ where
  inverse := fun _ _ => by simp [HandlePool.new]
  mem := fun _ => by simp [HandlePool.new]
  handle_ne := fun _ _ h => by simp [HandlePool.new] at h
  isHandle := fun _ h => by simp at h

namespace LiveIds

variable {p : HandlePool} {live : Finset Ptr} {id h : Ptr}

theorem lookup_of_mem (hp : LiveIds p live) (hid : id ∈ live) :
    ∃ h, p.toHandle.lookup id = some h :=
  (HashTable.mem_iff_lookup _ _).1 ((hp.mem id).2 hid)

theorem mem_of_lookup (hp : LiveIds p live) (hl : p.toHandle.lookup id = some h) : id ∈ live :=
  (hp.mem id).1 ((HashTable.mem_iff_lookup _ _).2 ⟨h, hl⟩)

theorem deref_eq (hp : LiveIds p live) (hl : p.toHandle.lookup id = some h) :
    p.deref id = some h := by
  have hhandle := hp.isHandle id (hp.mem_of_lookup hl)
  exact (HandlePool.deref_of_isHandle (ne_null_of_isHandle hhandle) hhandle).2
    ⟨hl, hp.handle_ne id h hl⟩

theorem derefAndRemove_eq (hp : LiveIds p live) (hl : p.toHandle.lookup id = some h) :
    p.derefAndRemove id = some (h, ⟨p.counter, p.toHandle.erase id, p.toId.erase h⟩) := by
  have hhandle := hp.isHandle id (hp.mem_of_lookup hl)
  have hmem : h ∈ p.toId := (HashTable.mem_iff_lookup _ _).2 ⟨id, (hp.inverse id h).1 hl⟩
  exact (HandlePool.derefAndRemove_eq_some_iff (ne_null_of_isHandle hhandle)).2
    ⟨hl, hp.handle_ne id h hl, hmem, rfl⟩

theorem erase (hp : LiveIds p live) (hl : p.toHandle.lookup id = some h) :
    LiveIds ⟨p.counter, p.toHandle.erase id, p.toId.erase h⟩ (live.erase id) where
  inverse := hp.inverse.erase hl
  mem := by
    intro id'
    rw [AList.mem_erase, Finset.mem_erase, hp.mem]
  handle_ne := by
    intro id' h' hl'
    rw [HashTable.lookup_erase_eq] at hl'
    split_ifs at hl'
    exact hp.handle_ne id' h' hl'
  isHandle := fun id' hid' => hp.isHandle id' (Finset.mem_of_mem_erase hid')

/-- The pool after an id was given to a handle, whatever the counter is then. -/
theorem insert (hp : LiveIds p live) (hid : id ∉ p.toHandle) (hh : h ∉ p.toId) (hne : h ≠ NULL)
    (hhandle : Ava.Endpoint.isHandle id = true) (c : UInt64) :
    LiveIds ⟨c, p.toHandle.insert id h, p.toId.insert h id⟩ (insert id live) where
  inverse := hp.inverse.insert hid hh
  mem := by
    intro id'
    rw [AList.mem_insert, Finset.mem_insert, hp.mem]
  handle_ne := by
    intro id' h' hl'
    rw [HashTable.lookup_insert_eq] at hl'
    split_ifs at hl'
    · cases hl'
      exact hne
    · exact hp.handle_ne id' h' hl'
  isHandle := by
    intro id' hid'
    rcases Finset.mem_insert.1 hid' with rfl | hid'
    · exact hhandle
    · exact hp.isHandle id' hid'

/-! ## One argument -/

variable {v : HandleValue}

/-- An argument with an id in use is translated to its handle. -/
theorem translateInput_of_lookup (hp : LiveIds p live) (hdir : v.direction = .input)
    (hl : p.toHandle.lookup v.id = some h) :
    translateInput p v = if h = v.handle then
      some (if v.deallocates then ⟨p.counter, p.toHandle.erase v.id, p.toId.erase h⟩ else p)
    else none := by
  rw [translateInput, hdir]
  cases hdel : v.deallocates with
  | false => simp [hp.deref_eq hl]
  | true => simp [hp.derefAndRemove_eq hl]

/-- An argument with an id that is not in use is passed through, or the process ends. -/
theorem translateInput_of_notMem (hp : LiveIds p live) (hdir : v.direction = .input)
    (hid : v.id ∉ live) :
    translateInput p v =
      if v.id = NULL ∨ v.deallocates = false ∧ Ava.Endpoint.isHandle v.id = false then
        if v.id = v.handle then some p else none
      else none := by
  have hnone : p.toHandle.lookup v.id = none :=
    AList.lookup_eq_none.2 fun hmem => hid ((hp.mem v.id).1 hmem)
  rw [translateInput, hdir]
  by_cases hnull : v.id = NULL
  · cases hdel : v.deallocates <;> simp [hnull, HandlePool.deref, HandlePool.derefAndRemove]
  · cases hdel : v.deallocates with
    | false =>
      cases hhandle : Ava.Endpoint.isHandle v.id <;>
        simp [hnull, HandlePool.deref, hhandle, hnone]
    | true => simp [hnull, HandlePool.derefAndRemove, hnone]

variable {p' : HandlePool}

/-- The translation of an argument takes its id. -/
theorem takeId_of_translateInput (hp : LiveIds p live) (h : translateInput p v = some p') :
    ∃ live', takeId live v = some live' ∧ LiveIds p' live' := by
  cases hdir : v.direction with
  | output =>
    rw [translateInput, hdir] at h
    cases h
    exact ⟨live, by rw [takeId, hdir], hp⟩
  | input =>
    by_cases hid : v.id ∈ live
    · obtain ⟨handle, hl⟩ := hp.lookup_of_mem hid
      rw [hp.translateInput_of_lookup hdir hl] at h
      split_ifs at h with heq hdel
      · cases h
        exact ⟨live.erase v.id, by simp [takeId, hdir, hid, hdel], hp.erase hl⟩
      · cases h
        exact ⟨live, by simp [takeId, hdir, hid, hdel], hp⟩
    · rw [hp.translateInput_of_notMem hdir hid] at h
      split_ifs at h with hplain heq
      cases h
      exact ⟨live, by simp only [takeId, hdir, if_neg hid, if_pos hplain], hp⟩

/-! ## One returned handle -/

variable {tag : UInt64}

/-- `lookup_or_insert` passes `NULL` through, finds the id of a handle, or makes one. -/
theorem lookupOrInsert_cases (hp : LiveIds p live)
    (hlookup : p.lookupOrInsert tag h = some (id, p')) :
    (id = NULL ∧ p' = p) ∨ (p.toHandle.lookup id = some h ∧ p' = p) ∨
      (h ≠ NULL ∧ h ∉ p.toId ∧ id ∉ p.toHandle ∧ id = (nextId tag p.counter).1 ∧
        p' = ⟨(nextId tag p.counter).2, p.toHandle.insert id h, p.toId.insert h id⟩) := by
  rw [HandlePool.lookupOrInsert] at hlookup
  split_ifs at hlookup with hnull
  · simp only [Option.some.injEq, Prod.mk.injEq] at hlookup
    exact .inl ⟨hlookup.1.symm.trans hnull, hlookup.2.symm⟩
  · cases hid : p.toId.lookup h with
    | none =>
      simp only [hid, Option.getD_none, if_true, HandlePool.internalInsert] at hlookup
      split_ifs at hlookup with hmem hmem'
      simp only [Option.some.injEq, Prod.mk.injEq] at hlookup
      obtain ⟨rfl, rfl⟩ := hlookup
      exact .inr (.inr ⟨hnull, hmem, hmem', rfl, rfl⟩)
    | some id' =>
      have hl := (hp.inverse id' h).2 hid
      have hne := ne_null_of_isHandle (hp.isHandle id' (hp.mem_of_lookup hl))
      simp only [hid, Option.getD_some, if_neg hne, Option.some.injEq, Prod.mk.injEq] at hlookup
      obtain ⟨rfl, rfl⟩ := hlookup
      exact .inr (.inl ⟨hl, rfl⟩)

theorem isHandle_nextId (tag c : UInt64) : Ava.Endpoint.isHandle (nextId tag c).1 = true :=
  isHandle_mkId tag _

/-- What the translation of a result does: nothing if it returns no handle, and otherwise what
`lookup_or_insert` does. -/
theorem translateOutput_cases (hp : LiveIds p live) (h : translateOutput tag p v = some p') :
    (¬ v.Returned ∧ p' = p) ∨ (v.Returned ∧ ((v.id = NULL ∧ p' = p) ∨
      (p.toHandle.lookup v.id = some v.handle ∧ p' = p) ∨
      (v.handle ≠ NULL ∧ v.handle ∉ p.toId ∧ v.id ∉ p.toHandle ∧
        v.id = (nextId tag p.counter).1 ∧ p' = ⟨(nextId tag p.counter).2,
          p.toHandle.insert v.id v.handle, p.toId.insert v.handle v.id⟩))) := by
  rw [translateOutput] at h
  cases hdir : v.direction with
  | input =>
    rw [hdir] at h
    cases h
    exact .inl ⟨fun hv => absurd (hdir.symm.trans hv.1) (by decide), rfl⟩
  | output =>
    rw [hdir] at h
    cases hdel : v.deallocates with
    | true =>
      simp only [hdel, if_true] at h
      cases h
      exact .inl ⟨fun hv => absurd (hdel.symm.trans hv.2) (by decide), rfl⟩
    | false =>
      simp only [hdel, Bool.false_eq_true, if_false] at h
      obtain ⟨⟨id, q⟩, hlookup, h⟩ := Option.bind_eq_some_iff.1 h
      split_ifs at h with hid
      cases h
      obtain rfl : id = v.id := hid
      exact .inr ⟨⟨hdir, hdel⟩, hp.lookupOrInsert_cases hlookup⟩

theorem giveId_eq (live : Finset Ptr) (v : HandleValue) :
    (¬ v.Returned ∨ v.id = NULL → giveId live v = some live) ∧
      (v.Returned → Ava.Endpoint.isHandle v.id = true →
        giveId live v = some (Insert.insert v.id live)) := by
  constructor
  · intro h
    cases hdir : v.direction with
    | input => rw [giveId, hdir]
    | output =>
      rw [giveId, hdir]
      refine if_pos (h.imp_left fun hnot => ?_)
      simpa [HandleValue.Returned, hdir] using hnot
  · rintro ⟨hdir, hdel⟩ hhandle
    simp [giveId, hdir, hdel, ne_null_of_isHandle hhandle, hhandle]

/-- The id of a returned handle is given to the guest. -/
theorem giveId_of_translateOutput (hp : LiveIds p live) (h : translateOutput tag p v = some p') :
    ∃ live', giveId live v = some live' ∧ LiveIds p' live' := by
  rcases hp.translateOutput_cases h with
    ⟨hnot, rfl⟩ | ⟨hv, ⟨hnull, rfl⟩ | ⟨hl, rfl⟩ | ⟨hne, hmem, hmem', hid, rfl⟩⟩
  · exact ⟨live, (giveId_eq live v).1 (.inl hnot), hp⟩
  · exact ⟨live, (giveId_eq live v).1 (.inr hnull), hp⟩
  · -- the handle is known, and so is its id
    have hlive := hp.mem_of_lookup hl
    refine ⟨live, ?_, hp⟩
    rw [(giveId_eq live v).2 hv (hp.isHandle v.id hlive), Finset.insert_eq_self.2 hlive]
  · have hhandle : Ava.Endpoint.isHandle v.id = true := by
      rw [hid]
      exact isHandle_nextId tag p.counter
    exact ⟨_, (giveId_eq live v).2 hv hhandle, hp.insert hmem' hmem hne hhandle _⟩

end LiveIds

/-! ## The target -/

section Target

variable {target : Ptr → Ptr} {q : HandlePool} {live live' : Finset Ptr} {v : HandleValue}

variable {id : Ptr}

theorem Mirrors.lookup_eq (hq : Mirrors target q live) (hid : id ∈ live) :
    q.toHandle.lookup id = some (target id) := by
  obtain ⟨h, hl⟩ := hq.lookup_of_mem hid
  rw [hl, hq.value id h hl]

theorem mirrors_new (target : Ptr → Ptr) : Mirrors target HandlePool.new ∅ where
  toLiveIds := liveIds_new
  value := fun _ _ h => by simp [HandlePool.new] at h

/-- In the replay an argument is translated to the target of its id. -/
theorem Mirrors.translateInput (htarget : TargetHandles target) (hq : Mirrors target q live)
    (h : takeId live v = some live') :
    ∃ q', Ava.Migration.translateInput q (v.onTarget target) = some q' ∧
      Mirrors target q' live' := by
  cases hdir : v.direction with
  | output =>
    rw [takeId, hdir] at h
    cases h
    exact ⟨q, by rw [Ava.Migration.translateInput, HandleValue.onTarget, hdir], hq⟩
  | input =>
    have hdir' : (v.onTarget target).direction = .input := hdir
    simp only [takeId, hdir] at h
    by_cases hid : v.id ∈ live
    · have hl := hq.lookup_eq hid
      rw [if_pos hid] at h
      cases h
      refine ⟨_, (hq.translateInput_of_lookup hdir' hl).trans (if_pos rfl), ?_⟩
      cases hdel : v.deallocates with
      | false => simpa [HandleValue.onTarget, hdel] using hq
      | true =>
        simp only [HandleValue.onTarget, hdel, if_true]
        refine ⟨hq.erase hl, ?_⟩
        intro id' h' hl'
        rw [HashTable.lookup_erase_eq] at hl'
        split_ifs at hl'
        exact hq.value id' h' hl'
    · rw [if_neg hid] at h
      split_ifs at h with hplain
      cases h
      refine ⟨q, ?_, hq⟩
      have hself : v.id = target v.id := by
        rcases hplain with hnull | ⟨-, hnot⟩
        · rw [hnull, htarget.null]
        · rw [htarget.plain _ hnot]
      exact (hq.translateInput_of_notMem hdir' hid).trans
        ((if_pos hplain).trans (if_pos hself))

/-- An id in use keeps its handle when it is assigned again. -/
theorem Mirrors.assign_again (hq : Mirrors target q live) (hid : id ∈ live)
    (htarget : TargetHandles target) :
    ∃ q', q.assignHandle id (target id) = some q' ∧ Mirrors target q' live ∧
      q'.toHandle = q.toHandle ∧ q'.counter = updateNextId q.counter id := by
  have hhandle := hq.isHandle id hid
  have hl := hq.lookup_eq hid
  have hne := ne_null_of_isHandle hhandle
  have hne' := htarget.nonnull id hhandle
  refine ⟨⟨updateNextId q.counter id, q.toHandle, q.toId.insert (target id) id⟩, ?_, ?_, rfl, rfl⟩
  · simp [HandlePool.assignHandle, hne, hne', hl]
  · exact ⟨⟨hq.inverse.insert_again hl, hq.mem, hq.handle_ne, hq.isHandle⟩, hq.value⟩

/-- An id that is not in use gets its target, which has no id yet. -/
theorem Mirrors.assign_new (hq : Mirrors target q live) (hid : id ∉ live)
    (hhandle : isHandle id = true) (htarget : TargetHandles target)
    (hapart : Set.InjOn target (insert id live : Finset Ptr)) :
    ∃ q', q.assignHandle id (target id) = some q' ∧ Mirrors target q' (insert id live) ∧
      q'.toHandle = q.toHandle.insert id (target id) ∧
      q'.counter = updateNextId q.counter id := by
  have hne := ne_null_of_isHandle hhandle
  have hne' := htarget.nonnull id hhandle
  have hnew : id ∉ q.toHandle := fun hmem => hid ((hq.mem id).1 hmem)
  have hnew' : target id ∉ q.toId := by
    intro hmem
    -- the object would be the target of two ids in use
    obtain ⟨id', hl'⟩ := (HashTable.mem_iff_lookup _ _).1 hmem
    have hl := (hq.inverse id' _).2 hl'
    have hid' := hq.mem_of_lookup hl
    have heq : id' = id := hapart (Finset.mem_coe.2 (Finset.mem_insert_of_mem hid'))
      (Finset.mem_coe.2 (Finset.mem_insert_self id live)) (hq.value id' _ hl).symm
    exact hid (heq ▸ hid')
  refine ⟨⟨updateNextId q.counter id, q.toHandle.insert id (target id),
    q.toId.insert (target id) id⟩,
    ?_, ⟨hq.toLiveIds.insert hnew hnew' hne' hhandle _, ?_⟩, rfl, rfl⟩
  · simp [HandlePool.assignHandle, hne, hne', AList.lookup_eq_none.2 hnew]
  · intro id' h' hl'
    rw [HashTable.lookup_insert_eq] at hl'
    split_ifs at hl' with heq
    · cases hl'
      rw [heq]
    · exact hq.value id' h' hl'

/-- In the replay the target of an id gets the id. -/
theorem Mirrors.replayOutput (htarget : TargetHandles target) (hq : Mirrors target q live)
    (hapart : Set.InjOn target live') (h : giveId live v = some live') :
    ∃ q', Ava.Migration.replayOutput target q v = some q' ∧ Mirrors target q' live' := by
  cases hdir : v.direction with
  | input =>
    rw [giveId, hdir] at h
    cases h
    exact ⟨q, by rw [Ava.Migration.replayOutput, hdir], hq⟩
  | output =>
    simp only [giveId, hdir] at h
    simp only [Ava.Migration.replayOutput, hdir]
    split_ifs at h with hskip hhandle
    · cases h
      refine ⟨q, ?_, hq⟩
      split_ifs with hdel
      · rfl
      · have hnull := hskip.resolve_left hdel
        simp [HandlePool.assignHandle, hnull, htarget.null]
    · cases h
      rw [if_neg fun hdel => hskip (.inl hdel)]
      by_cases hid : v.id ∈ live
      · obtain ⟨q', hassign, hq', -⟩ := hq.assign_again hid htarget
        rw [Finset.insert_eq_self.2 hid]
        exact ⟨q', hassign, hq'⟩
      · obtain ⟨q', hassign, hq', -⟩ := hq.assign_new hid hhandle htarget hapart
        exact ⟨q', hassign, hq'⟩

/-! ## Whole calls -/

theorem giveId_subset (h : giveId live v = some live') : live ⊆ live' := by
  cases hdir : v.direction with
  | input =>
    rw [giveId, hdir] at h
    cases h
    exact Finset.Subset.refl live
  | output =>
    simp only [giveId, hdir] at h
    split_ifs at h
    · cases h
      exact Finset.Subset.refl live
    · cases h
      exact Finset.subset_insert _ _

theorem giveIds_subset {vs : List HandleValue} (h : vs.foldlM giveId live = some live') :
    live ⊆ live' :=
  foldlM_keeps (I := (live ⊆ ·)) (fun _ _ _ _ hsub hgive => hsub.trans (giveId_subset hgive))
    (Finset.Subset.refl live) h

/-- The outputs of a call. At the end of the call the ids in use have different targets, and there
are no more ids in use before. -/
theorem Mirrors.replayOutputs (htarget : TargetHandles target) (hapart : Set.InjOn target live')
    {vs : List HandleValue} (hq : Mirrors target q live) (h : vs.foldlM giveId live = some live') :
    ∃ q', vs.foldlM (Ava.Migration.replayOutput target) q = some q' ∧ Mirrors target q' live' := by
  induction vs generalizing live q with
  | nil =>
    cases h
    exact ⟨q, rfl, hq⟩
  | cons v vs ih =>
    rw [List.foldlM_cons] at h
    obtain ⟨mid, hmid, hrest⟩ := Option.bind_eq_some_iff.1 h
    have hsub : mid ⊆ live' := giveIds_subset hrest
    obtain ⟨q₁, hq₁, hmirrors⟩ :=
      hq.replayOutput htarget (hapart.mono (Finset.coe_subset.2 hsub)) hmid
    obtain ⟨q₂, hq₂, hmirrors₂⟩ := ih hmirrors hrest
    exact ⟨q₂, by rw [List.foldlM_cons, hq₁]; exact hq₂, hmirrors₂⟩

/-- A call is replayed if the ids that it takes are in use. -/
theorem Mirrors.replayCall (htarget : TargetHandles target) {c : ApiCall}
    (hapart : Set.InjOn target live') (hq : Mirrors target q live)
    (h : idsCall live c = some live') :
    ∃ q', Ava.Migration.replayCall target q c = some q' ∧ Mirrors target q' live' := by
  obtain ⟨mid, hmid, hrest⟩ := Option.bind_eq_some_iff.1 h
  obtain ⟨q₁, hq₁, hmirrors⟩ := foldlM_follows (R := fun l q => Mirrors target q l)
    (g := fun q v => Ava.Migration.translateInput q (v.onTarget target))
    (fun v _ l q l' hq hl => hq.translateInput htarget hl) hq hmid
  obtain ⟨q₂, hq₂, hmirrors₂⟩ := hmirrors.replayOutputs htarget hapart hrest
  refine ⟨q₂, ?_, hmirrors₂⟩
  rw [Ava.Migration.replayCall, List.foldlM_map, hq₁]
  exact hq₂

/-- Throughout the calls, the ids in use have different targets. -/
def KeptApart (target : Ptr → Ptr) : Finset Ptr → List ApiCall → Prop
  | _, [] => True
  | live, c :: cs => ∀ live' ∈ idsCall live c, Set.InjOn target live' ∧ KeptApart target live' cs

/-- Calls that supply the ids they take are replayed to the end, from a pool that mirrors the ids in
use. -/
theorem Mirrors.replayCalls (htarget : TargetHandles target) {cs : List ApiCall}
    (hapart : KeptApart target live cs) (hq : Mirrors target q live)
    (h : cs.foldlM idsCall live = some live') :
    ∃ q', cs.foldlM (Ava.Migration.replayCall target) q = some q' ∧ Mirrors target q' live' := by
  induction cs generalizing live q with
  | nil =>
    cases h
    exact ⟨q, rfl, hq⟩
  | cons c cs ih =>
    rw [List.foldlM_cons] at h
    obtain ⟨mid, hmid, hrest⟩ := Option.bind_eq_some_iff.1 h
    obtain ⟨hinj, hapart⟩ := hapart mid hmid
    obtain ⟨q₁, hq₁, hmirrors⟩ := hq.replayCall htarget hinj hmid
    obtain ⟨q₂, hq₂, hmirrors₂⟩ := ih hapart hmirrors hrest
    exact ⟨q₂, by rw [List.foldlM_cons, hq₁]; exact hq₂, hmirrors₂⟩

end Target

/-- A list of calls in which no call takes an id that the calls before it do not supply can be
replayed on a new worker: the replay does not abort, the native functions get the targets of the ids
in the recorded calls, and in the end every id in use stands for its target, and no other id for
anything. -/
theorem self_contained_calls_replay {target : Ptr → Ptr} (htarget : TargetHandles target)
    {cs : List ApiCall} {live : Finset Ptr} (hrun : cs.foldlM idsCall ∅ = some live)
    (hapart : KeptApart target ∅ cs) :
    ∃ q, cs.foldlM (replayCall target) HandlePool.new = some q ∧
      (∀ id, q.toHandle.lookup id = if id ∈ live then some (target id) else none) ∧
      ∀ h id, q.toId.lookup h = some id ↔ id ∈ live ∧ h = target id := by
  obtain ⟨q, hq, hmirrors⟩ := (mirrors_new target).replayCalls htarget hapart hrun
  have hlookup : ∀ id, q.toHandle.lookup id = if id ∈ live then some (target id) else none := by
    intro id
    split_ifs with hid
    · exact hmirrors.lookup_eq hid
    · exact AList.lookup_eq_none.2 fun hmem => hid ((hmirrors.mem id).1 hmem)
  refine ⟨q, hq, hlookup, ?_⟩
  intro h id
  rw [← hmirrors.inverse id h, hlookup id]
  split_ifs with hid
  · simp [hid, eq_comm]
  · simp [hid]

/-! ## The history of a worker -/

section History

variable {tag : UInt64} {s s' : ApiWorker} {c : ApiCall} {cs : List ApiCall} {live : Finset Ptr}

theorem callPool_of_apiStep (h : apiStep tag s c = some s') :
    callPool tag s.pool c = some s'.pool := by
  obtain ⟨p, hp, h⟩ := Option.bind_eq_some_iff.1 h
  obtain ⟨p', hp', h⟩ := Option.bind_eq_some_iff.1 h
  obtain ⟨r, -, h⟩ := Option.bind_eq_some_iff.1 h
  obtain ⟨hist, -, h⟩ := Option.bind_eq_some_iff.1 h
  cases h
  exact Option.bind_eq_some_iff.2 ⟨p, hp, hp'⟩

variable {p p' : HandlePool}

/-- A call that a worker handles does to the ids in use what `idsCall` says. -/
theorem idsCall_of_callPool (hp : LiveIds p live) (h : callPool tag p c = some p') :
    ∃ live', idsCall live c = some live' ∧ LiveIds p' live' := by
  obtain ⟨p₁, hp₁, h⟩ := Option.bind_eq_some_iff.1 h
  obtain ⟨live₁, hlive₁, hids₁⟩ := foldlM_follows (R := LiveIds)
    (f := translateInput) (g := takeId)
    (fun v _ p live p' hp hv => hp.takeId_of_translateInput hv) hp hp₁
  obtain ⟨live₂, hlive₂, hids₂⟩ := foldlM_follows (R := LiveIds)
    (f := translateOutput tag) (g := giveId)
    (fun v _ p live p' hp hv => hp.giveId_of_translateOutput hv) hids₁ h
  exact ⟨live₂, Option.bind_eq_some_iff.2 ⟨live₁, hlive₁, hlive₂⟩, hids₂⟩

/-- The calls that a worker has handled supply the ids that they take. -/
theorem idsCalls_of_run (hs : LiveIds s.pool live) (h : cs.foldlM (apiStep tag) s = some s') :
    ∃ live', cs.foldlM idsCall live = some live' ∧ LiveIds s'.pool live' :=
  foldlM_follows (R := fun s live => LiveIds s.pool live)
    (fun _ _ _ _ _ hs hc => idsCall_of_callPool hs (callPool_of_apiStep hc)) hs h

/-! ## The numbers of the ids -/

/-- The counter has made at most `n` ids, and those of the pool are among them. -/
structure Counted (tag : UInt64) (p : HandlePool) (n : Nat) : Prop where
  lower : 64 ≤ p.counter.toNat
  upper : p.counter.toNat ≤ 64 + n
  issued : ∀ id ∈ p.toHandle, IssuedId tag p.counter id

theorem counted_new (tag : UInt64) : Counted tag HandlePool.new 0 where
  lower := counterCountMin_toNat.ge
  upper := counterCountMin_toNat.le
  issued := fun _ h => by simp [HandlePool.new] at h

variable {v : HandleValue}

/-- The translation of an argument leaves the counter and makes no ids. -/
theorem translateInput_shrinks (h : translateInput p v = some p') :
    p'.counter = p.counter ∧ ∀ id, id ∈ p'.toHandle → id ∈ p.toHandle := by
  rw [translateInput] at h
  cases hdir : v.direction with
  | output =>
    rw [hdir] at h
    cases h
    exact ⟨rfl, fun _ hid => hid⟩
  | input =>
    rw [hdir] at h
    cases hdel : v.deallocates with
    | false =>
      simp only [hdel, Bool.false_eq_true, if_false] at h
      obtain ⟨handle, -, hq⟩ := Option.bind_eq_some_iff.1 h
      split_ifs at hq
      cases hq
      exact ⟨rfl, fun _ hid => hid⟩
    | true =>
      simp only [hdel, if_true] at h
      obtain ⟨⟨handle, p₁⟩, hrem, hq⟩ := Option.bind_eq_some_iff.1 h
      split_ifs at hq
      cases hq
      by_cases hnull : v.id = NULL
      · rw [HandlePool.derefAndRemove, if_pos hnull] at hrem
        cases hrem
        exact ⟨rfl, fun _ hid => hid⟩
      · obtain ⟨-, -, -, rfl⟩ := (HandlePool.derefAndRemove_eq_some_iff hnull).1 hrem
        exact ⟨rfl, fun _ hid => (AList.mem_erase.1 hid).2⟩

theorem Counted.inputs {n : Nat} (hp : Counted tag p n) {vs : List HandleValue}
    (h : vs.foldlM translateInput p = some p') : Counted tag p' n :=
  foldlM_keeps (I := fun p => Counted tag p n) (fun _ _ _ _ hp hv => by
    obtain ⟨hcounter, hmem⟩ := translateInput_shrinks hv
    refine ⟨hcounter ▸ hp.lower, hcounter ▸ hp.upper, fun id hid => ?_⟩
    rw [hcounter]
    exact hp.issued id (hmem id hid)) hp h

/-- A returned handle moves the counter by one at most, and has an id that the counter has made. -/
theorem Counted.output {n : Nat} (hp : Counted tag p n) (hlive : LiveIds p live) (hn : n < 2 ^ 36)
    (h : translateOutput tag p v = some p') :
    Counted tag p' (n + 1) ∧ p.counter.toNat ≤ p'.counter.toNat ∧
      (v.Returned → v.id = NULL ∨ IssuedId tag p'.counter v.id) := by
  have hsame : Counted tag p (n + 1) := ⟨hp.lower, hp.upper.trans (Nat.le_succ _), hp.issued⟩
  rcases hlive.translateOutput_cases h with
    ⟨hnot, rfl⟩ | ⟨-, ⟨hnull, rfl⟩ | ⟨hl, rfl⟩ | ⟨hne, hmem, hmem', hid, rfl⟩⟩
  · exact ⟨hsame, Nat.le_refl _, fun hv => absurd hv hnot⟩
  · exact ⟨hsame, Nat.le_refl _, fun _ => .inl hnull⟩
  · refine ⟨hsame, Nat.le_refl _, fun _ => .inr (hp.issued v.id ?_)⟩
    exact (HashTable.mem_iff_lookup _ _).2 ⟨_, hl⟩
  · have hlower := hp.lower
    have hupper := hp.upper
    have hcounter : (p.counter + 1).toNat = p.counter.toNat + 1 := by
      have hone : (1 : UInt64).toNat = 1 := by decide
      rw [UInt64.toNat_add, hone]
      omega
    rw [nextId_of_min_le tag hp.lower] at hid ⊢
    have hissued : IssuedId tag (p.counter + 1) v.id :=
      ⟨p.counter, hp.lower, by rw [hcounter]; exact Nat.lt_succ_self _, hid⟩
    have hle : p.counter.toNat ≤ (p.counter + 1).toNat := by omega
    refine ⟨⟨hp.lower.trans hle, by rw [hcounter]; omega, ?_⟩, hle, fun _ => .inr hissued⟩
    intro id' hid'
    rcases (AList.mem_insert _).1 hid' with rfl | hid'
    · exact hissued
    · exact (hp.issued id' hid').mono hle

/-- The ids that a call returns are made by the counter. -/
theorem Counted.outputs {vs : List HandleValue} :
    ∀ {p p' : HandlePool} {n : Nat} {live : Finset Ptr}, Counted tag p n → LiveIds p live →
      n + vs.length < 2 ^ 36 → vs.foldlM (translateOutput tag) p = some p' →
        Counted tag p' (n + vs.length) ∧ p.counter.toNat ≤ p'.counter.toNat ∧
          ∀ v ∈ vs, v.Returned → v.id = NULL ∨ IssuedId tag p'.counter v.id := by
  induction vs with
  | nil =>
    intro p p' n live hp _ _ h
    cases h
    exact ⟨hp, Nat.le_refl _, fun v hv => absurd hv List.not_mem_nil⟩
  | cons v vs ih =>
    intro p p' n live hp hlive hn h
    rw [List.length_cons] at hn
    rw [List.foldlM_cons] at h
    obtain ⟨p₁, hp₁, hrest⟩ := Option.bind_eq_some_iff.1 h
    obtain ⟨hcounted, hle, hfirst⟩ := hp.output hlive (by omega) hp₁
    obtain ⟨live₁, -, hlive₁⟩ := hlive.giveId_of_translateOutput hp₁
    obtain ⟨hcounted', hle', hothers⟩ := ih hcounted hlive₁ (by omega) hrest
    rw [List.length_cons, ← Nat.add_assoc, Nat.add_right_comm]
    refine ⟨hcounted', hle.trans hle', ?_⟩
    intro u hu hreturned
    rcases List.mem_cons.1 hu with rfl | hu
    · rcases hfirst hreturned with hnull | hissued
      · exact .inl hnull
      · exact .inr (hissued.mono hle')
    · exact hothers u hu hreturned

/-- The id has a number, and the number is not the last one. -/
def Numbered (tag : UInt64) (id : Ptr) : Prop :=
  ∃ k : UInt64, id = mkId tag k ∧ counterNumber k + 1 < 2 ^ 36

variable {id : Ptr}

theorem numbered_of_issuedId {counter : UInt64} (h : IssuedId tag counter id)
    (hcounter : counter.toNat < 2 ^ 36) : Numbered tag id := by
  obtain ⟨k, -, hlt, rfl⟩ := h
  refine ⟨k, rfl, ?_⟩
  rw [counterNumber]
  omega

/-- How many handles the calls return, at most. -/
def returnedHandles (cs : List ApiCall) : Nat :=
  (cs.map fun c => (c.result ++ c.args).length).sum

/-- The ids that the calls of a worker return have numbers. -/
theorem numbered_of_run :
    ∀ {cs : List ApiCall} {s : ApiWorker} {n : Nat} {live : Finset Ptr}, Counted tag s.pool n →
      LiveIds s.pool live → 64 + n + returnedHandles cs < 2 ^ 36 →
      cs.foldlM (apiStep tag) s = some s' →
        ∀ c ∈ cs, ∀ v ∈ c.result ++ c.args, v.Returned → v.id = NULL ∨ Numbered tag v.id := by
  intro cs
  induction cs with
  | nil =>
    intro s n live _ _ _ _ c hc
    cases hc
  | cons c cs ih =>
    intro s n live hs hlive hn h
    rw [returnedHandles, List.map_cons, List.sum_cons, ← returnedHandles] at hn
    rw [List.foldlM_cons] at h
    obtain ⟨s₁, hs₁, hrest⟩ := Option.bind_eq_some_iff.1 h
    have hcall := callPool_of_apiStep hs₁
    obtain ⟨p₁, hp₁, hp₂⟩ := Option.bind_eq_some_iff.1 hcall
    obtain ⟨live₁, -, hlive₁⟩ := foldlM_follows (R := LiveIds) (f := translateInput) (g := takeId)
      (fun v _ p live p' hp hv => hp.takeId_of_translateInput hv) hlive hp₁
    obtain ⟨hcounted, -, hissued⟩ := (hs.inputs hp₁).outputs hlive₁ (by omega) hp₂
    obtain ⟨live₂, -, hlive₂⟩ := idsCall_of_callPool hlive hcall
    have hupper := hcounted.upper
    intro d hd v hv hreturned
    rcases List.mem_cons.1 hd with rfl | hd
    · rcases hissued v hv hreturned with hnull | hissued
      · exact .inl hnull
      · exact .inr (numbered_of_issuedId hissued (by omega))
    · exact ih hcounted hlive₂ (by omega) hrest d hd v hv hreturned

/-! ## The counter of the new worker -/

/-- The counter is past the ids of the pool. It was never raised, or it is in the range to which
`update_next_id` raises it. -/
structure Ahead (tag : UInt64) (q : HandlePool) : Prop where
  behind : ∀ id ∈ q.toHandle, ∃ k : UInt64, id = mkId tag k ∧
    counterNumber k < counterNumber q.counter
  range : (q.counter = counterCountMin ∧ ∀ id, id ∉ q.toHandle) ∨
    (15 * 2 ^ 36 ≤ q.counter.toNat ∧ q.counter.toNat < 16 * 2 ^ 36)

theorem ahead_new (tag : UInt64) : Ahead tag HandlePool.new where
  behind := fun _ h => by simp [HandlePool.new] at h
  range := .inl ⟨rfl, fun _ => by simp [HandlePool.new]⟩

variable {q q' : HandlePool}

theorem Ahead.input (hq : Ahead tag q) (h : translateInput q v = some q') : Ahead tag q' := by
  obtain ⟨hcounter, hmem⟩ := translateInput_shrinks h
  refine ⟨fun id hid => ?_, ?_⟩
  · rw [hcounter]
    exact hq.behind id (hmem id hid)
  · rw [hcounter]
    exact hq.range.imp_left fun hnew => ⟨hnew.1, fun id hid => hnew.2 id (hmem id hid)⟩

variable {h : Ptr}

/-- The counter that `update_next_id` leaves is past the id, and not below what it was. -/
theorem updateNextId_ahead (htag : tag.toNat < 16) {counter k : UInt64}
    (hk : counterNumber k + 1 < 2 ^ 36)
    (hrange : counter = counterCountMin ∨
      (15 * 2 ^ 36 ≤ counter.toNat ∧ counter.toNat < 16 * 2 ^ 36)) :
    15 * 2 ^ 36 ≤ (updateNextId counter (mkId tag k)).toNat ∧
      (updateNextId counter (mkId tag k)).toNat < 16 * 2 ^ 36 ∧
      counterNumber k < counterNumber (updateNextId counter (mkId tag k)) ∧
      (counter = counterCountMin ∨
        counterNumber counter ≤ counterNumber (updateNextId counter (mkId tag k))) := by
  have htarget := updateTarget_toNat tag k htag
  rw [if_pos hk] at htarget
  rw [updateNextId]
  split_ifs with hlt
  · rw [UInt64.lt_iff_toNat_lt, htarget] at hlt
    refine ⟨by omega, by omega, ?_, hrange.imp_right fun hcounter => ?_⟩
    · rw [counterNumber, counterNumber] at *
      omega
    · rw [counterNumber, counterNumber] at *
      omega
  · rw [UInt64.lt_iff_toNat_lt, htarget] at hlt
    have hcounter : 15 * 2 ^ 36 ≤ counter.toNat ∧ counter.toNat < 16 * 2 ^ 36 := by
      rcases hrange with rfl | hrange
      · rw [counterCountMin_toNat] at hlt
        omega
      · exact hrange
    refine ⟨hcounter.1, hcounter.2, ?_, .inr (Nat.le_refl _)⟩
    rw [counterNumber, counterNumber] at *
    omega

/-- An assignment raises the counter past the assigned id, and leaves it past the others. -/
theorem Ahead.assign (htag : tag.toNat < 16) (hq : Ahead tag q) (hid : id = NULL ∨ Numbered tag id)
    (hassign : q.assignHandle id h = some q') : Ahead tag q' := by
  rcases HandlePool.assignHandle_cases hassign with ⟨-, -, rfl⟩ | ⟨hnull, -, htables⟩
  · exact hq
  obtain ⟨k, rfl, hk⟩ := hid.resolve_left hnull
  have hcounter : q'.counter = updateNextId q.counter (mkId tag k) := by
    rcases htables with rfl | ⟨-, rfl⟩ <;> rfl
  have hmem : ∀ id' ∈ q'.toHandle, id' = mkId tag k ∨ id' ∈ q.toHandle := by
    rcases htables with rfl | ⟨-, rfl⟩
    · exact fun id' hid' => (AList.mem_insert _).1 hid'
    · exact fun id' hid' => .inr hid'
  obtain ⟨hlower, hupper, hpast, hkept⟩ :=
    updateNextId_ahead htag hk (hq.range.imp_left And.left)
  rw [← hcounter] at hlower hupper hpast hkept
  refine ⟨fun id' hid' => ?_, .inr ⟨hlower, hupper⟩⟩
  rcases hmem id' hid' with rfl | hid'
  · exact ⟨k, rfl, hpast⟩
  · obtain ⟨k', rfl, hk'⟩ := hq.behind id' hid'
    refine ⟨k', rfl, hk'.trans_le ?_⟩
    rcases hkept with hmin | hle
    · -- a counter that was never raised belongs to an empty pool
      rcases hq.range with ⟨-, hempty⟩ | ⟨hrange, -⟩
      · exact absurd hid' (hempty _)
      · rw [hmin, counterCountMin_toNat] at hrange
        omega
    · exact hle

theorem Ahead.replayCall (htag : tag.toNat < 16) {target : Ptr → Ptr} (hq : Ahead tag q)
    (hids : ∀ v ∈ c.result ++ c.args, v.Returned → v.id = NULL ∨ Numbered tag v.id)
    (h : Ava.Migration.replayCall target q c = some q') : Ahead tag q' := by
  obtain ⟨q₁, hq₁, hq₂⟩ := Option.bind_eq_some_iff.1 h
  have hinputs : Ahead tag q₁ :=
    foldlM_keeps (I := Ahead tag) (fun _ _ _ _ hq hv => hq.input hv) hq hq₁
  refine foldlM_keeps (I := Ahead tag) (fun v hv r r' hr hout => ?_) hinputs hq₂
  cases hdir : v.direction with
  | input =>
    rw [replayOutput, hdir] at hout
    cases hout
    exact hr
  | output =>
    simp only [replayOutput, hdir] at hout
    split_ifs at hout with hdel
    · cases hout
      exact hr
    · exact hr.assign htag (hids v hv ⟨hdir, by simpa using hdel⟩) hout

/-- The next id is not in the pool. -/
theorem Ahead.lookupOrInsert (htag : tag.toNat < 16) (hq : Ahead tag q) (hne : h ≠ NULL)
    (hnew : h ∉ q.toId) :
    mkId tag q.counter ∉ q.toHandle ∧
      q.lookupOrInsert tag h = some (mkId tag q.counter, ⟨q.counter + 1,
        q.toHandle.insert (mkId tag q.counter) h, q.toId.insert h (mkId tag q.counter)⟩) := by
  have hfresh : mkId tag q.counter ∉ q.toHandle := by
    intro hmem
    obtain ⟨k, heq, hlt⟩ := hq.behind _ hmem
    rw [mkId_inj_iff tag _ _ htag] at heq
    omega
  have hlower : 64 ≤ q.counter.toNat := by
    rcases hq.range with ⟨hmin, -⟩ | ⟨hrange, -⟩
    · rw [hmin, counterCountMin_toNat]
    · omega
  refine ⟨hfresh, ?_⟩
  simp only [HandlePool.lookupOrInsert, if_neg hne, AList.lookup_eq_none.2 hnew, Option.getD_none,
    if_true, HandlePool.internalInsert, nextId_of_min_le tag hlower, if_neg hnew, if_neg hfresh]

end History

/-- Different ids that are in use have different targets, if this is true of all ids. -/
theorem keptApart_of_injective {target : Ptr → Ptr} (h : Function.Injective target)
    (cs : List ApiCall) (live : Finset Ptr) : KeptApart target live cs := by
  induction cs generalizing live with
  | nil => trivial
  | cons c cs ih => exact fun live' _ => ⟨h.injOn, ih live'⟩

/-- A child is created from its parent, and the parent is destroyed. -/
theorem self_contained_calls_replay_child :
    [createParent, createChild, destroyParent].foldlM idsCall ∅ = some {mkId 1 65} ∧
      ∃ q, [createParent, createChild, destroyParent].foldlM (replayCall id) HandlePool.new = some q ∧
        q.toHandle.lookup (mkId 1 65) = some (mkId 1 65) := by
  have htarget : TargetHandles id := ⟨fun _ _ => rfl, fun _ h => ne_null_of_isHandle h⟩
  have hrun : [createParent, createChild, destroyParent].foldlM idsCall ∅ = some {mkId 1 65} := by
    decide
  obtain ⟨q, hq, hlookup, -⟩ := self_contained_calls_replay htarget hrun
    (keptApart_of_injective Function.injective_id _ _)
  exact ⟨hrun, q, hq, hlookup (mkId 1 65)⟩

/-- A worker that replays the whole history of another one takes its place: the replay does not
abort, exactly the ids that the guest has in use are known in the end, each of them stands for its
target, and a handle that the new worker has no id for gets one that the guest does not use, with no
effect on the others. -/
theorem replayed_worker_takes_over {tag : UInt64} (htag : tag.toNat < 16) {target : Ptr → Ptr}
    (htarget : TargetHandles target) {cs : List ApiCall} {s : ApiWorker}
    (hrun : cs.foldlM (apiStep tag) ApiWorker.new = some s)
    (hbound : 64 + returnedHandles cs < 2 ^ 36) (hapart : KeptApart target ∅ cs) :
    ∃ q, cs.foldlM (replayCall target) HandlePool.new = some q ∧
      (∀ id, id ∈ q.toHandle ↔ id ∈ s.pool.toHandle) ∧
      (∀ id ∈ s.pool.toHandle, q.deref id = some (target id)) ∧
      ∀ h, h ≠ NULL → h ∉ q.toId → ∃ id q', q.lookupOrInsert tag h = some (id, q') ∧
        id ∉ s.pool.toHandle ∧ q'.deref id = some h ∧
        ∀ id' ∈ s.pool.toHandle, q'.deref id' = some (target id') := by
  obtain ⟨live, hlive, hids⟩ := idsCalls_of_run liveIds_new hrun
  obtain ⟨q, hq, hmirrors⟩ := (mirrors_new target).replayCalls htarget hapart hlive
  have hmem : ∀ id, id ∈ q.toHandle ↔ id ∈ s.pool.toHandle := by
    intro id
    rw [hmirrors.mem, hids.mem]
  have hderef : ∀ id ∈ s.pool.toHandle, q.deref id = some (target id) := by
    intro id hid
    exact hmirrors.deref_eq (hmirrors.lookup_eq ((hids.mem id).1 hid))
  refine ⟨q, hq, hmem, hderef, ?_⟩
  intro h hne hnew
  have hnumbered := numbered_of_run (counted_new tag) liveIds_new hbound hrun
  have hahead : Ahead tag q := foldlM_keeps (I := Ahead tag)
    (fun c hc _ _ hr hcall => hr.replayCall htag (hnumbered c hc) hcall) (ahead_new tag) hq
  obtain ⟨hfresh, hinsert⟩ := hahead.lookupOrInsert htag hne hnew
  have hnext := hmirrors.toLiveIds.insert hfresh hnew hne (isHandle_mkId tag q.counter)
    (q.counter + 1)
  refine ⟨_, _, hinsert, fun hid => hfresh ((hmem _).2 hid), ?_, ?_⟩
  · exact hnext.deref_eq (AList.lookup_insert _)
  · intro id' hid'
    have hne' : id' ≠ mkId tag q.counter := by
      rintro rfl
      exact hfresh ((hmem _).2 hid')
    refine hnext.deref_eq ?_
    rw [HashTable.lookup_insert_eq, if_neg hne']
    exact hmirrors.lookup_eq ((hids.mem id').1 hid')

/-- A parent and a child are created again. -/
theorem replayed_worker_takes_over_child :
    ∃ s, [createParent, createChild].foldlM (apiStep 1) ApiWorker.new = some s ∧
      mkId 1 64 ∈ s.pool.toHandle ∧
      ∃ q, [createParent, createChild].foldlM (replayCall id) HandlePool.new = some q ∧
        q.deref (mkId 1 64) = some (mkId 1 64) := by
  have htarget : TargetHandles id := ⟨fun _ _ => rfl, fun _ h => ne_null_of_isHandle h⟩
  have hrun : [createParent, createChild].foldlM (apiStep 1) ApiWorker.new = some _ := rfl
  obtain ⟨q, hq, -, hderef, -⟩ := replayed_worker_takes_over (by decide) htarget hrun (by decide)
    (keptApart_of_injective Function.injective_id _ _)
  exact ⟨_, hrun, by decide, q, hq, hderef _ (by decide)⟩

end Ava.Migration
