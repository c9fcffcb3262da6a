import Ava.Endpoint.Ids
import Ava.Lib.HashTable

/-!
# The handle pool

`nw_handle_pool` translates the handles of the native library to the ids the guest sees and back.
It keeps two hash tables, from handles to ids and from ids to handles, and draws new ids from the
global counter. The operations below are those of `common/endpoint_lib.c` on a pool that is not
`NULL`; a failed `assert` or `AVA_CHECK_RET` aborts the process and is `none`.

`assign` may map several ids to one handle, and it may map an id without the handle prefix. The
two tables are then no longer inverse, and `derefAndRemove`, which also lacks the `is_handle` test
of `deref`, fails on ids that `deref` accepts. `derefAndRemove_agrees_along_runs` says on which ids
it works, in every pool that the operations reach, as long as an id is removed only while no other id
has its handle; and that this condition on the operations cannot be dropped.
-/

set_option autoImplicit false

namespace Ava.Endpoint

open Ava.Lib

/-- A handle pool next to the global counter its ids come from. -/
structure HandlePool where
  counter : UInt64
  toHandle : HashTable Ptr Ptr
  toId : HashTable Ptr Ptr

namespace HandlePool

/-- `nw_handle_pool_new`, at the start of the process. -/
def new : HandlePool := ⟨counterCountMin, ∅, ∅⟩

/-- `internal_handle_pool_insert`. Both insertions assert that the key is new. -/
def internalInsert (tag : UInt64) (p : HandlePool) (handle : Ptr) : Option (Ptr × HandlePool) :=
  let r := nextId tag p.counter
  if handle ∈ p.toId then none
  else if r.1 ∈ p.toHandle then none
  else some (r.1, ⟨r.2, p.toHandle.insert r.1 handle, p.toId.insert handle r.1⟩)

/-- `nw_handle_pool_insert`. -/
def insert (tag : UInt64) (p : HandlePool) (handle : Ptr) : Option (Ptr × HandlePool) :=
  if handle = NULL then some (handle, p) else internalInsert tag p handle

/-- `nw_handle_pool_lookup_or_insert`. A lookup of an absent key gives `NULL`. -/
def lookupOrInsert (tag : UInt64) (p : HandlePool) (handle : Ptr) : Option (Ptr × HandlePool) :=
  if handle = NULL then some (handle, p)
  else
    let id := (p.toId.lookup handle).getD NULL
    if id = NULL then internalInsert tag p handle else some (id, p)

/-- `nw_handle_pool_get_live_handles`. -/
def getLiveHandles (p : HandlePool) : List Ptr := p.toId.keys

/-- `nw_handle_pool_deref`. A value without the handle prefix is passed through. -/
def deref (p : HandlePool) (id : Ptr) : Option Ptr :=
  if id = NULL ∨ isHandle id = false then some id
  else
    let handle := (p.toHandle.lookup id).getD NULL
    if handle = NULL then none else some handle

/-- `nw_handle_pool_deref_and_remove`. There is no `is_handle` test. The handle has to be a key of
`to_id`, and the entry removed there is the handle's, whichever id it holds. -/
def derefAndRemove (p : HandlePool) (id : Ptr) : Option (Ptr × HandlePool) :=
  if id = NULL then some (id, p)
  else
    let handle := (p.toHandle.lookup id).getD NULL
    if handle = NULL then none
    else if handle ∈ p.toId then
      some (handle, ⟨p.counter, p.toHandle.erase id, p.toId.erase handle⟩)
    else none

/-- `nw_handle_pool_assign_handle`. The handle's entry in `to_id` is overwritten; an id that
already has this handle keeps its entry in `to_handle`. -/
def assignHandle (p : HandlePool) (id handle : Ptr) : Option HandlePool :=
  if (id = NULL) ≠ (handle = NULL) then none
  else if id = NULL then some p
  else
    let counter := updateNextId p.counter id
    let old := (p.toHandle.lookup id).getD NULL
    if old = NULL then some ⟨counter, p.toHandle.insert id handle, p.toId.insert handle id⟩
    else if old = handle then some ⟨counter, p.toHandle, p.toId.insert handle id⟩
    else none

end HandlePool

/-- The operations of a process on its pool. `issue` is a call of `next_id` that does not go
through the pool, as `ava_shadow_buffer_new_solid` makes it. -/
inductive PoolOp where
  | insert (handle : Ptr)
  | lookupOrInsert (handle : Ptr)
  | derefAndRemove (id : Ptr)
  | assignHandle (id handle : Ptr)
  | issue
deriving DecidableEq

/-- One operation; the id or handle it returns is dropped. -/
def poolStep (tag : UInt64) (p : HandlePool) : PoolOp → Option HandlePool
  | .insert handle => (p.insert tag handle).map Prod.snd
  | .lookupOrInsert handle => (p.lookupOrInsert tag handle).map Prod.snd
  | .derefAndRemove id => (p.derefAndRemove id).map Prod.snd
  | .assignHandle id handle => p.assignHandle id handle
  | .issue => some { p with counter := (nextId tag p.counter).2 }

/-- An id without the prefix is assigned to itself only, and an id is removed only while no other id
has its handle. Several ids may be assigned to one handle. -/
def PoolOp.unshared (p : HandlePool) : PoolOp → Prop
  | .assignHandle id handle => isHandle id = true ∨ handle = id
  | .derefAndRemove id =>
    ∀ id' ∈ p.toHandle.keys, p.toHandle.lookup id' = p.toHandle.lookup id → id' = id
  | .insert _ | .lookupOrInsert _ | .issue => True

instance PoolOp.decidableUnshared (p : HandlePool) : ∀ op : PoolOp, Decidable (op.unshared p)
  | .assignHandle id handle => inferInstanceAs (Decidable (isHandle id = true ∨ handle = id))
  | .derefAndRemove id => List.decidableBAll
      (fun id' => p.toHandle.lookup id' = p.toHandle.lookup id → id' = id) p.toHandle.keys
  | .insert _ => inferInstanceAs (Decidable True)
  | .lookupOrInsert _ => inferInstanceAs (Decidable True)
  | .issue => inferInstanceAs (Decidable True)

namespace HandlePool

variable {p p' : HandlePool} {id handle v : Ptr}

/-! ## What each operation does -/

theorem deref_of_isHandle (hne : id ≠ NULL) (hid : isHandle id = true) :
    p.deref id = some v ↔ p.toHandle.lookup id = some v ∧ v ≠ NULL := by
  have hcond : ¬ (id = NULL ∨ isHandle id = false) := by simp [hne, hid]
  rw [deref, if_neg hcond]
  cases hl : p.toHandle.lookup id with
  | none => simp
  | some w =>
    by_cases hw : w = NULL
    · subst hw
      simp only [Option.getD_some, if_true, reduceCtorEq, Option.some.injEq, false_iff, not_and]
      rintro rfl
      simp
    · simp only [Option.getD_some, if_neg hw, Option.some.injEq]
      constructor
      · rintro rfl
        exact ⟨rfl, hw⟩
      · exact fun h => h.1

theorem deref_of_not_isHandle (hid : isHandle id = false) : p.deref id = some id := by
  rw [deref, if_pos (.inr hid)]

theorem deref_null : p.deref NULL = some NULL := by
  rw [deref, if_pos (.inl rfl)]

/-- A removal succeeds exactly on an id with an entry whose handle is still a key of `to_id`. -/
theorem derefAndRemove_eq_some_iff (hne : id ≠ NULL) :
    p.derefAndRemove id = some (v, p') ↔
      p.toHandle.lookup id = some v ∧ v ≠ NULL ∧ v ∈ p.toId ∧
        p' = ⟨p.counter, p.toHandle.erase id, p.toId.erase v⟩ := by
  rw [derefAndRemove, if_neg hne]
  cases hl : p.toHandle.lookup id with
  | none => simp
  | some w =>
    by_cases hw : w = NULL
    · subst hw
      simp only [Option.getD_some, if_true, reduceCtorEq, Option.some.injEq, false_iff]
      rintro ⟨rfl, hv, -⟩
      exact hv rfl
    · -- `AVA_CHECK_RET` fails if the handle is not a key of `to_id`
      by_cases hmem : w ∈ p.toId
      · simp only [Option.getD_some, if_neg hw, if_pos hmem, Option.some.injEq, Prod.mk.injEq]
        constructor
        · rintro ⟨rfl, rfl⟩
          exact ⟨rfl, hw, hmem, rfl⟩
        · rintro ⟨rfl, -, -, rfl⟩
          exact ⟨rfl, rfl⟩
      · simp only [Option.getD_some, if_neg hw, if_neg hmem, reduceCtorEq, Option.some.injEq,
          false_iff]
        rintro ⟨rfl, -, hv, -⟩
        exact hmem hv

/-- An assignment puts the pair into both tables, or finds it in `to_handle`. -/
theorem assignHandle_cases (h : p.assignHandle id handle = some p') :
    (id = NULL ∧ handle = NULL ∧ p' = p) ∨ (id ≠ NULL ∧ handle ≠ NULL ∧
      (p' = ⟨updateNextId p.counter id, p.toHandle.insert id handle, p.toId.insert handle id⟩ ∨
        p.toHandle.lookup id = some handle ∧
          p' = ⟨updateNextId p.counter id, p.toHandle, p.toId.insert handle id⟩)) := by
  rw [assignHandle] at h
  by_cases hid : id = NULL <;> by_cases hhandle : handle = NULL <;>
    simp only [hid, hhandle, ne_eq, not_true, if_false, if_true, eq_self, Option.some.injEq,
      not_false_eq_true, reduceCtorEq, eq_iff_iff, iff_true, iff_false] at h
  · exact .inl ⟨hid, hhandle, h.symm⟩
  · refine .inr ⟨hid, hhandle, ?_⟩
    cases hl : p.toHandle.lookup id with
    | none =>
      rw [hl, Option.getD_none, if_pos rfl] at h
      exact .inl (Option.some.inj h).symm
    | some old =>
      rw [hl, Option.getD_some] at h
      split_ifs at h with hold hsame
      · exact .inl (Option.some.inj h).symm
      · exact .inr ⟨congrArg some hsame, (Option.some.inj h).symm⟩

/-- `deref` reads one entry of `to_handle`, so removing another entry does not change it. -/
theorem deref_erase_of_ne {id' : Ptr} (hne : id' ≠ id) (c : UInt64) (t : HashTable Ptr Ptr) :
    deref ⟨c, p.toHandle.erase id, t⟩ id' = p.deref id' := by
  simp only [deref, HashTable.lookup_erase_eq, if_neg hne]

/-- Removal of an id that `deref` translates to `v` gives the same translation and leaves that of
every other id. -/
def RemovalAgrees (p : HandlePool) (id v : Ptr) : Prop :=
  ∃ p', p.derefAndRemove id = some (v, p') ∧ ∀ id', id' ≠ id → p'.deref id' = p.deref id'

/-- In one pool, removal agrees exactly for `NULL` and for an id that has an entry whose handle still
has an id, and that carries the handle prefix or is its own handle. -/
theorem removalAgrees_iff (hderef : p.deref id = some v) :
    p.RemovalAgrees id v ↔ id = NULL ∨ ∃ h, p.toHandle.lookup id = some h ∧ h ∈ p.toId ∧
      (isHandle id = true ∨ h = id) := by
  by_cases hnull : id = NULL
  · subst hnull
    rw [deref_null] at hderef
    cases hderef
    simp [RemovalAgrees, derefAndRemove]
  · simp only [hnull, false_or]
    constructor
    · rintro ⟨p', hrem, -⟩
      obtain ⟨hl, -, hmem, -⟩ := (derefAndRemove_eq_some_iff hnull).1 hrem
      refine ⟨v, hl, hmem, ?_⟩
      -- without the prefix `deref` returned the id itself, so the entry has to be the id
      cases hid : isHandle id with
      | true => exact .inl rfl
      | false =>
        rw [deref_of_not_isHandle hid] at hderef
        cases hderef
        exact .inr rfl
    · rintro ⟨h, hl, hmem, hcase⟩
      -- `deref` gave the handle of the entry in either case
      have hv : v = h ∧ v ≠ NULL := by
        cases hid : isHandle id with
        | true =>
          obtain ⟨hlv, hvn⟩ := (deref_of_isHandle hnull hid).1 hderef
          rw [hl] at hlv
          cases hlv
          exact ⟨rfl, hvn⟩
        | false =>
          rw [deref_of_not_isHandle hid] at hderef
          cases hderef
          rcases hcase with hcase | rfl
          · rw [hid] at hcase
            cases hcase
          · exact ⟨rfl, hnull⟩
      obtain ⟨rfl, hvn⟩ := hv
      refine ⟨_, (derefAndRemove_eq_some_iff hnull).2 ⟨hl, hvn, hmem, rfl⟩, ?_⟩
      intro id' hne
      exact deref_erase_of_ne hne _ _

/-! ## Runs in which ids can be removed -/

/-- Every entry of the pool can be removed: its handle has an id, and `deref` reads it. -/
def Removable (p : HandlePool) : Prop :=
  ∀ id h, p.toHandle.lookup id = some h →
    id ≠ NULL ∧ h ≠ NULL ∧ h ∈ p.toId ∧ (isHandle id = true ∨ h = id)

theorem removable_new : Removable new := by
  intro id h hl
  cases hl

theorem ne_null_of_isHandle (hid : isHandle id = true) : id ≠ NULL := by
  rintro rfl
  cases hid

theorem Removable.deref_of_entry (hp : p.Removable) (hl : p.toHandle.lookup id = some v) :
    p.deref id = some v := by
  obtain ⟨hne, hv, -, hread⟩ := hp id v hl
  cases hid : isHandle id with
  | true => exact (deref_of_isHandle hne hid).2 ⟨hl, hv⟩
  | false =>
    rcases hread with h | rfl
    · rw [hid] at h
      cases h
    · exact deref_of_not_isHandle hid

/-- A new entry, or the same one again, is removable, and the others stay so. -/
theorem Removable.insert (hp : p.Removable) (hid : id ≠ NULL) (hhandle : handle ≠ NULL)
    (hread : isHandle id = true ∨ handle = id) (c : UInt64) :
    Removable ⟨c, p.toHandle.insert id handle, p.toId.insert handle id⟩ := by
  intro id' h' hl
  rw [HashTable.lookup_insert_eq] at hl
  split_ifs at hl with hi
  · cases hl
    rw [hi]
    exact ⟨hid, hhandle, (AList.mem_insert _).2 (.inl rfl), hread⟩
  · obtain ⟨hne, hne', hmem, hr⟩ := hp id' h' hl
    exact ⟨hne, hne', (AList.mem_insert _).2 (.inr hmem), hr⟩

variable {tag : UInt64}

theorem Removable.internalInsert (hp : p.Removable) (hhandle : handle ≠ NULL)
    (h : p.internalInsert tag handle = some (id, p')) : p'.Removable := by
  rw [HandlePool.internalInsert] at h
  split_ifs at h
  cases h
  have hid : isHandle (nextId tag p.counter).1 = true := isHandle_mkId _ _
  exact hp.insert (ne_null_of_isHandle hid) hhandle (.inl hid) _

/-- The assignment of a pair that is there already only rewrites its entry of `to_id`. -/
theorem Removable.assignHandle (hp : p.Removable) (hread : isHandle id = true ∨ handle = id)
    (h : p.assignHandle id handle = some p') : p'.Removable := by
  rcases assignHandle_cases h with ⟨-, -, rfl⟩ | ⟨hid, hhandle, htables⟩
  · exact hp
  rcases htables with rfl | ⟨-, rfl⟩
  · exact hp.insert hid hhandle hread _
  · intro id' h' hl
    obtain ⟨hne, hne', hmem, hr⟩ := hp id' h' hl
    exact ⟨hne, hne', (AList.mem_insert _).2 (.inr hmem), hr⟩

/-- After the removal of an id whose handle no other id has, the handles of the others still have
an id. -/
theorem Removable.derefAndRemove (hp : p.Removable) (hid : (PoolOp.derefAndRemove id).unshared p)
    (h : p.derefAndRemove id = some (v, p')) : p'.Removable := by
  by_cases hnull : id = NULL
  · rw [HandlePool.derefAndRemove, if_pos hnull] at h
    cases h
    exact hp
  obtain ⟨hl, -, -, rfl⟩ := (derefAndRemove_eq_some_iff hnull).1 h
  intro id' h' hl'
  rw [HashTable.lookup_erase_eq] at hl'
  split_ifs at hl' with hi
  obtain ⟨hne, hne', hmem, hr⟩ := hp id' h' hl'
  refine ⟨hne, hne', AList.mem_erase.2 ⟨?_, hmem⟩, hr⟩
  rintro rfl
  exact hi (hid id' ((HashTable.mem_iff_lookup _ _).2 ⟨h', hl'⟩) (hl'.trans hl.symm))

theorem Removable.step {op : PoolOp} (hp : p.Removable) (hop : op.unshared p)
    (hstep : poolStep tag p op = some p') : p'.Removable := by
  cases op with
  | insert handle =>
    obtain ⟨⟨id, q⟩, hq, rfl⟩ := Option.map_eq_some_iff.1 hstep
    rw [HandlePool.insert] at hq
    split_ifs at hq with hnull
    · cases hq
      exact hp
    · exact hp.internalInsert hnull hq
  | lookupOrInsert handle =>
    obtain ⟨⟨id, q⟩, hq, rfl⟩ := Option.map_eq_some_iff.1 hstep
    simp only [HandlePool.lookupOrInsert] at hq
    split_ifs at hq with hnull
    · cases hq
      exact hp
    · exact hp.internalInsert hnull hq
    · cases hq
      exact hp
  | derefAndRemove id =>
    obtain ⟨⟨v, q⟩, hq, rfl⟩ := Option.map_eq_some_iff.1 hstep
    exact hp.derefAndRemove hop hq
  | assignHandle id handle => exact hp.assignHandle hop hstep
  | issue =>
    cases hstep
    exact hp

/-- An operation outside the condition leaves an id that `deref` translates and that cannot be
removed. -/
theorem Removable.not_removalAgrees {op : PoolOp} (hp : p.Removable)
    (hstep : poolStep tag p op = some p') (hop : ¬ op.unshared p) :
    ∃ id ∈ p'.toHandle, ∃ v, p'.deref id = some v ∧ ¬ p'.RemovalAgrees id v := by
  cases op with
  | insert handle => exact (hop trivial).elim
  | lookupOrInsert handle => exact (hop trivial).elim
  | issue => exact (hop trivial).elim
  | assignHandle id handle =>
    -- the id has an entry, but `deref` passes it through
    rw [PoolOp.unshared, not_or, Bool.not_eq_true] at hop
    obtain ⟨hid, hne⟩ := hop
    rcases assignHandle_cases hstep with ⟨rfl, rfl, -⟩ | ⟨hnull, -, htables⟩
    · exact (hne rfl).elim
    have hl : p'.toHandle.lookup id = some handle := by
      rcases htables with rfl | ⟨hl, rfl⟩
      · exact AList.lookup_insert _
      · exact hl
    refine ⟨id, (HashTable.mem_iff_lookup _ _).2 ⟨handle, hl⟩, id, deref_of_not_isHandle hid, ?_⟩
    rw [removalAgrees_iff (deref_of_not_isHandle hid)]
    rintro (h | ⟨h, hl', -, hread⟩)
    · exact hnull h
    · rw [hl] at hl'
      cases hl'
      rcases hread with h | h
      · rw [hid] at h
        cases h
      · exact hne h
  | derefAndRemove id =>
    -- the handle of another id has lost its entry
    obtain ⟨⟨v, q⟩, hq, rfl⟩ := Option.map_eq_some_iff.1 hstep
    simp only [PoolOp.unshared, not_forall] at hop
    obtain ⟨id', hmem, hsame, hne⟩ := hop
    obtain ⟨h, hl'⟩ := (HashTable.mem_iff_lookup _ _).1 hmem
    have hl : p.toHandle.lookup id = some h := hsame.symm.trans hl'
    obtain ⟨hv, -, -, rfl⟩ := (derefAndRemove_eq_some_iff (hp id h hl).1).1 hq
    obtain rfl : h = v := Option.some.inj (hl.symm.trans hv)
    have hkept : (p.toHandle.erase id).lookup id' = some h := by
      rw [HashTable.lookup_erase_eq, if_neg hne, hl']
    have hderef := (deref_erase_of_ne hne p.counter (p.toId.erase h)).trans (hp.deref_of_entry hl')
    refine ⟨id', (HashTable.mem_iff_lookup _ _).2 ⟨h, hkept⟩, h, hderef, ?_⟩
    rw [removalAgrees_iff hderef]
    rintro (hnull | ⟨h', hl'', hmem', -⟩)
    · exact (hp id' h hl').1 hnull
    · rw [hkept] at hl''
      cases hl''
      exact (AList.mem_erase.1 hmem').1 rfl

/-- In every pool that is reached by operations that meet the condition, removal agrees with `deref`
for exactly the ids that the pool has and for `NULL`; and after any other operation it fails for an
id of the pool that `deref` translates. -/
theorem derefAndRemove_agrees_along_runs {tag : UInt64}
    (hrun : Reaches (poolStep tag) (fun p op => op.unshared p) new p) :
    (∀ id v, p.deref id = some v → (p.RemovalAgrees id v ↔ id = NULL ∨ id ∈ p.toHandle)) ∧
    ∀ op q, poolStep tag p op = some q → ¬ op.unshared p →
      ∃ id ∈ q.toHandle, ∃ v, q.deref id = some v ∧ ¬ q.RemovalAgrees id v := by
  have hp : p.Removable := Reaches.invariant (fun _ _ _ hp hop hstep => hp.step hop hstep) hrun
    removable_new
  refine ⟨fun id v hderef => ?_, fun op q hstep hop => hp.not_removalAgrees hstep hop⟩
  rw [removalAgrees_iff hderef, HashTable.mem_iff_lookup]
  refine or_congr_right ⟨?_, ?_⟩
  · rintro ⟨h, hl, -⟩
    exact ⟨h, hl⟩
  · rintro ⟨h, hl⟩
    exact ⟨h, hl, (hp id h hl).2.2⟩

/-- Two ids of one handle, and a removed id of another: the first of the two can be removed. -/
theorem derefAndRemove_agrees_for_shared_handle : ∃ p,
    Reaches (poolStep 1) (fun p op => op.unshared p) new p ∧ p.deref (mkId 1 70) = some 5 ∧
      p.deref (mkId 1 71) = some 5 ∧ p.RemovalAgrees (mkId 1 70) 5 := by
  have hrun : Reaches (poolStep 1) (fun p op => op.unshared p) new _ :=
    Reaches.of_runGuarded [.insert 6, .assignHandle (mkId 1 70) 5, .assignHandle (mkId 1 71) 5,
      .derefAndRemove (mkId 1 64)] rfl
  refine ⟨_, hrun, by decide, by decide, ?_⟩
  exact ((derefAndRemove_agrees_along_runs hrun).1 _ _ (by decide)).2 (.inr (by decide))

/-- Two reachable pools with an id that `deref` accepts and `derefAndRemove` aborts on: the new pool
with a value that is not a handle, and a pool in which two ids were assigned to one handle, after
the removal of one of them. -/
theorem derefAndRemove_aborts_on_live_id :
    ∃ p q : HandlePool,
      Reaches (poolStep 1) (fun _ _ => True) new p ∧
      Reaches (poolStep 1) (fun _ _ => True) new q ∧
      p.deref 7 = some 7 ∧ p.derefAndRemove 7 = none ∧
      q.deref (mkId 1 65) = some 5 ∧ q.derefAndRemove (mkId 1 65) = none := by
  refine ⟨new, _, Relation.ReflTransGen.refl, Reaches.of_runGuarded [.assignHandle (mkId 1 64) 5,
    .assignHandle (mkId 1 65) 5, .derefAndRemove (mkId 1 64)] rfl, ?_⟩
  decide

/-! ## The ids of handles -/

/-- The id of a handle, `NULL` if it has none. -/
def idOf (p : HandlePool) (handle : Ptr) : Ptr :=
  if handle = NULL then NULL else (p.toId.lookup handle).getD NULL

/-- Every handle with an id in the first pool has this id in the second. -/
def KeepsIds (p q : HandlePool) : Prop :=
  ∀ h id, p.toId.lookup h = some id → q.toId.lookup h = some id

theorem KeepsIds.refl (p : HandlePool) : p.KeepsIds p := fun _ _ h => h

theorem KeepsIds.trans {r : HandlePool} (hpq : p.KeepsIds p') (hqr : p'.KeepsIds r) :
    p.KeepsIds r := fun h id hl => hqr h id (hpq h id hl)

/-- `lookup_or_insert` returns the id that the handle has from then on. -/
theorem lookupOrInsert_keepsIds (h : p.lookupOrInsert tag handle = some (id, p')) :
    p.KeepsIds p' ∧ ∀ q, p'.KeepsIds q → q.idOf handle = id := by
  by_cases hnull : handle = NULL
  · rw [lookupOrInsert, if_pos hnull] at h
    cases h
    exact ⟨.refl p, fun q _ => by rw [idOf, if_pos hnull, hnull]⟩
  rw [lookupOrInsert, if_neg hnull] at h
  by_cases hid : (p.toId.lookup handle).getD NULL = NULL
  · -- the handle had no id: it gets one
    simp only [if_pos hid, internalInsert] at h
    split_ifs at h with hmem
    cases h
    constructor
    · intro k v hl
      have hne : k ≠ handle := by
        rintro rfl
        exact hmem ((HashTable.mem_iff_lookup _ _).2 ⟨v, hl⟩)
      rw [HashTable.lookup_insert_eq, if_neg hne, hl]
    · intro q hq
      have hl := hq handle _ ((HashTable.lookup_insert_eq _ _ _ _).trans (if_pos rfl))
      rw [idOf, if_neg hnull, hl, Option.getD_some]
  · simp only [if_neg hid, Option.some.injEq, Prod.mk.injEq] at h
    obtain ⟨rfl, rfl⟩ := h
    refine ⟨.refl _, fun q hq => ?_⟩
    cases hl : p.toId.lookup handle with
    | none => simp [hl] at hid
    | some v => rw [idOf, if_neg hnull, hq handle v hl]

end HandlePool

end Ava.Endpoint
