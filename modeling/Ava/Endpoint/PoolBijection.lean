import Ava.Endpoint.HandlePool

/-!
# The handle pool without assignments

A pool that is only used through `insert`, `lookup_or_insert` and `deref_and_remove` is a bijection
between its handles and their ids. `PoolChange` says what one such operation can do to the pool;
the invariant `PoolInv` and the two facts about whole runs (a live id keeps its handle until it is
removed, a removed id never comes back) are each proved from it.
-/

set_option autoImplicit false

namespace Ava.Endpoint

open Ava.Lib

/-- Number of ids drawn from the counter, which starts at 64. -/
def HandlePool.issued (p : HandlePool) : Nat := p.counter.toNat - 64

/-- The uses of the pool considered here: no assignment, no `NULL` handle, insertion of new handles
only, removal of ids of the pool only, and fewer than `2 ^ 36` ids in total. -/
def PoolOp.legal (p : HandlePool) : PoolOp → Prop
  | .insert handle => handle ≠ NULL ∧ handle ∉ p.toId ∧ p.issued + 1 < 2 ^ 36
  | .lookupOrInsert handle => handle ≠ NULL ∧ (handle ∈ p.toId ∨ p.issued + 1 < 2 ^ 36)
  | .derefAndRemove id => id ∈ p.toHandle
  | .assignHandle _ _ => False
  | .issue => p.issued + 1 < 2 ^ 36

instance PoolOp.decidableLegal (p : HandlePool) : ∀ op : PoolOp, Decidable (op.legal p)
  | .insert h => inferInstanceAs (Decidable (h ≠ NULL ∧ h ∉ p.toId ∧ p.issued + 1 < 2 ^ 36))
  | .lookupOrInsert h =>
    inferInstanceAs (Decidable (h ≠ NULL ∧ (h ∈ p.toId ∨ p.issued + 1 < 2 ^ 36)))
  | .derefAndRemove id => inferInstanceAs (Decidable (id ∈ p.toHandle))
  | .assignHandle _ _ => inferInstanceAs (Decidable False)
  | .issue => inferInstanceAs (Decidable (p.issued + 1 < 2 ^ 36))

/-- `id` was built from a value that the counter `c` has passed. -/
def IssuedId (tag c : UInt64) (id : Ptr) : Prop :=
  ∃ k : UInt64, 64 ≤ k.toNat ∧ k.toNat < c.toNat ∧ id = mkId tag k

/-- The tables are inverse, and every id in them was issued. -/
structure PoolInv (tag : UInt64) (p : HandlePool) : Prop where
  lower : 64 ≤ p.counter.toNat
  upper : p.counter.toNat < 64 + 2 ^ 36
  inverse : HashTable.Inverse p.toId p.toHandle
  entry : ∀ id h, p.toHandle.lookup id = some h → h ≠ NULL ∧ IssuedId tag p.counter id

/-- What a use of the pool can do to it. Only the removal of an id takes an entry away. -/
inductive PoolChange (tag : UInt64) (p : HandlePool) (op : PoolOp) : HandlePool → Prop where
  | same : PoolChange tag p op p
  | issue (hbound : p.issued + 1 < 2 ^ 36) :
      PoolChange tag p op { p with counter := p.counter + 1 }
  | insert (h : Ptr) (hnull : h ≠ NULL) (hnew : h ∉ p.toId) (hbound : p.issued + 1 < 2 ^ 36) :
      PoolChange tag p op ⟨p.counter + 1, p.toHandle.insert (mkId tag p.counter) h,
        p.toId.insert h (mkId tag p.counter)⟩
  | remove (id h : Ptr) (hop : op = .derefAndRemove id) (hl : p.toHandle.lookup id = some h) :
      PoolChange tag p op ⟨p.counter, p.toHandle.erase id, p.toId.erase h⟩

variable {tag : UInt64} {p q : HandlePool} {op : PoolOp}

theorem poolInv_new (tag : UInt64) : PoolInv tag HandlePool.new where
  lower := by simp [HandlePool.new, counterCountMin_toNat]
  upper := by simp [HandlePool.new, counterCountMin_toNat]
  inverse := fun _ _ => by simp [HandlePool.new]
  entry := fun _ _ h => by simp [HandlePool.new] at h

variable {c : UInt64} {id : Ptr}

theorem IssuedId.mono {d : UInt64} (h : IssuedId tag c id) (hcd : c.toNat ≤ d.toNat) :
    IssuedId tag d id := by
  obtain ⟨k, hk, hlt, rfl⟩ := h
  exact ⟨k, hk, lt_of_lt_of_le hlt hcd, rfl⟩

theorem IssuedId.isHandle (htag : tag.toNat < 16) (h : IssuedId tag c id) :
    id ≠ NULL ∧ isHandle id = true := by
  obtain ⟨k, -, -, rfl⟩ := h
  exact ⟨mkId_ne_null tag k htag, isHandle_mkId tag k⟩

/-- The id of the current counter value was not issued: the counter has not gone round. -/
theorem not_issuedId_mkId (htag : tag.toNat < 16) (hlow : 64 ≤ c.toNat)
    (hup : c.toNat < 64 + 2 ^ 36) : ¬ IssuedId tag c (mkId tag c) := by
  rintro ⟨k, hk, hlt, heq⟩
  -- two counter values with one number are `2 ^ 36` apart
  have hnum := (mkId_inj_iff tag c k htag).1 heq
  rw [counterNumber, counterNumber] at hnum
  omega

namespace PoolInv

theorem counter_succ (hinv : PoolInv tag p) :
    (p.counter + 1).toNat = p.counter.toNat + 1 := by
  have hone : (1 : UInt64).toNat = 1 := by decide
  have hup := hinv.upper
  rw [UInt64.toNat_add, hone]
  omega

theorem counter_succ_lt (hinv : PoolInv tag p) (hbound : p.issued + 1 < 2 ^ 36) :
    64 ≤ (p.counter + 1).toNat ∧ (p.counter + 1).toNat < 64 + 2 ^ 36 := by
  have hlow := hinv.lower
  rw [HandlePool.issued] at hbound
  rw [hinv.counter_succ]
  omega

theorem mkId_notMem (htag : tag.toNat < 16) (hinv : PoolInv tag p) :
    mkId tag p.counter ∉ p.toHandle := by
  rw [HashTable.mem_iff_lookup]
  rintro ⟨h, hl⟩
  exact not_issuedId_mkId htag hinv.lower hinv.upper (hinv.entry _ h hl).2

variable {h : Ptr}

/-- `internal_handle_pool_insert` of a new handle succeeds. -/
theorem internalInsert_eq (htag : tag.toNat < 16) (hinv : PoolInv tag p) (hnew : h ∉ p.toId) :
    p.internalInsert tag h = some (mkId tag p.counter, ⟨p.counter + 1,
      p.toHandle.insert (mkId tag p.counter) h, p.toId.insert h (mkId tag p.counter)⟩) := by
  simp only [HandlePool.internalInsert, nextId_of_min_le tag hinv.lower, if_neg hnew,
    if_neg (hinv.mkId_notMem htag)]

variable {id : Ptr}

/-- `lookup_or_insert` of a handle of the pool returns its id and changes nothing. -/
theorem lookupOrInsert_of_mem (htag : tag.toNat < 16) (hinv : PoolInv tag p)
    (hl : p.toHandle.lookup id = some h) : p.lookupOrInsert tag h = some (id, p) := by
  obtain ⟨hnull, hissued⟩ := hinv.entry id h hl
  have hid : (p.toId.lookup h).getD NULL = id := by
    rw [(hinv.inverse h id).2 hl, Option.getD_some]
  simp only [HandlePool.lookupOrInsert, if_neg hnull, hid, if_neg (hissued.isHandle htag).1]

theorem lookupOrInsert_of_notMem (hnull : h ≠ NULL) (hnew : h ∉ p.toId) :
    p.lookupOrInsert tag h = p.internalInsert tag h := by
  have hid : (p.toId.lookup h).getD NULL = NULL := by
    rw [AList.lookup_eq_none.2 hnew, Option.getD_none]
  simp only [HandlePool.lookupOrInsert, if_neg hnull, hid, if_true]

theorem derefAndRemove_eq (htag : tag.toNat < 16) (hinv : PoolInv tag p)
    (hl : p.toHandle.lookup id = some h) :
    p.derefAndRemove id = some (h, ⟨p.counter, p.toHandle.erase id, p.toId.erase h⟩) := by
  obtain ⟨hnull, hissued⟩ := hinv.entry id h hl
  have hmem : h ∈ p.toId := (HashTable.mem_iff_lookup _ _).2 ⟨id, (hinv.inverse h id).2 hl⟩
  exact (HandlePool.derefAndRemove_eq_some_iff (hissued.isHandle htag).1).2 ⟨hl, hnull, hmem, rfl⟩

/-- Every legal use of the pool succeeds, with one of the changes of `PoolChange`. -/
theorem poolStep_legal (htag : tag.toNat < 16) (hinv : PoolInv tag p)
    (hlegal : op.legal p) : ∃ q, poolStep tag p op = some q ∧ PoolChange tag p op q := by
  cases op with
  | insert h =>
    obtain ⟨hnull, hnew, hbound⟩ := hlegal
    refine ⟨_, ?_, PoolChange.insert h hnull hnew hbound⟩
    rw [poolStep, HandlePool.insert, if_neg hnull, hinv.internalInsert_eq htag hnew]
    rfl
  | lookupOrInsert h =>
    obtain ⟨hnull, hcase⟩ := hlegal
    -- a known handle changes nothing, a new one is inserted
    by_cases hmem : h ∈ p.toId
    · obtain ⟨id, hid⟩ := (HashTable.mem_iff_lookup _ _).1 hmem
      refine ⟨p, ?_, PoolChange.same⟩
      rw [poolStep, hinv.lookupOrInsert_of_mem htag ((hinv.inverse h id).1 hid)]
      rfl
    · have hbound : p.issued + 1 < 2 ^ 36 := hcase.resolve_left hmem
      refine ⟨_, ?_, PoolChange.insert h hnull hmem hbound⟩
      rw [poolStep, lookupOrInsert_of_notMem hnull hmem, hinv.internalInsert_eq htag hmem]
      rfl
  | derefAndRemove id =>
    obtain ⟨h, hl⟩ := (HashTable.mem_iff_lookup _ _).1 hlegal
    refine ⟨_, ?_, PoolChange.remove id h rfl hl⟩
    rw [poolStep, hinv.derefAndRemove_eq htag hl]
    rfl
  | assignHandle id h => exact hlegal.elim
  | issue =>
    refine ⟨_, ?_, PoolChange.issue hlegal⟩
    rw [poolStep, nextId_of_min_le tag hinv.lower]

/-! ## The invariant -/

theorem change (htag : tag.toNat < 16) (hinv : PoolInv tag p) (hc : PoolChange tag p op q) :
    PoolInv tag q := by
  cases hc with
  | same => exact hinv
  | issue hbound =>
    obtain ⟨hlow, hup⟩ := hinv.counter_succ_lt hbound
    refine ⟨hlow, hup, hinv.inverse, fun id h hl => ?_⟩
    obtain ⟨hn, hissued⟩ := hinv.entry id h hl
    exact ⟨hn, hissued.mono (by rw [hinv.counter_succ]; exact Nat.le_succ _)⟩
  | insert h hnull hnew hbound =>
    obtain ⟨hlow, hup⟩ := hinv.counter_succ_lt hbound
    refine ⟨hlow, hup, hinv.inverse.insert hnew (hinv.mkId_notMem htag), fun id' h' hl => ?_⟩
    have hle : p.counter.toNat < (p.counter + 1).toNat := by
      rw [hinv.counter_succ]
      exact Nat.lt_succ_self _
    rw [HashTable.lookup_insert_eq] at hl
    split_ifs at hl with hi
    · -- the new entry has the id of the old counter
      cases hl
      exact ⟨hnull, p.counter, hinv.lower, hle, hi⟩
    · obtain ⟨hn, hissued⟩ := hinv.entry id' h' hl
      exact ⟨hn, hissued.mono hle.le⟩
  | remove id h hop hl =>
    have hl₁ := (hinv.inverse h id).2 hl
    refine ⟨hinv.lower, hinv.upper, hinv.inverse.erase hl₁, fun id' h' hl' => ?_⟩
    rw [HashTable.lookup_erase_eq] at hl'
    split_ifs at hl' with hi
    exact hinv.entry id' h' hl'

theorem step (htag : tag.toNat < 16) (p : HandlePool) (op : PoolOp) (q : HandlePool)
    (hinv : PoolInv tag p) (hlegal : op.legal p) (hstep : poolStep tag p op = some q) :
    PoolChange tag p op q ∧ PoolInv tag q := by
  obtain ⟨q', hq', hc⟩ := hinv.poolStep_legal htag hlegal
  rw [hstep] at hq'
  cases hq'
  exact ⟨hc, hinv.change htag hc⟩

theorem of_reaches (htag : tag.toNat < 16)
    (hrun : Reaches (poolStep tag) (fun p op => op.legal p) HandlePool.new p) : PoolInv tag p :=
  Reaches.invariant (fun p op q hinv hlegal hstep => (PoolInv.step htag p op q hinv hlegal hstep).2)
    hrun (poolInv_new tag)

theorem deref_eq (htag : tag.toNat < 16) (hinv : PoolInv tag p)
    (hl : p.toHandle.lookup id = some h) : p.deref id = some h := by
  obtain ⟨hnull, hissued⟩ := hinv.entry id h hl
  obtain ⟨hne, hid⟩ := hissued.isHandle htag
  exact (HandlePool.deref_of_isHandle hne hid).2 ⟨hl, hnull⟩

/-- `lookup_or_insert` returns an id with an entry for its handle, in a pool that keeps the
invariant. -/
theorem lookupOrInsert_spec (htag : tag.toNat < 16) (hinv : PoolInv tag p) (hnull : h ≠ NULL)
    (hcase : h ∈ p.toId ∨ p.issued + 1 < 2 ^ 36) :
    ∃ id q, p.lookupOrInsert tag h = some (id, q) ∧ PoolInv tag q ∧
      q.toHandle.lookup id = some h := by
  by_cases hmem : h ∈ p.toId
  · obtain ⟨id, hid⟩ := (HashTable.mem_iff_lookup _ _).1 hmem
    have hl := (hinv.inverse h id).1 hid
    exact ⟨id, p, hinv.lookupOrInsert_of_mem htag hl, hinv, hl⟩
  · have hc : PoolChange tag p (.insert h) _ :=
      PoolChange.insert h hnull hmem (hcase.resolve_left hmem)
    refine ⟨mkId tag p.counter, _, ?_, hinv.change htag hc, ?_⟩
    · rw [lookupOrInsert_of_notMem hnull hmem, hinv.internalInsert_eq htag hmem]
    · exact AList.lookup_insert _

end PoolInv

/-! ## Whole runs -/

variable {h : Ptr}

/-- A use other than the removal of `id` leaves the entry of `id`. -/
theorem PoolChange.keeps_entry (htag : tag.toNat < 16) (hinv : PoolInv tag p)
    (hc : PoolChange tag p op q) (hop : op ≠ .derefAndRemove id)
    (hl : p.toHandle.lookup id = some h) : q.toHandle.lookup id = some h := by
  cases hc with
  | same => exact hl
  | issue hbound => exact hl
  | insert h' hnull hnew hbound =>
    -- the inserted id is not yet issued, the id of an entry is
    have hne : id ≠ mkId tag p.counter := by
      rintro rfl
      exact not_issuedId_mkId htag hinv.lower hinv.upper (hinv.entry _ h hl).2
    rw [HashTable.lookup_insert_eq, if_neg hne, hl]
  | remove id' h' hop' hl' =>
    have hne : id ≠ id' := by
      rintro rfl
      exact hop hop'
    rw [HashTable.lookup_erase_eq, if_neg hne, hl]

/-- A removed id: it was issued and has no entry. -/
def RetiredId (tag : UInt64) (p : HandlePool) (id : Ptr) : Prop :=
  IssuedId tag p.counter id ∧ p.toHandle.lookup id = none

theorem PoolChange.retiredId (htag : tag.toNat < 16) (hinv : PoolInv tag p)
    (hc : PoolChange tag p op q) (hid : RetiredId tag p id) : RetiredId tag q id := by
  obtain ⟨hissued, hnone⟩ := hid
  have hle : p.counter.toNat ≤ (p.counter + 1).toNat := by
    rw [hinv.counter_succ]
    exact Nat.le_succ _
  cases hc with
  | same => exact ⟨hissued, hnone⟩
  | issue hbound => exact ⟨hissued.mono hle, hnone⟩
  | insert h hnull hnew hbound =>
    refine ⟨hissued.mono hle, ?_⟩
    -- a retired id was issued, so it is not the next one
    have hne : id ≠ mkId tag p.counter := by
      rintro rfl
      exact not_issuedId_mkId htag hinv.lower hinv.upper hissued
    rw [HashTable.lookup_insert_eq, if_neg hne, hnone]
  | remove id' h hop hl =>
    refine ⟨hissued, ?_⟩
    rw [HashTable.lookup_erase_eq, hnone, ite_self]

theorem RetiredId.deref_eq_none (htag : tag.toNat < 16) (hid : RetiredId tag p id) :
    p.deref id = none := by
  obtain ⟨hissued, hnone⟩ := hid
  obtain ⟨hne, hh⟩ := hissued.isHandle htag
  cases hd : p.deref id with
  | none => rfl
  | some v =>
    obtain ⟨hl, -⟩ := (HandlePool.deref_of_isHandle hne hh).1 hd
    rw [hnone] at hl
    cases hl

/-- A live id keeps its handle along every run that does not remove it. -/
theorem entry_of_reaches (htag : tag.toNat < 16) (hinv : PoolInv tag p)
    (hl : p.toHandle.lookup id = some h)
    (hrun : Reaches (poolStep tag) (fun p op => op.legal p ∧ op ≠ .derefAndRemove id) p q) :
    PoolInv tag q ∧ q.toHandle.lookup id = some h := by
  refine Reaches.invariant (I := fun p => PoolInv tag p ∧ p.toHandle.lookup id = some h)
    ?_ hrun ⟨hinv, hl⟩
  rintro p op q ⟨hinv, hl⟩ ⟨hlegal, hop⟩ hstep
  obtain ⟨hc, hinv'⟩ := PoolInv.step htag p op q hinv hlegal hstep
  exact ⟨hinv', hc.keeps_entry htag hinv hop hl⟩

/-- A removed id stays removed along every run. -/
theorem retiredId_of_reaches (htag : tag.toNat < 16) (hinv : PoolInv tag p)
    (hid : RetiredId tag p id) (hrun : Reaches (poolStep tag) (fun p op => op.legal p) p q) :
    RetiredId tag q id := by
  have hboth : PoolInv tag q ∧ RetiredId tag q id := by
    refine Reaches.invariant (I := fun p => PoolInv tag p ∧ RetiredId tag p id)
      ?_ hrun ⟨hinv, hid⟩
    rintro p op q ⟨hinv, hid⟩ hlegal hstep
    obtain ⟨hc, hinv'⟩ := PoolInv.step htag p op q hinv hlegal hstep
    exact ⟨hinv', hc.retiredId htag hinv hid⟩
  exact hboth.2

theorem RetiredId.of_remove (hinv : PoolInv tag p) (hl : p.toHandle.lookup id = some h) :
    RetiredId tag ⟨p.counter, p.toHandle.erase id, p.toId.erase h⟩ id :=
  ⟨(hinv.entry id h hl).2, AList.lookup_erase id p.toHandle⟩

/-- In every pool reached without assignments the two tables are inverse; `lookup_or_insert`
returns an id that translates back, and returns the same id until that id is removed; distinct
handles have distinct ids; and a removed id is never translated again. -/
theorem handlePool_bijective (htag : tag.toNat < 16)
    (hrun : Reaches (poolStep tag) (fun p op => op.legal p) HandlePool.new p) :
    (∀ h id, p.toId.lookup h = some id ↔ p.toHandle.lookup id = some h) ∧
    (∀ h, h ≠ NULL → (h ∈ p.toId ∨ p.issued + 1 < 2 ^ 36) →
      ∃ id p', p.lookupOrInsert tag h = some (id, p') ∧ p'.deref id = some h ∧
        ∀ q, Reaches (poolStep tag) (fun p op => op.legal p ∧ op ≠ .derefAndRemove id) p' q →
          q.lookupOrInsert tag h = some (id, q)) ∧
    (∀ h₁ h₂ id₁ id₂, p.toId.lookup h₁ = some id₁ → p.toId.lookup h₂ = some id₂ → h₁ ≠ h₂ →
      id₁ ≠ id₂) ∧
    (∀ id, id ∈ p.toHandle → ∃ h p', p.derefAndRemove id = some (h, p') ∧
      ∀ q, Reaches (poolStep tag) (fun p op => op.legal p) p' q →
        id ∉ q.toHandle ∧ q.deref id = none) := by
  have hinv := PoolInv.of_reaches htag hrun
  refine ⟨hinv.inverse, ?_, ?_, ?_⟩
  · intro h hnull hcase
    obtain ⟨id, p', heq, hinv', hl⟩ := hinv.lookupOrInsert_spec htag hnull hcase
    refine ⟨id, p', heq, hinv'.deref_eq htag hl, ?_⟩
    intro q hq
    obtain ⟨hinvq, hlq⟩ := entry_of_reaches htag hinv' hl hq
    exact hinvq.lookupOrInsert_of_mem htag hlq
  · -- one id has one handle
    rintro h₁ h₂ id₁ id₂ hl₁ hl₂ hne rfl
    rw [hinv.inverse] at hl₁ hl₂
    rw [hl₁] at hl₂
    cases hl₂
    exact hne rfl
  · intro id hmem
    obtain ⟨h, hl⟩ := (HashTable.mem_iff_lookup _ _).1 hmem
    refine ⟨h, _, hinv.derefAndRemove_eq htag hl, ?_⟩
    intro q hq
    have hinv' : PoolInv tag ⟨p.counter, p.toHandle.erase id, p.toId.erase h⟩ :=
      hinv.change htag (PoolChange.remove id h rfl hl)
    -- the removal retires the id, and no later use brings it back
    have hret := retiredId_of_reaches htag hinv' (RetiredId.of_remove hinv hl) hq
    exact ⟨AList.lookup_eq_none.1 hret.2, hret.deref_eq_none htag⟩

/-- One handle inserted, looked up and removed in a new pool. -/
theorem handlePool_bijective_after_insert :
    ∃ p, HandlePool.new.insert 1 5 = some (mkId 1 64, p) ∧ p.toId.lookup 5 = some (mkId 1 64) ∧
      p.toHandle.lookup (mkId 1 64) = some 5 ∧
      ∃ h p', p.derefAndRemove (mkId 1 64) = some (h, p') ∧ p'.deref (mkId 1 64) = none := by
  have hrun : Reaches (poolStep 1) (fun p op => op.legal p) HandlePool.new _ :=
    Reaches.of_runGuarded [.insert 5] rfl
  obtain ⟨hinverse, -, -, hremoved⟩ := handlePool_bijective (by decide) hrun
  obtain ⟨h, p', hrem, hnever⟩ := hremoved (mkId 1 64) (by decide)
  exact ⟨_, rfl, rfl, (hinverse 5 (mkId 1 64)).1 rfl, h, p', hrem,
    (hnever p' Relation.ReflTransGen.refl).2⟩

end Ava.Endpoint
