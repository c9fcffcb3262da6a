import Ava.Endpoint.ShadowIndexes

/-!
# The lists of coupled buffers

A shadow buffer with coupled or manual lifetime is in the list of an object and is freed with the
object. The lists have pointers to records. `ava_shadow_buffer_free_coupled_unlocked` clears the
list that it has freed, but nothing removes an entry when a single record is freed: neither
`ava_shadow_buffer_free_unlocked` nor the regrow of `ava_shadow_buffer_get_unlocked`, which frees
the record and adds the new one. `coupled_lists_live` says that these are the only operations that
leave an entry without a record, and for each operation exactly when it does.
-/

set_option autoImplicit false

namespace Ava.Endpoint

open Ava.Lib

namespace ShadowPool

variable {ι α ρ : Type} [DecidableEq ι] [DecidableEq α] [DecidableEq ρ]
variable {s t m : ShadowPool ι α ρ}

/-- The entries of the lists are records in the table, and each is one entry of one list. -/
structure CoupledLive (s : ShadowPool ι α ρ) : Prop where
  live : ∀ obj ptr, ptr ∈ s.coupledOf obj → ∃ id, s.buffersById.lookup id = some ptr
  nodup : ∀ obj, (s.coupledOf obj).Nodup
  unique : ∀ a b ptr, ptr ∈ s.coupledOf a → ptr ∈ s.coupledOf b → a = b

/-- The record is in no list. -/
def Unlisted (s : ShadowPool ι α ρ) (ptr : ρ) : Prop := ∀ obj, ptr ∉ s.coupledOf obj

/-- The operation frees no single record that is in a list, unless the allocator gives its address
to a new record that is coupled to nothing. -/
def KeepsLists (s : ShadowPool ι α ρ) (op : Op ι α ρ) : Prop :=
  ∀ ptr, s.frees op = some ptr → s.Unlisted ptr ∨
    ∃ q, op.asksFor = some q ∧ q.newRecord = ptr ∧ q.coupledTo = none

/-! ## Entries and records -/

omit [DecidableEq α] in
theorem Consistent.in_table_iff (hs : s.Consistent) (ptr : ρ) :
    (∃ id, s.buffersById.lookup id = some ptr) ↔ ∃ r, s.records.lookup ptr = some r := by
  constructor
  · rintro ⟨id, hid⟩
    obtain ⟨r, hr, -⟩ := hs.byId id ptr hid
    exact ⟨r, hr⟩
  · rintro ⟨r, hr⟩
    exact ⟨r.id, (hs.record ptr r hr).1⟩

variable {ptr : ρ}

omit [DecidableEq α] in
/-- A pointer without a record is in no list. -/
theorem CoupledLive.unlisted_of_none (h : s.CoupledLive) (hs : s.Consistent)
    (hnone : s.records.lookup ptr = none) : s.Unlisted ptr := by
  intro obj hmem
  obtain ⟨r, hr⟩ := (hs.in_table_iff ptr).1 (h.live obj ptr hmem)
  cases hnone.symm.trans hr

omit [DecidableEq α] in
/-- Lists that only lose entries, all of which keep their record. -/
theorem CoupledLive.of_sublists (h : s.CoupledLive) (hs : s.Consistent) (ht : t.Consistent)
    (hsub : ∀ obj, (t.coupledOf obj).Sublist (s.coupledOf obj))
    (hkept : ∀ obj ptr, ptr ∈ t.coupledOf obj → ∀ r, s.records.lookup ptr = some r →
      ∃ r', t.records.lookup ptr = some r') : t.CoupledLive := by
  refine ⟨fun obj ptr hmem => ?_, fun obj => (h.nodup obj).sublist (hsub obj),
    fun a b ptr ha hb => h.unique a b ptr ((hsub a).subset ha) ((hsub b).subset hb)⟩
  obtain ⟨r, hr⟩ := (hs.in_table_iff ptr).1 (h.live obj ptr ((hsub obj).subset hmem))
  exact (ht.in_table_iff ptr).2 (hkept obj ptr hmem r hr)

variable {r : ShadowRecord ι α}

theorem CoupledLive.freed (h : s.CoupledLive) (hs : s.Consistent) (hfreed : Freed s ptr r t)
    (hunlisted : s.Unlisted ptr) : t.CoupledLive := by
  apply h.of_sublists hs (hs.freed hfreed)
  · intro obj
    rw [hfreed.coupledOf]
  · intro obj p hp r' hr'
    rw [hfreed.coupledOf] at hp
    refine ⟨r', ?_⟩
    rw [hfreed.records, if_neg, hr']
    rintro rfl
    exact hunlisted obj hp

variable {q : ShadowRequest ι α ρ}

theorem CoupledLive.created (h : s.CoupledLive) (hs : s.Consistent) (hcreated : Created s q t) :
    t.CoupledLive := by
  have hnew := hcreated.newRecord
  have hunlisted := h.unlisted_of_none hs hnew.fresh
  have hmem : ∀ obj ptr, ptr ∈ t.coupledOf obj →
      ptr ∈ s.coupledOf obj ∨ (ptr = q.newRecord ∧ q.coupledTo = some obj) := by
    intro obj ptr hptr
    rw [hcreated.coupledOf] at hptr
    split_ifs at hptr with hto
    · rcases List.mem_append.1 hptr with hptr | hptr
      · exact Or.inl hptr
      · exact Or.inr ⟨List.mem_singleton.1 hptr, hto⟩
    · exact Or.inl hptr
  refine ⟨fun obj ptr hptr => ?_, fun obj => ?_, fun a b ptr ha hb => ?_⟩
  · rw [(hs.newRecord hnew).in_table_iff, hnew.records]
    rcases hmem obj ptr hptr with hold | ⟨rfl, -⟩
    · obtain ⟨r, hr⟩ := (hs.in_table_iff ptr).1 (h.live obj ptr hold)
      split_ifs with heq
      · exact ⟨_, rfl⟩
      · exact ⟨r, hr⟩
    · exact ⟨_, if_pos rfl⟩
  · rw [hcreated.coupledOf]
    split_ifs with hto
    · apply List.Nodup.append (h.nodup obj) (List.nodup_singleton _)
      rw [List.disjoint_singleton]
      exact hunlisted obj
    · exact h.nodup obj
  · rcases hmem a ptr ha with ha | ⟨haeq, ha⟩
    · rcases hmem b ptr hb with hb | ⟨hbeq, -⟩
      · exact h.unique a b ptr ha hb
      · exact absurd (hbeq ▸ ha) (hunlisted a)
    · rcases hmem b ptr hb with hb | ⟨-, hb⟩
      · exact absurd (haeq ▸ hb) (hunlisted b)
      · exact Option.some.inj (ha.symm.trans hb)

/-! ## Freeing the buffers of an object -/

/-- The loop over a list frees the records of the list and no others. -/
theorem freeLoop (hs : s.Sound) {freed : ρ → α} {ptrs : List ρ} (hnodup : ptrs.Nodup)
    (hlive : ∀ ptr ∈ ptrs, ∃ r, s.records.lookup ptr = some r)
    (h : ptrs.foldlM (fun s ptr => s.freeUnlocked (s.readLocal freed ptr)) s = .ok t) :
    (∀ obj, t.coupledOf obj = s.coupledOf obj) ∧
      ∀ ptr, ptr ∉ ptrs → t.records.lookup ptr = s.records.lookup ptr := by
  induction ptrs generalizing s with
  | nil =>
    cases h
    exact ⟨fun _ => rfl, fun _ _ => rfl⟩
  | cons ptr ptrs ih =>
    obtain ⟨hnot, hnodup⟩ := List.nodup_cons.1 hnodup
    obtain ⟨r, hr⟩ := hlive ptr List.mem_cons_self
    rw [List.foldlM_cons] at h
    obtain ⟨u, hu, hrest⟩ := bind_eq_ok.1 h
    have hlocal := (hs.consistent.record ptr r hr).2
    rw [readLocal, hr] at hu
    -- the record is live, so that the address leads back to it
    rcases freed_of_ok hs.consistent hu with ⟨hnone, -⟩ | ⟨ptr', r', hptr', -, hfreed⟩
    · cases hlocal.symm.trans hnone
    cases hlocal.symm.trans hptr'
    have hrecords : ∀ p, p ≠ ptr → u.records.lookup p = s.records.lookup p := by
      intro p hp
      rw [hfreed.records, if_neg hp]
    obtain ⟨hcoupled, hothers⟩ := ih (hs.freed hfreed) hnodup (by
      intro p hp
      rw [hrecords p (ne_of_mem_of_not_mem hp hnot)]
      exact hlive p (List.mem_cons_of_mem _ hp)) hrest
    refine ⟨fun obj => (hcoupled obj).trans (hfreed.coupledOf obj), fun p hp => ?_⟩
    rw [List.mem_cons, not_or] at hp
    rw [hothers p hp.2, hrecords p hp.1]

theorem CoupledLive.freeCoupled (h : s.CoupledLive) (hs : s.Sound) {obj : α} {freed : ρ → α}
    (hloop : (s.coupledOf obj).foldlM (fun s ptr => s.freeUnlocked (s.readLocal freed ptr)) s =
      .ok m)
    (huncoupled : Uncoupled m obj t) (ht : t.Consistent) : t.CoupledLive := by
  obtain ⟨hcoupled, hrecords⟩ := freeLoop hs (h.nodup obj)
    (fun ptr hptr => (hs.consistent.in_table_iff ptr).1 (h.live obj ptr hptr)) hloop
  have hlists : ∀ b, t.coupledOf b = if b = obj then [] else s.coupledOf b := by
    intro b
    rw [huncoupled.coupledOf, hcoupled]
  apply h.of_sublists hs.consistent ht
  · intro b
    rw [hlists]
    split_ifs
    · exact List.nil_sublist _
    · exact List.Sublist.refl _
  · intro b ptr hptr r hr
    rw [hlists] at hptr
    split_ifs at hptr with hb
    · cases hptr
    · refine ⟨r, ?_⟩
      rw [huncoupled.records, hrecords ptr (fun hobj => hb (h.unique b obj ptr hptr hobj)), hr]

/-! ## Freeing one buffer -/

theorem Freed.coupledLive_iff (h : s.CoupledLive) (hs : s.Consistent) (hfreed : Freed s ptr r t) :
    t.CoupledLive ↔ s.Unlisted ptr := by
  constructor
  · intro ht obj hmem
    obtain ⟨r', hr'⟩ := ((hs.freed hfreed).in_table_iff ptr).1
      (ht.live obj ptr (by rwa [hfreed.coupledOf]))
    rw [hfreed.records, if_pos rfl] at hr'
    cases hr'
  · exact h.freed hs hfreed

/-- The new record takes the place of the old one, also in its list. -/
theorem CoupledLive.replaced (h : s.CoupledLive) (hs : s.Consistent) (hfreed : Freed s ptr r m)
    (hcreated : Created m q t) (hptr : q.newRecord = ptr) (hto : q.coupledTo = none) :
    t.CoupledLive := by
  have hlists : ∀ obj, t.coupledOf obj = s.coupledOf obj := by
    intro obj
    rw [hcreated.coupledOf, hto, if_neg nofun, hfreed.coupledOf]
  apply h.of_sublists hs ((hs.freed hfreed).newRecord hcreated.newRecord)
  · intro obj
    rw [hlists]
  · intro obj p _ r' hr'
    rw [hcreated.newRecord.records, hptr, hfreed.records]
    split_ifs
    · exact ⟨_, rfl⟩
    · exact ⟨r', hr'⟩

theorem regrow_coupledLive_iff (h : s.CoupledLive) (hs : s.Consistent) (hfreed : Freed s ptr r m)
    (hcreated : Created m q t) :
    t.CoupledLive ↔ s.Unlisted ptr ∨ (q.newRecord = ptr ∧ q.coupledTo = none) := by
  constructor
  · intro ht
    by_contra hnot
    obtain ⟨hlisted, hrest⟩ := not_or.1 hnot
    obtain ⟨obj, hobj⟩ := not_forall_not.1 hlisted
    have hmem : ptr ∈ t.coupledOf obj := by
      rw [hcreated.coupledOf, hfreed.coupledOf]
      split_ifs
      · exact List.mem_append_left _ hobj
      · exact hobj
    -- the entry has a record again only if the new record is at the same address
    have hptr : q.newRecord = ptr := by
      by_contra hne
      obtain ⟨r', hr'⟩ := (((hs.freed hfreed).newRecord hcreated.newRecord).in_table_iff ptr).1
        (ht.live obj ptr hmem)
      rw [hcreated.newRecord.records, if_neg (Ne.symm hne), hfreed.records, if_pos rfl] at hr'
      cases hr'
    obtain ⟨b, hb⟩ := Option.ne_none_iff_exists'.1 fun hto => hrest ⟨hptr, hto⟩
    have hlist : t.coupledOf b = s.coupledOf b ++ [ptr] := by
      rw [hcreated.coupledOf, if_pos hb, hfreed.coupledOf, hptr]
    cases ht.unique obj b ptr hmem (by rw [hlist]; exact List.mem_append_right _ (by simp))
    have hnodup := ht.nodup obj
    rw [hlist, List.nodup_append] at hnodup
    exact hnodup.2.2 ptr hobj ptr (by simp) rfl
  · rintro (hunlisted | ⟨hptr, hto⟩)
    · exact (h.freed hs hfreed hunlisted).created (hs.freed hfreed) hcreated
    · exact h.replaced hs hfreed hcreated hptr hto

/-! ## Every operation -/

omit [DecidableEq α] in
/-- What only changes other records and the set of allocated addresses. -/
theorem CoupledLive.of_same (h : s.CoupledLive) (hs : s.Consistent) (ht : t.Consistent)
    (hcoupled : ∀ obj, t.coupledOf obj = s.coupledOf obj)
    (hrecords : ∀ ptr r, s.records.lookup ptr = some r → ∃ r', t.records.lookup ptr = some r') :
    t.CoupledLive := by
  apply h.of_sublists hs ht
  · intro obj
    rw [hcoupled]
  · exact fun _ ptr _ r hr => hrecords ptr r hr

omit [DecidableEq α] in
theorem keepsLists_of_none {op : Op ι α ρ} (h : s.frees op = none) : s.KeepsLists op := by
  intro ptr hptr
  cases h.symm.trans hptr

/-- An operation keeps the lists live if and only if it meets the condition. -/
theorem CoupledLive.change_iff (h : s.CoupledLive) (hs : s.Sound) {op : Op ι α ρ}
    (hchange : Change s op t) : t.CoupledLive ↔ s.KeepsLists op := by
  have ht := (hs.change hchange).consistent
  cases hchange with
  | nothing hnone => exact iff_of_true h (keepsLists_of_none hnone)
  | attach hrecord hcoupled _ =>
    refine iff_of_true (h.of_same hs.consistent ht hcoupled fun ptr r hr => ?_)
      (keepsLists_of_none rfl)
    rw [hrecord.records]
    split_ifs
    · exact ⟨_, rfl⟩
    · exact ⟨r, hr⟩
  | create hnone hcreated =>
    exact iff_of_true (h.created hs.consistent hcreated) (keepsLists_of_none hnone)
  | regrow hasks houtgrown hfreed hcreated =>
    rw [regrow_coupledLive_iff h hs.consistent hfreed hcreated, KeepsLists,
      frees_of_asks hasks, houtgrown, hasks]
    simp
  | free hfreed =>
    have hlocal := (hs.consistent.record _ _ hfreed.record).2
    rw [hfreed.coupledLive_iff h hs.consistent, KeepsLists, frees, hlocal]
    simp [Op.asksFor]
  | freeCoupled hloop huncoupled =>
    exact iff_of_true (h.freeCoupled hs hloop huncoupled ht) (keepsLists_of_none rfl)
  | allocate buffer =>
    exact iff_of_true (h.of_same hs.consistent ht (fun _ => rfl) fun _ r hr => ⟨r, hr⟩)
      (keepsLists_of_none rfl)
  | release _ =>
    exact iff_of_true (h.of_same hs.consistent ht (fun _ => rfl) fun _ r hr => ⟨r, hr⟩)
      (keepsLists_of_none rfl)

/-- After every sequence of operations that meet the condition all entries of all lists are live and
distinct, and a further operation keeps this if and only if it meets the condition, too. -/
theorem coupled_lists_live (h : Reaches step KeepsLists empty s) :
    s.CoupledLive ∧
      ∀ (op : Op ι α ρ) t, s.step op = some t → (t.CoupledLive ↔ s.KeepsLists op) := by
  have hlive : s.Sound ∧ s.CoupledLive := by
    refine h.invariant (I := fun s => s.Sound ∧ s.CoupledLive) ?_
      ⟨sound_empty, fun _ _ hmem => (by cases hmem), fun _ => List.nodup_nil,
        fun _ _ _ hmem => (by cases hmem)⟩
    rintro s op t ⟨hs, hlive⟩ hok hstep
    have hchange := change_of_run hs.consistent (eq_ok_of_toOption hstep)
    exact ⟨hs.change hchange, (hlive.change_iff hs hchange).2 hok⟩
  exact ⟨hlive.2, fun op t hstep =>
    hlive.2.change_iff hlive.1 (change_of_run hlive.1.consistent (eq_ok_of_toOption hstep))⟩

/-- Two buffers that are freed with the object at 1. -/
theorem coupled_lists_live_pair :
    ∃ s : ShadowPool Nat Nat Nat, Reaches step KeepsLists empty s ∧ s.coupledOf 1 = [20, 21] ∧
      s.CoupledLive :=
  have h : Reaches step KeepsLists empty _ :=
    .head ⟨.newShadow ⟨7, 4, .coupled, some 1, 5, 20⟩, keepsLists_of_none rfl, rfl⟩
      (.single ⟨.newShadow ⟨8, 4, .coupled, some 1, 6, 21⟩, keepsLists_of_none rfl, rfl⟩)
  ⟨_, h, rfl, (coupled_lists_live h).1⟩

/-- The buffer 7 is freed with the object at 1; when it grows its old record stays in the list. -/
theorem regrown_record_in_list :
    ∃ s : ShadowPool Nat Nat Nat, Reaches step (fun _ _ => True) empty s ∧
      s.coupledOf 1 = [20, 21] ∧ s.records.lookup 20 = none ∧ ¬ s.CoupledLive := by
  have h : Reaches step (fun _ _ => True) empty _ := Reaches.of_runGuarded
    (s := (empty : ShadowPool Nat Nat Nat))
    [.newShadow ⟨7, 4, .coupled, some 1, 5, 20⟩, .get ⟨7, 8, .coupled, some 1, 6, 21⟩] rfl
  refine ⟨_, h, rfl, rfl, fun hlive => ?_⟩
  obtain ⟨r, hr⟩ := ((sound_of_reaches h).consistent.in_table_iff 20).1
    (hlive.live 1 20 List.mem_cons_self)
  cases hr

end ShadowPool

end Ava.Endpoint
