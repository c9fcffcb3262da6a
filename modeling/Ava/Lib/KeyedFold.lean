import Ava.Lib.HashTable
import Ava.Lib.Transition
import Mathlib.Data.List.Nodup

/-!
# Loops that write a table key by key

A loop may compute the new value of a key from its old one, and fail at some keys. If it comes to
every key once, then what it does at one key does not depend on the others: it succeeds if it does
at every key, and the table afterwards can be read off key by key.
-/

set_option autoImplicit false

namespace Ava.Lib

namespace HashTable

variable {κ ν ε β : Type} [DecidableEq κ]

/-- Write the value that is computed from the old one, if there is an old one. -/
def setWith (f : Option ν → Except ε ν) (k : κ) (t : HashTable κ ν) :
    Except ε (HashTable κ ν) := (f (t.lookup k)).map (t.insert k)

/-- The loop. -/
def writeAll (key : β → κ) (f : β → Option ν → Except ε ν) (items : List β)
    (t : HashTable κ ν) : Except ε (HashTable κ ν) :=
  items.foldlM (fun t b => setWith (f b) (key b) t) t

variable {key : β → κ} {f : β → Option ν → Except ε ν} {items : List β} {t t' : HashTable κ ν}

theorem setWith_eq_ok {g : Option ν → Except ε ν} {k : κ} (h : setWith g k t = .ok t') :
    ∃ w, g (t.lookup k) = .ok w ∧ ∀ k', t'.lookup k' = if k' = k then some w else t.lookup k' := by
  obtain ⟨w, hw, rfl⟩ := map_eq_ok.1 h
  exact ⟨w, hw, fun k' => lookup_insert_eq t k k' w⟩

theorem lookup_writeAll (hnodup : (items.map key).Nodup) (h : writeAll key f items t = .ok t') :
    (∀ b ∈ items, ∃ w, f b (t.lookup (key b)) = .ok w ∧ t'.lookup (key b) = some w) ∧
      ∀ k, k ∉ items.map key → t'.lookup k = t.lookup k := by
  induction items generalizing t with
  | nil =>
    cases h
    exact ⟨fun b hb => (by cases hb), fun _ _ => rfl⟩
  | cons b items ih =>
    obtain ⟨hb, hnodup⟩ := List.nodup_cons.1 hnodup
    rw [writeAll, List.foldlM_cons] at h
    obtain ⟨u, hu, hrest⟩ := bind_eq_ok.1 h
    obtain ⟨w, hw, hlookup⟩ := setWith_eq_ok hu
    obtain ⟨hitems, hothers⟩ := ih hnodup hrest
    refine ⟨fun b' hb' => ?_, fun k hk => ?_⟩
    · rcases List.mem_cons.1 hb' with rfl | hb'
      · refine ⟨w, hw, ?_⟩
        rw [hothers _ hb, hlookup, if_pos rfl]
      · -- the key of a later item has not been written yet
        obtain ⟨w', hw', ht'⟩ := hitems b' hb'
        rw [hlookup, if_neg] at hw'
        · exact ⟨w', hw', ht'⟩
        · intro heq
          exact hb (heq ▸ List.mem_map_of_mem hb')
    · rw [List.map_cons, List.mem_cons, not_or] at hk
      rw [hothers k hk.2, hlookup, if_neg hk.1]

/-- The loop succeeds if it does at every key. -/
theorem writeAll_eq_ok_iff (hnodup : (items.map key).Nodup) :
    (∃ t', writeAll key f items t = .ok t') ↔
      ∀ b ∈ items, ∃ w, f b (t.lookup (key b)) = .ok w := by
  constructor
  · rintro ⟨t', h⟩ b hb
    obtain ⟨w, hw, -⟩ := (lookup_writeAll hnodup h).1 b hb
    exact ⟨w, hw⟩
  · intro h
    induction items generalizing t with
    | nil => exact ⟨t, rfl⟩
    | cons b items ih =>
      obtain ⟨hb, hnodup⟩ := List.nodup_cons.1 hnodup
      obtain ⟨w, hw⟩ := h b List.mem_cons_self
      obtain ⟨t', ht'⟩ := ih hnodup (t := t.insert (key b) w) fun b' hb' => by
        rw [lookup_insert_eq, if_neg]
        · exact h b' (List.mem_cons_of_mem _ hb')
        · intro heq
          exact hb (heq ▸ List.mem_map_of_mem hb')
      refine ⟨t', ?_⟩
      rw [writeAll, List.foldlM_cons, setWith, hw]
      exact ht'

/-! ## Tables that are computed key by key -/

/-- The table is computed key by key: it is there if all its values are, and has them. -/
structure Pointwise (r : Except ε (HashTable κ ν)) (f : κ → Except ε (Option ν)) : Prop where
  lookup : ∀ t, r = .ok t → ∀ k, f k = .ok (t.lookup k)
  exists_ok : (∀ k, ∃ o, f k = .ok o) → ∃ t, r = .ok t

theorem Pointwise.exists_ok_iff {r : Except ε (HashTable κ ν)} {f : κ → Except ε (Option ν)}
    (h : Pointwise r f) : (∃ t, r = .ok t) ↔ ∀ k, ∃ o, f k = .ok o :=
  ⟨fun ⟨t, ht⟩ k => ⟨_, h.lookup t ht k⟩, h.exists_ok⟩

theorem pointwise_ok (t : HashTable κ ν) :
    Pointwise (.ok t : Except ε (HashTable κ ν)) fun k => .ok (t.lookup k) := by
  refine ⟨fun t' h k => ?_, fun _ => ⟨t, rfl⟩⟩
  cases h
  rfl

theorem pointwise_setWith (g : Option ν → Except ε ν) (k : κ) (t : HashTable κ ν) :
    Pointwise (setWith g k t) fun k' =>
      if k' = k then (g (t.lookup k')).map some else .ok (t.lookup k') := by
  constructor
  · intro t' h k'
    obtain ⟨w, hw, hlookup⟩ := setWith_eq_ok h
    rw [hlookup]
    split_ifs with hk
    · rw [hk, hw]
      rfl
    · rfl
  · intro h
    obtain ⟨o, ho⟩ := h k
    rw [if_pos rfl] at ho
    obtain ⟨w, hw, -⟩ := map_eq_ok.1 ho
    exact ⟨t.insert k w, by rw [setWith, hw]; rfl⟩

/-- Writing many keys. `item` is the item of a key. -/
theorem pointwise_writeAll (hnodup : (items.map key).Nodup) (item : κ → Option β)
    (hitem : ∀ k b, item k = some b ↔ b ∈ items ∧ key b = k) (t : HashTable κ ν) :
    Pointwise (writeAll key f items t) fun k =>
      (item k).elim (.ok (t.lookup k)) fun b => (f b (t.lookup k)).map some := by
  constructor
  · intro t' h k
    obtain ⟨hitems, hothers⟩ := lookup_writeAll hnodup h
    cases hk : item k with
    | none =>
      rw [Option.elim_none, hothers k]
      rw [List.mem_map]
      rintro ⟨b, hb, rfl⟩
      cases hk.symm.trans ((hitem _ b).2 ⟨hb, rfl⟩)
    | some b =>
      obtain ⟨hb, rfl⟩ := (hitem k b).1 hk
      obtain ⟨w, hw, ht'⟩ := hitems b hb
      rw [Option.elim_some, hw, ht']
      rfl
  · intro h
    refine (writeAll_eq_ok_iff hnodup).2 fun b hb => ?_
    obtain ⟨o, ho⟩ := h (key b)
    rw [(hitem (key b) b).2 ⟨hb, rfl⟩] at ho
    obtain ⟨w, hw, -⟩ := map_eq_ok.1 ho
    exact ⟨w, hw⟩

section Bind

variable {κ' ν' : Type} [DecidableEq κ'] {r : Except ε (HashTable κ' ν')}
  {f : κ' → Except ε (Option ν')}

/-- A table that is computed key by key from another one. Every key of the other table is `index` of
some key. -/
theorem Pointwise.bind_index (hr : Pointwise r f) {g : HashTable κ' ν' → Except ε (HashTable κ ν)}
    (index : κ → Option κ') (hindex : ∀ k', ∃ k, index k = some k')
    {d : κ → Except ε (Option ν)} {q : κ → Option ν' → Except ε (Option ν)}
    (hg : ∀ t, Pointwise (g t) fun k => (index k).elim (d k) fun k' => q k (t.lookup k')) :
    Pointwise (r.bind g) fun k => (index k).elim (d k) fun k' => (f k').bind (q k) := by
  constructor
  · intro u hu k
    obtain ⟨t, ht, hgt⟩ := bind_eq_ok.1 hu
    have hk := (hg t).lookup u hgt k
    cases hidx : index k with
    | none =>
      rw [hidx] at hk
      exact hk
    | some k' =>
      rw [hidx] at hk
      rw [Option.elim_some, hr.lookup t ht k']
      exact hk
  · intro h
    have hall : ∀ k', ∃ o, f k' = .ok o := by
      intro k'
      obtain ⟨k, hk⟩ := hindex k'
      obtain ⟨o, ho⟩ := h k
      rw [hk] at ho
      obtain ⟨o', ho', -⟩ := bind_eq_ok.1 ho
      exact ⟨o', ho'⟩
    obtain ⟨t, ht⟩ := hr.exists_ok hall
    obtain ⟨u, hu⟩ := (hg t).exists_ok fun k => by
      obtain ⟨o, ho⟩ := h k
      cases hidx : index k with
      | none =>
        rw [hidx] at ho
        exact ⟨o, ho⟩
      | some k' =>
        rw [hidx, Option.elim_some, hr.lookup t ht k'] at ho
        exact ⟨o, ho⟩
    exact ⟨u, bind_eq_ok.2 ⟨t, ht, hu⟩⟩

end Bind

/-- A table that is computed from one with the same keys. -/
theorem Pointwise.bind {ν' : Type} {r : Except ε (HashTable κ ν')} {f : κ → Except ε (Option ν')}
    (hr : Pointwise r f) {g : HashTable κ ν' → Except ε (HashTable κ ν)}
    {h : κ → Option ν' → Except ε (Option ν)}
    (hg : ∀ t, Pointwise (g t) fun k => h k (t.lookup k)) :
    Pointwise (r.bind g) fun k => (f k).bind (h k) :=
  hr.bind_index some (fun k => ⟨k, rfl⟩) (d := fun _ => .ok none) hg

/-- A table that is computed from something else, which is the same for all keys. -/
theorem Pointwise.of_bind {α : Type} [Nonempty κ] (x : Except ε α)
    {g : α → Except ε (HashTable κ ν)} {h : α → κ → Except ε (Option ν)}
    (hg : ∀ a, Pointwise (g a) (h a)) : Pointwise (x.bind g) fun k => x.bind fun a => h a k := by
  cases x with
  | error e =>
    refine ⟨fun t ht => (by cases ht), fun hall => ?_⟩
    obtain ⟨o, ho⟩ := hall (Classical.arbitrary κ)
    cases ho
  | ok a => exact hg a

end HashTable

end Ava.Lib
