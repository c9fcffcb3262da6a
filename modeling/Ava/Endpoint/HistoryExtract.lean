import Ava.Endpoint.Recorder

/-!
# Extraction from a recorded history

On a record log that a history of calls produced, both forms of extraction send the same calls: the
entries, in the order of the log, that are recorded for a reachable object and were not expunged.
-/

set_option autoImplicit false

namespace Ava.Endpoint

open Ava.Lib Ava.Channel

variable {s : Recorder} {h : CallHistory}

/-- The entries at the given positions that were not expunged. -/
def CallHistory.replayed (h : CallHistory) (is : List Nat) : List Entry :=
  is.filterMap fun i => (h.entries[i]?).filter fun e => e.flags ≠ 1

/-- Position `i` is recorded for an object reachable from `NULL` or a root. -/
def PositionReached (s : Recorder) (h : CallHistory) (roots : List Ptr) (i : Nat) : Prop :=
  ∃ x, ReachableObject s.metadata roots x ∧ i ∈ h.recordedFor x

theorem mem_calls_iff (hm : s.Models h) (x : Ptr) (p : OffsetPair) :
    p ∈ s.metadata.calls x ↔
      ∃ i ∈ h.recordedFor x, entryPair (entryLengths h.entries) i = p := by
  rw [hm.calls x, List.mem_map]

theorem pairsAgree_of_models (hm : s.Models h) (roots : List Ptr) :
    PairsAgree s.metadata roots := by
  intro x y _ _ p hp q hq hpq
  obtain ⟨i, hi, rfl⟩ := (mem_calls_iff hm x p).1 hp
  obtain ⟨j, hj, rfl⟩ := (mem_calls_iff hm y q).1 hq
  rw [entryPair_inj (hm.bound x i hi) (hm.bound y j hj) hpq]

/-- A list of pairs that all belong to positions is the list of the pairs of some positions. -/
theorem exists_positions {ls : List (Nat × Nat)} {P : Nat → Prop} {ps : List OffsetPair}
    (h : ∀ p ∈ ps, ∃ i, P i ∧ entryPair ls i = p) :
    ∃ is : List Nat, ps = is.map (entryPair ls) ∧ ∀ i ∈ is, P i := by
  induction ps with
  | nil => exact ⟨[], rfl, fun _ hi => by cases hi⟩
  | cons p ps ih =>
    obtain ⟨i, hi, hp⟩ := h p List.mem_cons_self
    obtain ⟨is, his, hP⟩ := ih fun q hq => h q (List.mem_cons_of_mem p hq)
    refine ⟨i :: is, by rw [List.map_cons, hp, his], ?_⟩
    intro j hj
    rcases List.mem_cons.1 hj with rfl | hj
    · exact hi
    · exact hP j hj

/-- The increasing pairs of the reachable objects are the pairs of the increasing positions. -/
theorem positions_of_pairs (hm : s.Models h) {roots : List Ptr} {ps : List OffsetPair}
    (hpw : ps.Pairwise fun p q => p.a < q.a)
    (hps : ∀ p, p ∈ ps ↔ ∃ x, ReachableObject s.metadata roots x ∧ p ∈ s.metadata.calls x) :
    ∃ is : List Nat, ps = is.map (entryPair (entryLengths h.entries)) ∧ is.Pairwise (· < ·) ∧
      ∀ i, i ∈ is ↔ PositionReached s h roots i := by
  have hbound : ∀ i, PositionReached s h roots i → i < h.entries.length := by
    rintro i ⟨x, -, hi⟩
    exact hm.bound x i hi
  have hex : ∀ p ∈ ps, ∃ i, PositionReached s h roots i ∧
      entryPair (entryLengths h.entries) i = p := by
    intro p hp
    obtain ⟨x, hx, hpx⟩ := (hps p).1 hp
    obtain ⟨i, hi, rfl⟩ := (mem_calls_iff hm x p).1 hpx
    exact ⟨i, ⟨x, hx, hi⟩, rfl⟩
  -- a pair stands for one position, and offsets are ordered as positions are
  obtain ⟨is, rfl, his⟩ := exists_positions hex
  refine ⟨is, rfl, ?_, fun i => ⟨his i, ?_⟩⟩
  · refine (List.pairwise_map.1 hpw).imp_of_mem ?_
    intro i j hi hj hlt
    exact (entryPair_lt_iff (hbound i (his i hi)) (hbound j (his j hj))).1 hlt
  · rintro ⟨x, hx, hi⟩
    have hp := (hps _).2 ⟨x, hx, (mem_calls_iff hm x _).2 ⟨i, hi, rfl⟩⟩
    obtain ⟨j, hj, hji⟩ := List.mem_map.1 hp
    rwa [← entryPair_inj (hbound j (his j hj)) (hm.bound x i hi) (congrArg OffsetPair.a hji)]

/-! ## The records of a position -/

variable {i : Nat} {e : Entry}

theorem exists_entry (hi : i < h.entries.length) : ∃ e, h.entries[i]? = some e :=
  ⟨_, List.getElem?_eq_getElem hi⟩

theorem replayed_cons (he : h.entries[i]? = some e) (is : List Nat) :
    h.replayed (i :: is) = if e.flags ≠ 1 then e :: h.replayed is else h.replayed is := by
  rw [CallHistory.replayed, List.filterMap_cons, he, Option.filter_some]
  by_cases hf : e.flags ≠ 1
  · simp [hf, CallHistory.replayed]
  · simp [hf, CallHistory.replayed]

theorem loadCommand_call (hm : s.Models h) (he : h.entries[i]? = some e) :
    ∃ log', s.log.loadCommand (some (entryPair (entryLengths h.entries) i).a) =
      some (e.flags.toNat, e.call.bytes, log') :=
  ⟨_, Log.loadCommand_at hm.represents (recordAt_entryPair he).1⟩

theorem loadCommand_ret (hm : s.Models h) (he : h.entries[i]? = some e) :
    ∃ log', s.log.loadCommand (some (entryPair (entryLengths h.entries) i).b) =
      some (e.flags.toNat, e.ret.bytes, log') :=
  ⟨_, Log.loadCommand_at hm.represents (recordAt_entryPair he).2⟩

theorem toNat_ne_one_iff (f : UInt32) : f.toNat ≠ 1 ↔ f ≠ 1 := by
  have hone : (1 : UInt32).toNat = 1 := by decide
  rw [Ne, Ne, ← UInt32.toNat_inj, hone]

theorem survivingPair_entryPair (hm : s.Models h) (he : h.entries[i]? = some e) :
    survivingPair s.log (entryPair (entryLengths h.entries) i) =
      if e.flags ≠ 1 then [e.call.bytes, e.ret.bytes] else [] := by
  obtain ⟨log₁, hcall⟩ := loadCommand_call hm he
  obtain ⟨log₂, hret⟩ := loadCommand_ret hm he
  simp only [survivingPair, surviving, hcall, hret, toNat_ne_one_iff]
  by_cases hf : e.flags ≠ 1
  · simp [hf]
  · simp [hf]

variable {is : List Nat}

/-- The commands transferred one by one are the calls and returns of the replayed entries. -/
theorem flatMap_survivingPair (hm : s.Models h) (his : ∀ i ∈ is, i < h.entries.length) :
    (is.map (entryPair (entryLengths h.entries))).flatMap (survivingPair s.log) =
      (h.replayed is).flatMap fun e => [e.call.bytes, e.ret.bytes] := by
  induction is with
  | nil => rfl
  | cons i is ih =>
    obtain ⟨e, he⟩ := exists_entry (his i List.mem_cons_self)
    have hrest := ih fun j hj => his j (List.mem_cons_of_mem i hj)
    rw [List.map_cons, List.flatMap_cons, survivingPair_entryPair hm he, hrest,
      replayed_cons he]
    by_cases hf : e.flags ≠ 1
    · simp [hf]
    · simp [hf]

/-- The pairs sent one by one are the replayed entries. -/
theorem foldlM_transferCommandInPair {ω : Type} (chan : OutputChannel ω) (hm : s.Models h)
    (his : ∀ i ∈ is, i < h.entries.length) (out : ω) :
    (is.map (entryPair (entryLengths h.entries))).foldlM (transferCommandInPair chan s.log) out =
      (h.replayed is).foldlM (fun out e => chan.sendPair out e.call.bytes e.ret.bytes) out := by
  induction is generalizing out with
  | nil => rfl
  | cons i is ih =>
    obtain ⟨e, he⟩ := exists_entry (his i List.mem_cons_self)
    have hrest := ih fun j hj => his j (List.mem_cons_of_mem i hj)
    obtain ⟨log₁, hcall⟩ := loadCommand_call hm he
    obtain ⟨log₂, hret⟩ := loadCommand_ret hm he
    rw [List.map_cons, List.foldlM_cons, transferCommandInPair, hcall, hret, replayed_cons he]
    simp only [Option.bind_some, toNat_ne_one_iff, and_self]
    by_cases hf : e.flags ≠ 1
    · rw [if_pos hf, if_pos hf, List.foldlM_cons]
      exact congrArg _ (funext fun out => hrest out)
    · rw [if_neg hf, if_neg hf]
      exact hrest out

/-- An entry of the replay stands behind every replayed entry of an earlier position. -/
theorem replayed_split (hpw : is.Pairwise (· < ·)) {before after : List Entry}
    (hsplit : h.replayed is = before ++ e :: after) :
    ∃ i ∈ is, h.entries[i]? = some e ∧ e.flags ≠ 1 ∧ ∀ j ∈ is, j < i → ∀ e' : Entry,
      h.entries[j]? = some e' → e'.flags ≠ 1 → e' ∈ before := by
  have hfilter : ∀ (i : Nat) (e : Entry), (h.entries[i]?).filter (fun e => e.flags ≠ 1) = some e ↔
      h.entries[i]? = some e ∧ e.flags ≠ 1 := by
    intro i e
    simp [Option.filter_eq_some_iff]
  obtain ⟨l₁, l₂, rfl, rfl, hl₂⟩ := List.filterMap_eq_append_iff.1 hsplit
  obtain ⟨skipped, i, rest, rfl, hskipped, hi, -⟩ := List.filterMap_eq_cons_iff.1 hl₂
  obtain ⟨he, hflags⟩ := (hfilter i e).1 hi
  refine ⟨i, by simp, he, hflags, ?_⟩
  intro j hj hji e' he' hflags'
  have hsome := (hfilter j e').2 ⟨he', hflags'⟩
  rcases List.mem_append.1 hj with hj | hj
  · exact List.mem_filterMap.2 ⟨j, hj, hsome⟩
  · rcases List.mem_append.1 hj with hj | hj
    · rw [hskipped j hj] at hsome
      cases hsome
    · -- the positions from `i` on are not smaller
      have hle : i ≤ j := by
        rcases List.mem_cons.1 hj with rfl | hj
        · exact le_rfl
        · have hrest := (List.pairwise_append.1 (List.pairwise_append.1 hpw).2.1).2.1
          exact ((List.pairwise_cons.1 hrest).1 j hj).le
      omega

theorem mem_entries_of_mem_replayed (he : e ∈ h.replayed is) : e ∈ h.entries := by
  obtain ⟨i, -, hi⟩ := List.mem_filterMap.1 he
  exact List.mem_iff_getElem?.2 ⟨i, (Option.filter_eq_some_iff.1 hi).1⟩

/-! ## Extraction -/

/-- Both forms of extraction from a recorded history: the same positions, the same objects. -/
theorem extract_of_models (hm : s.Models h) (roots : List Ptr) :
    ∃ (is : List Nat) (objs : List Ptr), is.Pairwise (· < ·) ∧
      (∀ i, i ∈ is ↔ PositionReached s h roots i) ∧
      (∀ {ω : Type} (chan : OutputChannel ω) (tag : UInt64) (extract : Ptr → Bytes)
        (pool : HandlePool) (out : ω),
        extractObjects chan s.log tag s.metadata extract pool roots out =
          objs.foldlM (extractExplicit chan tag s.metadata extract)
            (((h.replayed is).flatMap fun e => [e.call.bytes, e.ret.bytes]).foldl
              chan.transferCommand out, pool)) ∧
      (∀ {ω : Type} (chan : OutputChannel ω) (tag : UInt64) (extract : Ptr → Bytes)
        (pool : HandlePool) (out : ω),
        extractObjectsInPair chan s.log tag s.metadata extract pool roots out =
          ((h.replayed is).foldlM
            (fun out e => chan.sendPair out e.call.bytes e.ret.bytes) out).bind fun out =>
              objs.foldlM (extractExplicit chan tag s.metadata extract) (out, pool)) := by
  obtain ⟨ps, objs, hpw, hps, -, -, heq⟩ :=
    extractWith_eq s.metadata roots (pairsAgree_of_models hm roots)
  obtain ⟨is, rfl, hispw, his⟩ := positions_of_pairs hm hpw hps
  have hbound : ∀ i ∈ is, i < h.entries.length := by
    intro i hi
    obtain ⟨x, -, hx⟩ := (his i).1 hi
    exact hm.bound x i hx
  refine ⟨is, objs, hispw, his, ?_, ?_⟩
  · -- this form loads both records of every pair before it looks at the flags
    intro ω chan tag extract pool out
    have hload : ∀ p ∈ is.map (entryPair (entryLengths h.entries)),
        (s.log.loadCommand (some p.a)).isSome ∧ (s.log.loadCommand (some p.b)).isSome := by
      intro p hp
      obtain ⟨i, hi, rfl⟩ := List.mem_map.1 hp
      obtain ⟨e, he⟩ := exists_entry (hbound i hi)
      obtain ⟨log₁, hcall⟩ := loadCommand_call hm he
      obtain ⟨log₂, hret⟩ := loadCommand_ret hm he
      rw [hcall, hret]
      exact ⟨rfl, rfl⟩
    rw [extractObjects, heq, foldlM_transferBoth hload, Option.bind_some,
      flatMap_survivingPair hm hbound]
  · intro ω chan tag extract pool out
    rw [extractObjectsInPair, heq, foldlM_transferCommandInPair chan hm hbound]

end Ava.Endpoint
