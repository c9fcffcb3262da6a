import Ava.Endpoint.Metadata
import Ava.Lib.Traversal
import Mathlib.Data.List.Sort

/-!
# Extraction of objects

For a migration the worker collects the calls recorded for a set of objects, for everything those
depend on, and for `NULL`, and sends them to a channel in the order of the log.
`ava_extract_objects` sends the call and the return of a pair as two commands, and
`ava_extract_objects_in_pair` sends them inside one. The two functions differ in nothing else, and
are one definition here with the sending of a pair as a parameter.

`extractWith_eq` says what extraction does on every dependency graph: the traversal visits the
reachable objects, and the pairs sent are those recorded for them, once each, in the order of their
call offsets.
-/

set_option autoImplicit false

namespace Ava.Endpoint

open Ava.Lib Ava.Channel

variable {ω : Type}

/-- What extraction needs of the channel it writes to. `sendPair` builds and sends a
`struct ava_replay_command_pair_t` with both commands attached, `sendExplicitState` a
`struct ava_replay_command_t` with the state of the object with this id. -/
structure OutputChannel (ω : Type) where
  transferCommand : ω → Bytes → ω
  sendPair : ω → Bytes → Bytes → Option ω
  sendExplicitState : ω → Ptr → Bytes → Option ω

/-- The part of `struct ava_extraction_state_t` that the traversal changes. -/
structure ExtractionState where
  dependencies : List Ptr
  offsetPairs : List OffsetPair

/-- `_ava_extract_traverse`, with a bound on the depth of the recursion. -/
def extractTraverse (m : MetadataMap) : Nat → Ptr → ExtractionState → Option ExtractionState
  | 0, _, _ => none
  | n + 1, root, state =>
    if root ∈ state.dependencies then some state
    else
      let added := state.dependencies ++ [root]
      match m.lookup root with
      | none => some ⟨added, state.offsetPairs⟩
      | some metadata =>
        metadata.dependencies.foldlM (fun state d => extractTraverse m n d state)
          ⟨added, state.offsetPairs ++ metadata.recordedCalls⟩

/-- `_ava_transfer_command`: a record with flags 1 is skipped. A record that cannot be loaded is a
`NULL` command, which the code dereferences. -/
def transferCommand (chan : OutputChannel ω) (log : Log) (out : ω) (offset : Nat) : Option ω :=
  (log.loadCommand (some offset)).map fun r =>
    if r.1 ≠ 1 then chan.transferCommand out r.2.1 else out

/-- The two transfers of the loop of `ava_extract_objects`. -/
def transferBoth (chan : OutputChannel ω) (log : Log) (out : ω) (pair : OffsetPair) : Option ω :=
  (transferCommand chan log out pair.a).bind fun out => transferCommand chan log out pair.b

/-- `_ava_transfer_command_in_pair`. -/
def transferCommandInPair (chan : OutputChannel ω) (log : Log) (out : ω) (pair : OffsetPair) :
    Option ω :=
  (log.loadCommand (some pair.a)).bind fun call =>
    (log.loadCommand (some pair.b)).bind fun ret =>
      if call.1 ≠ 1 ∧ ret.1 ≠ 1 then chan.sendPair out call.2.1 ret.2.1 else some out

/-- `_ava_order_by_a`. -/
def orderByA (x y : OffsetPair) : Prop := x.a ≤ y.a

instance : DecidableRel orderByA := fun x y => inferInstanceAs (Decidable (x.a ≤ y.a))

/-- The loop over the sorted pairs; `prev` is the call offset of the pair before. -/
def extractPairs (send : ω → OffsetPair → Option ω) : Int → List OffsetPair → ω → Option ω
  | _, [], out => some out
  | prev, pair :: pairs, out =>
    (if (pair.a : Int) ≠ prev then send out pair else some out).bind
      (extractPairs send pair.a pairs)

/-- `_ava_extract_explicit`. `extract` is what the extraction function of an object returns. -/
def extractExplicit (chan : OutputChannel ω) (tag : UInt64) (m : MetadataMap)
    (extract : Ptr → Bytes) (s : ω × HandlePool) (obj : Ptr) : Option (ω × HandlePool) :=
  match m.lookup obj with
  | none => some s
  | some metadata =>
    if metadata.extract = false then some s
    else (s.2.lookupOrInsert tag obj).bind fun r =>
      (chan.sendExplicitState s.1 r.1 (extract obj)).map fun out => (out, r.2)

/-- What `ava_extract_objects` and `ava_extract_objects_in_pair` have in common. -/
def extractWith (send : ω → OffsetPair → Option ω) (chan : OutputChannel ω) (tag : UInt64)
    (m : MetadataMap) (extract : Ptr → Bytes) (pool : HandlePool) (toExtract : List Ptr) (out : ω) :
    Option (ω × HandlePool) := do
  -- the depth is bounded by the number of objects that have metadata
  let depth := m.keys.length + 1
  let state ← extractTraverse m depth NULL ⟨[], []⟩
  let state ← toExtract.foldlM (fun state root => extractTraverse m depth root state) state
  let out ← extractPairs send (-1) (state.offsetPairs.insertionSort orderByA) out
  state.dependencies.foldlM (extractExplicit chan tag m extract) (out, pool)

/-- `ava_extract_objects`. -/
def extractObjects (chan : OutputChannel ω) (log : Log) :=
  extractWith (transferBoth chan log) chan

/-- `ava_extract_objects_in_pair`. -/
def extractObjectsInPair (chan : OutputChannel ω) (log : Log) :=
  extractWith (transferCommandInPair chan log) chan

/-! ## The traversal -/

/-- The object `x` is reached from `NULL` or one of the roots through dependencies. -/
def ReachableObject (m : MetadataMap) (roots : List Ptr) (x : Ptr) : Prop :=
  ∃ r ∈ NULL :: roots, Reachable m.deps r x

variable {m : MetadataMap}

theorem ReachableObject.of_mem {roots : List Ptr} {x : Ptr} (hx : x ∈ NULL :: roots) :
    ReachableObject m roots x :=
  ⟨x, hx, Relation.ReflTransGen.refl⟩

theorem foldlM_traverse {n : Nat}
    (hvisit : ∀ x v, extractTraverse m n x ⟨v, v.flatMap m.calls⟩ =
      (visit m.deps n x v).map fun w => ⟨w, w.flatMap m.calls⟩)
    (xs v : List Ptr) :
    xs.foldlM (fun state d => extractTraverse m n d state) ⟨v, v.flatMap m.calls⟩ =
      (visitAll m.deps n xs v).map fun w => ⟨w, w.flatMap m.calls⟩ := by
  induction xs generalizing v with
  | nil => rfl
  | cons x xs ih =>
    rw [visitAll, List.foldlM_cons, List.foldlM_cons, hvisit]
    cases visit m.deps n x v with
    | none => rfl
    | some w => exact ih w

/-- The code's traversal is the general one; the pairs it collects are those of the objects
visited, in the order of the visits. -/
theorem extractTraverse_eq (m : MetadataMap) (n : Nat) (x : Ptr) (v : List Ptr) :
    extractTraverse m n x ⟨v, v.flatMap m.calls⟩ =
      (visit m.deps n x v).map fun w => ⟨w, w.flatMap m.calls⟩ := by
  -- on the fuel; the state of the code carries the pairs of the objects visited so far
  induction n generalizing x v with
  | zero => rfl
  | succ n ih =>
    rw [extractTraverse, visit]
    by_cases hx : x ∈ v
    · rw [if_pos hx, if_pos hx]
      rfl
    · have hcalls : v.flatMap m.calls ++ m.calls x = (v ++ [x]).flatMap m.calls := by
        rw [List.flatMap_append, List.flatMap_singleton]
      rw [if_neg hx, if_neg hx]
      cases hl : m.lookup x with
      -- an object without metadata has no pairs and no dependencies
      | none =>
        have hmd : m.metadata x = ⟨[], [], false, false⟩ := by
          rw [MetadataMap.metadata, hl, Option.getD_none]
        rw [MetadataMap.calls, hmd, List.append_nil] at hcalls
        rw [MetadataMap.deps, hmd, hcalls]
        rfl
      | some metadata =>
        have hmd : m.metadata x = metadata := by
          rw [MetadataMap.metadata, hl, Option.getD_some]
        have hfold := foldlM_traverse ih (m.deps x) (v ++ [x])
        rw [← hcalls, MetadataMap.calls, MetadataMap.deps, hmd] at hfold
        rw [MetadataMap.deps, hmd]
        exact hfold

/-- The traversal from `NULL` and the roots ends and visits the reachable objects. -/
theorem traverse_roots (m : MetadataMap) (roots : List Ptr) :
    ∃ objs : List Ptr, objs.Nodup ∧ (∀ x, x ∈ objs ↔ ReachableObject m roots x) ∧
      ((extractTraverse m (m.keys.length + 1) NULL ⟨[], []⟩).bind fun state =>
        roots.foldlM (fun state root => extractTraverse m (m.keys.length + 1) root state) state) =
      some ⟨objs, objs.flatMap m.calls⟩ := by
  -- only keys of the table have successors, so the fuel lasts for every simple path
  have hdom : ∀ x, m.deps x ≠ [] → x ∈ m.keys.toFinset := fun x hx =>
    List.mem_toFinset.2 (MetadataMap.mem_keys_of_deps m hx)
  have hcard : m.keys.toFinset.card < m.keys.length + 1 :=
    Nat.lt_succ_of_le (List.toFinset_card_le _)
  obtain ⟨objs, hobjs⟩ := visitAll_isSome hdom hcard (NULL :: roots)
  refine ⟨objs, nodup_visitAll hobjs, mem_visitAll_iff hobjs, ?_⟩
  have hfold := foldlM_traverse (extractTraverse_eq m (m.keys.length + 1)) (NULL :: roots) []
  rw [hobjs, List.foldlM_cons] at hfold
  exact hfold

/-! ## The loop over the sorted pairs -/

/-- The pairs that the loop sends. -/
def distinctPairs : Int → List OffsetPair → List OffsetPair
  | _, [] => []
  | prev, pair :: pairs =>
    if (pair.a : Int) ≠ prev then pair :: distinctPairs pair.a pairs
    else distinctPairs pair.a pairs

theorem extractPairs_eq (send : ω → OffsetPair → Option ω) (prev : Int) (pairs : List OffsetPair)
    (out : ω) : extractPairs send prev pairs out = (distinctPairs prev pairs).foldlM send out := by
  induction pairs generalizing prev out with
  | nil => rfl
  | cons pair pairs ih =>
    rw [extractPairs, distinctPairs]
    by_cases h : (pair.a : Int) ≠ prev
    · rw [if_pos h, if_pos h, List.foldlM_cons]
      exact congrArg _ (funext fun out => ih pair.a out)
    · rw [if_neg h, if_neg h]
      exact ih pair.a out

variable {pairs : List OffsetPair} {prev : Int}

theorem mem_of_mem_distinctPairs {p : OffsetPair} (h : p ∈ distinctPairs prev pairs) :
    p ∈ pairs := by
  induction pairs generalizing prev with
  | nil => exact h
  | cons q pairs ih =>
    rw [distinctPairs] at h
    split_ifs at h
    · rcases List.mem_cons.1 h with rfl | h
      · exact List.mem_cons_self
      · exact List.mem_cons_of_mem q (ih h)
    · exact List.mem_cons_of_mem q (ih h)

/-- Every call offset but `prev` is among those sent. -/
theorem exists_mem_distinctPairs {p : OffsetPair} (h : p ∈ pairs) (hprev : (p.a : Int) ≠ prev) :
    ∃ q ∈ distinctPairs prev pairs, q.a = p.a := by
  induction pairs generalizing prev with
  | nil => cases h
  | cons q pairs ih =>
    rw [distinctPairs]
    by_cases hqp : q.a = p.a
    · rw [hqp, if_pos hprev]
      exact ⟨q, List.mem_cons_self, hqp⟩
    · have hmem : p ∈ pairs := by
        rcases List.mem_cons.1 h with rfl | h
        · exact absurd rfl hqp
        · exact h
      -- the pair is not dropped later: the next `prev` is another offset
      have hne : (p.a : Int) ≠ q.a := by omega
      obtain ⟨r, hr, hra⟩ := ih hmem hne
      refine ⟨r, ?_, hra⟩
      split_ifs
      · exact List.mem_cons_of_mem q hr
      · exact hr

/-- On sorted pairs that are not before `prev` the offsets sent increase and are past `prev`. -/
theorem pairwise_distinctPairs (hsorted : pairs.Pairwise orderByA)
    (hprev : ∀ p ∈ pairs, prev ≤ p.a) :
    (distinctPairs prev pairs).Pairwise (fun p q => p.a < q.a) ∧
      ∀ p ∈ distinctPairs prev pairs, prev < p.a := by
  induction pairs generalizing prev with
  | nil => exact ⟨List.Pairwise.nil, fun _ h => by cases h⟩
  | cons q pairs ih =>
    obtain ⟨hq, hpairs⟩ := List.pairwise_cons.1 hsorted
    have hqle : ∀ p ∈ pairs, (q.a : Int) ≤ p.a := fun p hp => Int.ofNat_le.2 (hq p hp)
    obtain ⟨hpw, hlt⟩ := ih hpairs hqle
    -- `prev` is the offset just seen, and sorting puts the equal ones side by side
    have hprevq := hprev q List.mem_cons_self
    rw [distinctPairs]
    split_ifs with h
    · refine ⟨List.pairwise_cons.2 ⟨fun p hp => Int.ofNat_lt.1 (hlt p hp), hpw⟩, ?_⟩
      intro p hp
      rcases List.mem_cons.1 hp with rfl | hp
      · omega
      · have := hlt p hp
        omega
    · refine ⟨hpw, fun p hp => ?_⟩
      have := hlt p hp
      omega

/-- Pairs of reachable objects with the same call offset are the same pair. -/
def PairsAgree (m : MetadataMap) (roots : List Ptr) : Prop :=
  ∀ x y, ReachableObject m roots x → ReachableObject m roots y →
    ∀ p ∈ m.calls x, ∀ q ∈ m.calls y, p.a = q.a → p.b = q.b

/-- The pairs sent for the objects visited: in increasing call offset, once each. -/
theorem distinctPairs_of_objects {roots objs : List Ptr}
    (hobjs : ∀ x, x ∈ objs ↔ ReachableObject m roots x) (hagree : PairsAgree m roots) :
    let ps := distinctPairs (-1) ((objs.flatMap m.calls).insertionSort orderByA)
    ps.Pairwise (fun p q => p.a < q.a) ∧
      ∀ p, p ∈ ps ↔ ∃ x, ReachableObject m roots x ∧ p ∈ m.calls x := by
  have : IsTrans OffsetPair orderByA := ⟨fun _ _ _ => Nat.le_trans⟩
  have : Std.Total orderByA := ⟨fun x y => Nat.le_total x.a y.a⟩
  have hmem : ∀ p, p ∈ (objs.flatMap m.calls).insertionSort orderByA ↔
      ∃ x, ReachableObject m roots x ∧ p ∈ m.calls x := by
    intro p
    simp only [List.mem_insertionSort, List.mem_flatMap, hobjs]
  have hpos : ∀ p : OffsetPair, (-1 : Int) ≤ p.a := fun p => by omega
  refine ⟨(pairwise_distinctPairs (List.pairwise_insertionSort ..) fun p _ => hpos p).1, ?_⟩
  intro p
  constructor
  · intro hp
    exact (hmem p).1 (mem_of_mem_distinctPairs hp)
  · rintro ⟨x, hx, hp⟩
    -- the initial `prev` is -1 and no offset is; the pair kept for this offset is `p` itself
    have hprev : (p.a : Int) ≠ -1 := by omega
    obtain ⟨q, hq, hqa⟩ := exists_mem_distinctPairs ((hmem p).2 ⟨x, hx, hp⟩) hprev
    obtain ⟨y, hy, hqy⟩ := (hmem q).1 (mem_of_mem_distinctPairs hq)
    have hqp : q = p := by
      have hb := hagree y x hy hx q hqy p hp hqa
      cases q
      cases p
      cases hqa
      cases hb
      rfl
    rwa [← hqp]

/-- Extraction sends the pairs recorded for the reachable objects, in increasing call offset and
once each, and then the explicit state of these objects. The pairs and the objects do not depend on
the channel or on how a pair is sent. -/
theorem extractWith_eq (m : MetadataMap) (roots : List Ptr) (hagree : PairsAgree m roots) :
    ∃ (ps : List OffsetPair) (objs : List Ptr),
      ps.Pairwise (fun p q => p.a < q.a) ∧
      (∀ p, p ∈ ps ↔ ∃ x, ReachableObject m roots x ∧ p ∈ m.calls x) ∧
      objs.Nodup ∧ (∀ x, x ∈ objs ↔ ReachableObject m roots x) ∧
      ∀ {ω : Type} (send : ω → OffsetPair → Option ω) (chan : OutputChannel ω) (tag : UInt64)
        (extract : Ptr → Bytes) (pool : HandlePool) (out : ω),
        extractWith send chan tag m extract pool roots out =
          (ps.foldlM send out).bind fun out =>
            objs.foldlM (extractExplicit chan tag m extract) (out, pool) := by
  obtain ⟨objs, hnodup, hobjs, htraverse⟩ := traverse_roots m roots
  obtain ⟨hpw, hps⟩ := distinctPairs_of_objects hobjs hagree
  refine ⟨_, objs, hpw, hps, hnodup, hobjs, ?_⟩
  intro ω send chan tag extract pool out
  simp only [extractWith, bind, ← Option.bind_assoc]
  rw [htraverse, Option.bind_some, extractPairs_eq]

/-! ## Single transfers -/

/-- The command recorded at `offset`, unless its flags are 1. -/
def surviving (log : Log) (offset : Nat) : List Bytes :=
  match log.loadCommand (some offset) with
  | none => []
  | some (flags, cmd, _) => if flags ≠ 1 then [cmd] else []

/-- The call of a pair, then its return. -/
def survivingPair (log : Log) (pair : OffsetPair) : List Bytes :=
  surviving log pair.a ++ surviving log pair.b

theorem transferCommand_eq {chan : OutputChannel ω} {log : Log} {offset : Nat}
    (h : (log.loadCommand (some offset)).isSome) (out : ω) :
    transferCommand chan log out offset =
      some ((surviving log offset).foldl chan.transferCommand out) := by
  obtain ⟨⟨flags, cmd, log'⟩, hload⟩ := Option.isSome_iff_exists.1 h
  rw [transferCommand, surviving, hload]
  by_cases hf : flags ≠ 1
  · simp [hf]
  · simp [hf]

theorem foldlM_transferBoth {chan : OutputChannel ω} {log : Log} {ps : List OffsetPair}
    (h : ∀ p ∈ ps, (log.loadCommand (some p.a)).isSome ∧ (log.loadCommand (some p.b)).isSome)
    (out : ω) :
    ps.foldlM (transferBoth chan log) out =
      some ((ps.flatMap (survivingPair log)).foldl chan.transferCommand out) := by
  induction ps generalizing out with
  | nil => rfl
  | cons p ps ih =>
    obtain ⟨ha, hb⟩ := h p List.mem_cons_self
    have hp : transferBoth chan log out p =
        some ((survivingPair log p).foldl chan.transferCommand out) := by
      rw [transferBoth, transferCommand_eq ha, Option.bind_some, transferCommand_eq hb,
        survivingPair, List.foldl_append]
    rw [List.foldlM_cons, hp, List.flatMap_cons, List.foldl_append]
    exact ih (fun q hq => h q (List.mem_cons_of_mem p hq)) _

/-- `ava_extract_objects` on any dependency graph, cyclic ones included: it transfers, for each
call offset recorded on `NULL` or on an object reachable from `NULL` or a root, in increasing
offset and once each, the call record unless it is expunged, and the return record unless it is
expunged; then it sends the explicit state of the reachable objects. -/
theorem extractObjects_exact (chan : OutputChannel ω) (log : Log) (tag : UInt64) (m : MetadataMap)
    (extract : Ptr → Bytes) (pool : HandlePool) (roots : List Ptr)
    (hagree : PairsAgree m roots)
    (hload : ∀ x, ReachableObject m roots x → ∀ p ∈ m.calls x,
      (log.loadCommand (some p.a)).isSome ∧ (log.loadCommand (some p.b)).isSome) :
    ∃ (ps : List OffsetPair) (objs : List Ptr),
      ps.Pairwise (fun p q => p.a < q.a) ∧
      (∀ p, p ∈ ps ↔ ∃ x, ReachableObject m roots x ∧ p ∈ m.calls x) ∧
      objs.Nodup ∧ (∀ x, x ∈ objs ↔ ReachableObject m roots x) ∧
      ∀ out, extractObjects chan log tag m extract pool roots out =
        objs.foldlM (extractExplicit chan tag m extract)
          ((ps.flatMap (survivingPair log)).foldl chan.transferCommand out, pool) := by
  obtain ⟨ps, objs, hpw, hps, hnodup, hobjs, heq⟩ := extractWith_eq m roots hagree
  refine ⟨ps, objs, hpw, hps, hnodup, hobjs, ?_⟩
  intro out
  have hsome : ∀ p ∈ ps,
      (log.loadCommand (some p.a)).isSome ∧ (log.loadCommand (some p.b)).isSome := by
    intro p hp
    obtain ⟨x, hx, hpx⟩ := (hps p).1 hp
    exact hload x hx p hpx
  rw [extractObjects, heq, foldlM_transferBoth hsome, Option.bind_some]

/-- A channel that keeps the list of the commands transferred to it. -/
def listChannel : OutputChannel (List Bytes) where
  transferCommand := fun out cmd => out ++ [cmd]
  sendPair := fun out call ret => some (out ++ [call, ret])
  sendExplicitState := fun out _ data => some (out ++ [data])

/-- Two objects that depend on each other; a call is recorded for the second one, and the first one
is extracted. -/
theorem extractObjects_exact_on_cycle :
    let m : MetadataMap := (((∅ : MetadataMap).addDependency 5 6).addDependency 6 5).addRecordedCall
      6 ⟨0, 152⟩
    let rs : List LogRecord := [⟨0, Command.ofIds 1 1⟩, ⟨0, Command.ofIds 1 2⟩]
    ∃ (ps : List OffsetPair) (objs : List Ptr), ⟨0, 152⟩ ∈ ps ∧
      extractObjects listChannel ⟨encodeLog rs, 0⟩ 1 m (fun _ => []) HandlePool.new [5] [] =
        objs.foldlM (extractExplicit listChannel 1 m fun _ => [])
          ((ps.flatMap (survivingPair ⟨encodeLog rs, 0⟩)).foldl listChannel.transferCommand [],
            HandlePool.new) := by
  intro m rs
  have hcalls : ∀ x, ∀ p ∈ m.calls x, p = ⟨0, 152⟩ := by
    intro x p hp
    simp only [m, MetadataMap.calls_addRecordedCall, MetadataMap.calls_addDependency] at hp
    split_ifs at hp
    · simpa [MetadataMap.calls, MetadataMap.metadata] using hp
    · simp [MetadataMap.calls, MetadataMap.metadata] at hp
  have hload : ∀ x, ReachableObject m [5] x → ∀ p ∈ m.calls x,
      ((Log.mk (encodeLog rs) 0).loadCommand (some p.a)).isSome ∧
        ((Log.mk (encodeLog rs) 0).loadCommand (some p.b)).isSome := by
    intro x _ p hp
    rw [hcalls x p hp]
    have hcall : RecordAt rs 0 ⟨0, Command.ofIds 1 1⟩ := ⟨[], _, rfl, rfl⟩
    have hret : RecordAt rs 152 ⟨0, Command.ofIds 1 2⟩ := ⟨[⟨0, Command.ofIds 1 1⟩], [], rfl, rfl⟩
    have hrep : (Log.mk (encodeLog rs) 0).Represents rs := rfl
    rw [Log.loadCommand_at hrep hcall, Log.loadCommand_at hrep hret]
    exact ⟨rfl, rfl⟩
  obtain ⟨ps, objs, -, hps, -, -, heq⟩ := extractObjects_exact listChannel ⟨encodeLog rs, 0⟩ 1 m
    (fun _ => []) HandlePool.new [5]
    (fun x y _ _ p hp q hq _ => by rw [hcalls x p hp, hcalls y q hq]) hload
  refine ⟨ps, objs, (hps _).2 ⟨6, ⟨5, by simp, ?_⟩, ?_⟩, heq []⟩
  · exact Relation.ReflTransGen.single (by decide)
  · decide

end Ava.Endpoint
