import Ava.Endpoint.CallLog
import Ava.Lib.Transition

/-!
# Recording calls

After the native call, a generated handler walks over the arguments and records the call for the
handles that ask for it, adds dependencies, and expunges the calls of handles that the call
deallocates (`record_argument_metadata` in the generator). `RecordOp` has these actions. The first
one that records writes the call and the return to the log; later ones of the same handler share
the offset pair.

`CallHistory` is the abstract state: the list of the calls written so far, and for every object the
positions of the calls recorded for it. `Recorder.Models` relates it to the log file and the
metadata map, and `models_step` shows that every action of the handlers is the abstract action.
-/

set_option autoImplicit false

namespace Ava.Endpoint

open Ava.Lib Ava.Channel

/-- The actions of the generated handlers on the record log and the metadata. -/
inductive RecordOp where
  /-- A handler starts recording: neither command is logged yet. -/
  | call (call ret : Command)
  /-- `record_call_metadata`. -/
  | record (obj : Ptr)
  | depend (obj dep : Ptr)
  | assignFunctions (obj : Ptr) (extract replace : Bool)
  /-- `expunge_calls`, for a handle that the call deallocates. -/
  | expunge (obj : Ptr)
deriving DecidableEq

/-- The record log, the metadata map, and the variables of the handler that is recording: its call
and return, and `__call_log_offset` and `__ret_log_offset`, which are set together. -/
structure Recorder where
  log : Log
  metadata : MetadataMap
  current : Option (Command × Command)
  offsets : Option OffsetPair

/-- Nothing was recorded yet. -/
def Recorder.new : Recorder := ⟨Log.new, ∅, none, none⟩

/-- `record_call_metadata`: the two commands are logged unless they were, and the pair of their
offsets is added to the calls of `obj`. -/
def recordCallMetadata (s : Recorder) (obj : Ptr) : Option Recorder :=
  s.current.map fun cmd =>
    match s.offsets with
    | some pair => { s with metadata := s.metadata.addRecordedCall obj pair }
    | none =>
      let call := s.log.transferCommand cmd.1.bytes
      let ret := call.2.transferCommand cmd.2.bytes
      { s with
        log := ret.2
        metadata := s.metadata.addRecordedCall obj ⟨call.1, ret.1⟩
        offsets := some ⟨call.1, ret.1⟩ }

/-- One action. -/
def recordStep (s : Recorder) : RecordOp → Option Recorder
  | .call call ret => some { s with current := some (call, ret), offsets := none }
  | .record obj => recordCallMetadata s obj
  | .depend obj dep => some { s with metadata := s.metadata.addDependency obj dep }
  | .assignFunctions obj extract replace =>
    some { s with metadata := s.metadata.assignRecordReplayFunctions obj extract replace }
  | .expunge obj =>
    let r := expungeRecordedCalls s.metadata s.log obj
    some { s with metadata := r.1, log := r.2 }

/-! ## The abstract history -/

/-- The calls written to the log, the positions of the calls recorded for each object, and the call
that is being recorded with its position. -/
structure CallHistory where
  entries : List Entry
  recordedFor : Ptr → List Nat
  current : Option (Command × Command)
  index : Option Nat

def CallHistory.new : CallHistory := ⟨[], fun _ => [], none, none⟩

/-- The entries after those at the given positions were expunged. -/
def expungeAll (is : List Nat) (es : List Entry) : List Entry :=
  is.foldl (fun es i => es.modify i Entry.expunge) es

/-- The abstract action. -/
def historyStep (h : CallHistory) : RecordOp → Option CallHistory
  | .call call ret => some { h with current := some (call, ret), index := none }
  | .record obj => h.current.map fun cmd =>
    match h.index with
    | some i =>
      { h with recordedFor := Function.update h.recordedFor obj (h.recordedFor obj ++ [i]) }
    | none =>
      let i := h.entries.length
      { h with
        entries := h.entries ++ [⟨0, cmd.1, cmd.2⟩]
        recordedFor := Function.update h.recordedFor obj (h.recordedFor obj ++ [i])
        index := some i }
  | .depend _ _ => some h
  | .assignFunctions _ _ _ => some h
  | .expunge obj => some { h with entries := expungeAll (h.recordedFor obj) h.entries }

/-- The file holds the entries, every object has the pairs of its positions, and the handler's
variables are those of the history. -/
structure Recorder.Models (s : Recorder) (h : CallHistory) : Prop where
  represents : s.log.Represents (entriesLog h.entries)
  calls : ∀ x, s.metadata.calls x = (h.recordedFor x).map (entryPair (entryLengths h.entries))
  bound : ∀ x, ∀ i ∈ h.recordedFor x, i < h.entries.length
  current : s.current = h.current
  offsets : s.offsets = h.index.map (entryPair (entryLengths h.entries))
  index_entry : ∀ i, h.index = some i →
    ∃ e, h.entries[i]? = some e ∧ h.current = some (e.call, e.ret)

/-! ## Expunging -/

theorem getElem?_expungeAll (is : List Nat) (es : List Entry) (j : Nat) :
    (expungeAll is es)[j]? = (es[j]?).map fun e => if j ∈ is then e.expunge else e := by
  induction is generalizing es with
  | nil => simp [expungeAll]
  | cons i is ih =>
    rw [expungeAll, List.foldl_cons]
    refine (ih (es.modify i Entry.expunge)).trans ?_
    rw [List.getElem?_modify]
    cases es[j]? with
    | none => rfl
    | some e =>
      simp only [Option.map_eq_map, Option.map_some, List.mem_cons, Option.some.injEq]
      by_cases hij : i = j
      · subst hij
        by_cases hj : i ∈ is <;> simp [hj, Entry.expunge]
      · simp [hij, Ne.symm hij]

theorem length_expungeAll (is : List Nat) (es : List Entry) :
    (expungeAll is es).length = es.length := by
  induction is generalizing es with
  | nil => rfl
  | cons i is ih => exact (ih _).trans (List.length_modify ..)

theorem entryLengths_modify (es : List Entry) (i : Nat) :
    entryLengths (es.modify i Entry.expunge) = entryLengths es := by
  apply List.ext_getElem?
  intro j
  rw [List.getElem?_map, List.getElem?_map, List.getElem?_modify]
  cases es[j]? with
  | none => rfl
  | some e =>
    by_cases hij : i = j
    · simp [hij]
    · simp [hij]

theorem entryLengths_expungeAll (is : List Nat) (es : List Entry) :
    entryLengths (expungeAll is es) = entryLengths es := by
  induction is generalizing es with
  | nil => rfl
  | cons i is ih => exact (ih _).trans (entryLengths_modify es i)

variable {es : List Entry}

/-- The loop of `ava_expunge_recorded_calls` expunges the entries of the object. -/
theorem expunge_refines {log : Log} (hrep : log.Represents (entriesLog es)) {is : List Nat}
    (his : ∀ i ∈ is, i < es.length) :
    ((is.map (entryPair (entryLengths es))).foldl
      (fun log pair => (log.updateFlags pair.a 1).updateFlags pair.b 1) log).Represents
        (entriesLog (expungeAll is es)) := by
  induction is generalizing log es with
  | nil => exact hrep
  | cons i is ih =>
    obtain ⟨e, he⟩ : ∃ e, es[i]? = some e :=
      ⟨_, List.getElem?_eq_getElem (his i List.mem_cons_self)⟩
    have hset : es.set i e.expunge = es.modify i Entry.expunge := by
      rw [List.modify_eq_set_getElem?, he]
      rfl
    have hstep := updateFlags_entry hrep he
    rw [hset] at hstep
    have hrest := ih hstep (fun j hj => by
      rw [List.length_modify]
      exact his j (List.mem_cons_of_mem i hj))
    rw [entryLengths_modify] at hrest
    exact hrest

variable {i : Nat}

theorem getElem?_append_singleton {e x : Entry} (h : (es ++ [e])[i]? = some x) :
    es[i]? = some x ∨ (i = es.length ∧ x = e) := by
  rcases Nat.lt_trichotomy i es.length with hlt | rfl | hlt
  · rw [List.getElem?_append_left hlt] at h
    exact .inl h
  · rw [List.getElem?_concat_length] at h
    cases h
    exact .inr ⟨rfl, rfl⟩
  · rw [List.getElem?_eq_none (by simp; omega)] at h
    cases h

variable {f : Ptr → List Nat}

/-- The positions of an object after one more call of `obj`. -/
theorem mem_update_append {obj x : Ptr} {j : Nat} :
    j ∈ Function.update f obj (f obj ++ [i]) x ↔ j ∈ f x ∨ (x = obj ∧ j = i) := by
  rw [Function.update_apply]
  split_ifs with hx
  · subst hx
    simp
  · simp [hx]

/-! ## Simulation -/

variable {s s' : Recorder} {h : CallHistory}

theorem models_new : Recorder.new.Models CallHistory.new where
  represents := rfl
  calls := fun _ => rfl
  bound := fun _ _ hi => by cases hi
  current := rfl
  offsets := rfl
  index_entry := fun _ hi => by cases hi

/-- A change of the metadata that leaves the recorded calls leaves the history. -/
theorem models_of_calls_eq (hm : s.Models h) {m : MetadataMap}
    (hcalls : ∀ x, m.calls x = s.metadata.calls x) :
    Recorder.Models { s with metadata := m } h where
  represents := hm.represents
  calls := fun x => (hcalls x).trans (hm.calls x)
  bound := hm.bound
  current := hm.current
  offsets := hm.offsets
  index_entry := hm.index_entry

theorem models_call (hm : s.Models h) (call ret : Command) :
    Recorder.Models { s with current := some (call, ret), offsets := none }
      { h with current := some (call, ret), index := none } where
  represents := hm.represents
  calls := hm.calls
  bound := hm.bound
  current := rfl
  offsets := rfl
  index_entry := fun _ hi => by cases hi

/-- The calls of all objects after one more call of `obj`, on both levels. -/
theorem calls_record {m : MetadataMap} {ls : List (Nat × Nat)}
    (hcalls : ∀ x, m.calls x = (f x).map (entryPair ls)) (obj : Ptr) (i : Nat) (x : Ptr) :
    (m.addRecordedCall obj (entryPair ls i)).calls x =
      (Function.update f obj (f obj ++ [i]) x).map (entryPair ls) := by
  rw [MetadataMap.calls_addRecordedCall, Function.update_apply]
  split_ifs with hx
  · rw [hcalls obj, List.map_append, List.map_singleton]
  · exact hcalls x

theorem bound_record {n : Nat} (hbound : ∀ x, ∀ i ∈ f x, i < n) (obj : Ptr) {j : Nat} (hj : j < n)
    (x : Ptr) : ∀ i ∈ Function.update f obj (f obj ++ [j]) x, i < n := by
  intro i hi
  rcases mem_update_append.1 hi with hi | ⟨-, rfl⟩
  · exact hbound x i hi
  · exact hj

theorem models_record_shared (hm : s.Models h) (hi : h.index = some i) (obj : Ptr) :
    Recorder.Models
      { s with metadata := s.metadata.addRecordedCall obj (entryPair (entryLengths h.entries) i) }
      { h with recordedFor := Function.update h.recordedFor obj (h.recordedFor obj ++ [i]) } where
  represents := hm.represents
  calls := calls_record hm.calls obj i
  bound := by
    obtain ⟨e, he, -⟩ := hm.index_entry i hi
    exact bound_record hm.bound obj (List.getElem?_eq_some_iff.1 he).1
  current := hm.current
  offsets := hm.offsets
  index_entry := hm.index_entry

theorem models_record_first (hm : s.Models h) {cmd : Command × Command}
    (hcur : s.current = some cmd) (obj : Ptr) :
    let call := s.log.transferCommand cmd.1.bytes
    let ret := call.2.transferCommand cmd.2.bytes
    Recorder.Models
      { s with
        log := ret.2
        metadata := s.metadata.addRecordedCall obj ⟨call.1, ret.1⟩
        offsets := some ⟨call.1, ret.1⟩ }
      { h with
        entries := h.entries ++ [⟨0, cmd.1, cmd.2⟩]
        recordedFor :=
          Function.update h.recordedFor obj (h.recordedFor obj ++ [h.entries.length])
        index := some h.entries.length } := by
  intro call ret
  obtain ⟨hpair, hrep⟩ := transfer_entry hm.represents cmd.1 cmd.2
  -- the pairs of the old positions are the same in the longer log
  have hold : ∀ x, s.metadata.calls x = (h.recordedFor x).map
      (entryPair (entryLengths (h.entries ++ [⟨0, cmd.1, cmd.2⟩]))) := by
    intro x
    rw [hm.calls x]
    refine List.map_congr_left fun i hi => ?_
    have hi' : i < (entryLengths h.entries).length := by simpa using hm.bound x i hi
    rw [← entryPair_append _ hi', ← List.map_append]
  refine ⟨hrep, ?_, ?_, hm.current, congrArg some hpair, ?_⟩
  · intro x
    rw [hpair]
    exact calls_record hold obj h.entries.length x
  · refine bound_record (fun x i hi => ?_) obj ?_
    · rw [List.length_append]
      exact Nat.lt_add_right _ (hm.bound x i hi)
    · simp
  · intro i hi
    cases hi
    exact ⟨⟨0, cmd.1, cmd.2⟩, by simp, hm.current ▸ hcur⟩

theorem models_expunge (hm : s.Models h) (obj : Ptr) :
    Recorder.Models
      { s with
        metadata := (expungeRecordedCalls s.metadata s.log obj).1
        log := (expungeRecordedCalls s.metadata s.log obj).2 }
      { h with entries := expungeAll (h.recordedFor obj) h.entries } := by
  -- expunging keeps all lengths, so every offset still means the same position
  have hls := entryLengths_expungeAll (h.recordedFor obj) h.entries
  refine ⟨?_, ?_, ?_, hm.current, ?_, ?_⟩
  · have hrep := expunge_refines hm.represents (hm.bound obj)
    rw [← hm.calls obj] at hrep
    exact hrep
  · intro x
    rw [hls]
    exact (MetadataMap.calls_touch s.metadata obj x).trans (hm.calls x)
  · intro x i hi
    rw [length_expungeAll]
    exact hm.bound x i hi
  · rw [hls]
    exact hm.offsets
  · intro i hi
    obtain ⟨e, he, hcur⟩ := hm.index_entry i hi
    refine ⟨if i ∈ h.recordedFor obj then e.expunge else e, ?_, ?_⟩
    · rw [getElem?_expungeAll, he]
      rfl
    · rw [hcur]
      split_ifs <;> rfl

/-- Every action of a handler is the abstract action. -/
theorem models_step (hm : s.Models h) {op : RecordOp} (hstep : recordStep s op = some s') :
    ∃ h', historyStep h op = some h' ∧ s'.Models h' := by
  cases op with
  | call call ret =>
    cases hstep
    exact ⟨_, rfl, models_call hm call ret⟩
  -- `record_call_metadata` logs the call once and reuses the offsets after that
  | record obj =>
    obtain ⟨log, m, current, offsets⟩ := s
    obtain ⟨es, f, current', index⟩ := h
    obtain rfl : current = current' := hm.current
    obtain rfl : offsets = index.map _ := hm.offsets
    cases current with
    | none => cases hstep
    | some cmd =>
      cases index with
      | some i =>
        cases hstep
        exact ⟨_, rfl, models_record_shared hm rfl obj⟩
      | none =>
        cases hstep
        exact ⟨_, rfl, models_record_first hm rfl obj⟩
  -- the remaining fields of the metadata are not part of the history
  | depend obj dep =>
    cases hstep
    exact ⟨h, rfl, models_of_calls_eq hm fun x => MetadataMap.calls_addDependency _ _ _ _⟩
  | assignFunctions obj extract replace =>
    cases hstep
    exact ⟨h, rfl, models_of_calls_eq hm fun x => MetadataMap.calls_assignFunctions _ _ _ _ _⟩
  | expunge obj =>
    cases hstep
    exact ⟨_, rfl, models_expunge hm obj⟩

/-! ## Runs -/

/-- Every call of a history, written or about to be, satisfies `P`. -/
def CallHistory.All (P : Command → Command → Prop) (h : CallHistory) : Prop :=
  (∀ e ∈ h.entries, P e.call e.ret) ∧ ∀ cmd, h.current = some cmd → P cmd.1 cmd.2

variable {P : Command → Command → Prop}

theorem all_expungeAll (hes : ∀ e ∈ es, P e.call e.ret) (is : List Nat) :
    ∀ e ∈ expungeAll is es, P e.call e.ret := by
  intro e he
  obtain ⟨j, hj⟩ := List.mem_iff_getElem?.1 he
  rw [getElem?_expungeAll] at hj
  obtain ⟨e', he', rfl⟩ := Option.map_eq_some_iff.1 hj
  have hP := hes e' (List.mem_iff_getElem?.2 ⟨j, he'⟩)
  split_ifs
  · exact hP
  · exact hP

/-- What recording the current call for an object does: the entry of the call is used again, or
written first. -/
theorem historyStep_record_cases {h' : CallHistory} {obj : Ptr}
    (hstep : historyStep h (.record obj) = some h') :
    (∃ i, h.index = some i ∧ h' =
      { h with recordedFor := Function.update h.recordedFor obj (h.recordedFor obj ++ [i]) }) ∨
    ∃ cmd, h.current = some cmd ∧ h.index = none ∧ h' =
      { h with
        entries := h.entries ++ [⟨0, cmd.1, cmd.2⟩]
        recordedFor :=
          Function.update h.recordedFor obj (h.recordedFor obj ++ [h.entries.length])
        index := some h.entries.length } := by
  obtain ⟨es, f, current, index⟩ := h
  cases current with
  | none => cases hstep
  | some cmd =>
    cases index with
    | some i =>
      cases hstep
      exact .inl ⟨i, rfl, rfl⟩
    | none =>
      cases hstep
      exact .inr ⟨cmd, rfl, rfl, rfl⟩

theorem all_historyStep {h' : CallHistory} (hall : h.All P) {op : RecordOp}
    (hop : ∀ call ret, op = .call call ret → P call ret) (hstep : historyStep h op = some h') :
    h'.All P := by
  cases op with
  | call call ret =>
    cases hstep
    refine ⟨hall.1, ?_⟩
    rintro cmd ⟨⟩
    exact hop call ret rfl
  | record obj =>
    rcases historyStep_record_cases hstep with ⟨i, -, rfl⟩ | ⟨cmd, hcmd, -, rfl⟩
    · exact hall
    · -- the entry written is the current call
      refine ⟨?_, hall.2⟩
      intro e he
      rcases List.mem_append.1 he with he | he
      · exact hall.1 e he
      · rw [List.mem_singleton.1 he]
        exact hall.2 cmd hcmd
  | depend obj dep =>
    cases hstep
    exact hall
  | assignFunctions obj extract replace =>
    cases hstep
    exact hall
  | expunge obj =>
    cases hstep
    exact ⟨all_expungeAll hall.1 _, hall.2⟩

/-- A recorder that a run of handler actions reaches holds a history of calls, and what the guard
says about a call holds of every call in it. -/
theorem models_of_reaches {ok : Recorder → RecordOp → Prop}
    (hP : ∀ s call ret, ok s (.call call ret) → P call ret)
    (hrun : Reaches recordStep ok Recorder.new s) : ∃ h, s.Models h ∧ h.All P := by
  refine Reaches.invariant (I := fun s => ∃ h, s.Models h ∧ h.All P) ?_ hrun
    ⟨CallHistory.new, models_new, ?_, ?_⟩
  · rintro s op t ⟨h, hm, hall⟩ hok hstep
    obtain ⟨h', hhist, hm'⟩ := models_step hm hstep
    refine ⟨h', hm', all_historyStep hall ?_ hhist⟩
    rintro call ret rfl
    exact hP s call ret hok
  · intro e he
    cases he
  · intro cmd hcmd
    cases hcmd

end Ava.Endpoint
