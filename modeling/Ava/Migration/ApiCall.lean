import Ava.Endpoint.PoolBijection
import Ava.Endpoint.HistoryExtract

/-!
# API calls on a worker

A generated handler translates the handle ids of the call with the handle pool, runs the native
function, gives ids to the handles that the function returns, and then records
(`call_command_implementation` in the generator). `ApiCall` is one such call as the handles in it
show it; where the native function comes in, the handles it returns are given.

`apiStep` is the effect on the handle pool and on the recorder, next to the abstract history of the
recorder. `translateInputs_spec` and `translateOutputs_spec` say what a call does to the pool, and
`Handling` what it does to the history.
-/

set_option autoImplicit false

namespace Ava.Migration

open Ava.Lib Ava.Channel Ava.Endpoint

/-- Whether a handle comes from the call command or goes into the return command. A handle that does
both has an entry for each. -/
inductive Direction where
  | input
  | output
deriving DecidableEq

/-- A handle in an argument or in the return value: its id in the command, the local handle, and the
annotations of its type. -/
structure HandleValue where
  id : Ptr
  handle : Ptr
  direction : Direction
  deallocates : Bool
  objectRecord : Bool
  dependsOn : List Ptr
  extract : Bool
  replace : Bool

/-- An API call with its return. `objectRecord` is the annotation of the function itself. -/
structure ApiCall where
  call : Command
  ret : Command
  args : List HandleValue
  result : List HandleValue
  objectRecord : Bool

/-- The default case of `convert_input_value`, for a handle. -/
def translateInput (p : HandlePool) (v : HandleValue) : Option HandlePool :=
  match v.direction with
  | .output => some p
  | .input =>
    if v.deallocates then
      (p.derefAndRemove v.id).bind fun r => if r.1 = v.handle then some r.2 else none
    else (p.deref v.id).bind fun handle => if handle = v.handle then some p else none

/-- The default case of `convert_result_value`, for a handle: one that was deallocated is returned
as `NULL`. -/
def translateOutput (tag : UInt64) (p : HandlePool) (v : HandleValue) : Option HandlePool :=
  match v.direction with
  | .input => some p
  | .output =>
    if v.deallocates then some p
    else (p.lookupOrInsert tag v.handle).bind fun r => if r.1 = v.id then some r.2 else none

/-- `record_argument_metadata`, for a handle. -/
def recordArgumentMetadata (v : HandleValue) : List RecordOp :=
  if v.deallocates then [.expunge v.handle]
  else
    (if v.extract ∨ v.replace then [.assignFunctions v.handle v.extract v.replace] else []) ++
    (if v.objectRecord then [.record v.handle] else []) ++
    v.dependsOn.map (.depend v.handle)

/-- What a handler records: for the arguments, for the return value, and for `NULL`. -/
def recordActions (c : ApiCall) : List RecordOp :=
  (c.args ++ c.result).flatMap recordArgumentMetadata ++
    if c.objectRecord then [.record NULL] else []

/-- The handle pool and the recorder of a worker, with the history that the recorder holds. -/
structure ApiWorker where
  pool : HandlePool
  recorder : Recorder
  history : CallHistory

def ApiWorker.new : ApiWorker := ⟨HandlePool.new, Recorder.new, CallHistory.new⟩

/-- One API call. The return value is translated before the other outputs. -/
def apiStep (tag : UInt64) (s : ApiWorker) (c : ApiCall) : Option ApiWorker := do
  let pool ← c.args.foldlM translateInput s.pool
  let pool ← (c.result ++ c.args).foldlM (translateOutput tag) pool
  let recorder ← (.call c.call c.ret :: recordActions c).foldlM recordStep s.recorder
  let history ← (.call c.call c.ret :: recordActions c).foldlM historyStep s.history
  return ⟨pool, recorder, history⟩

/-- How the generated code finds the handles in a command: the ids it translates, with whether the
type deallocates them, and the ids it has returned. -/
structure Codec where
  inputs : Bytes → List (Bool × Ptr)
  outputs : Bytes → List Ptr

/-- The commands of a call hold the ids of its handles. -/
def Codec.Matches (codec : Codec) (c : ApiCall) : Prop :=
  codec.inputs c.call.bytes =
      (c.args.filter fun v => v.direction = .input).map (fun v => (v.deallocates, v.id)) ∧
    codec.outputs c.ret.bytes =
      ((c.result ++ c.args).filter fun v => v.direction = .output ∧ v.deallocates = false).map
        HandleValue.id

/-! ## The handle pool -/

section Pool

variable {tag : UInt64} {p q : HandlePool}

/-- The handle of `v` is taken out of the pool. -/
def HandleValue.Removes (v : HandleValue) : Prop :=
  v.direction = .input ∧ v.deallocates = true

/-- The handle of `v` gets an id from the pool. -/
def HandleValue.Returned (v : HandleValue) : Prop :=
  v.direction = .output ∧ v.deallocates = false

/-- What the translation of inputs does: it only removes, and what it removes is retired. -/
structure InputsTranslated (tag : UInt64) (p q : HandlePool) (vs : List HandleValue) : Prop where
  inv : PoolInv tag q
  counter : q.counter = p.counter
  entry : ∀ v ∈ vs, v.direction = .input → p.toHandle.lookup v.id = some v.handle
  subset : ∀ id h, q.toHandle.lookup id = some h → p.toHandle.lookup id = some h
  removed : ∀ id h, p.toHandle.lookup id = some h →
    q.toHandle.lookup id = some h ∨ ∃ v ∈ vs, v.Removes ∧ v.id = id ∧ v.handle = h
  retired : ∀ v ∈ vs, v.Removes → RetiredId tag q v.id
  keeps : ∀ id, RetiredId tag p id → RetiredId tag q id

variable {v : HandleValue}

/-- A value that removes nothing leaves the pool as it is. -/
theorem InputsTranslated.unchanged (hinv : PoolInv tag p) (hv : ¬ v.Removes)
    (hentry : v.direction = .input → p.toHandle.lookup v.id = some v.handle) :
    InputsTranslated tag p p [v] where
  inv := hinv
  counter := rfl
  entry := by
    intro u hu hin
    rw [List.mem_singleton.1 hu] at hin ⊢
    exact hentry hin
  subset := fun _ _ hl => hl
  removed := fun _ _ hl => .inl hl
  retired := by
    intro u hu hrem
    rw [List.mem_singleton.1 hu] at hrem
    exact absurd hrem hv
  keeps := fun _ hr => hr

/-- A value that the call deallocates takes its entry out of both tables. -/
theorem InputsTranslated.remove (htag : tag.toNat < 16) (hinv : PoolInv tag p) (hv : v.Removes)
    (hl : p.toHandle.lookup v.id = some v.handle) :
    InputsTranslated tag p ⟨p.counter, p.toHandle.erase v.id, p.toId.erase v.handle⟩ [v] := by
  have hc : PoolChange tag p (.derefAndRemove v.id) _ := PoolChange.remove v.id _ rfl hl
  refine ⟨hinv.change htag hc, rfl, ?_, ?_, ?_, ?_, ?_⟩
  · intro u hu _
    rw [List.mem_singleton.1 hu]
    exact hl
  · intro id h hid
    rw [HashTable.lookup_erase_eq] at hid
    split_ifs at hid with hne
    exact hid
  · intro id h hid
    by_cases hid' : id = v.id
    · subst hid'
      rw [hl] at hid
      cases hid
      exact .inr ⟨v, List.mem_singleton_self v, hv, rfl, rfl⟩
    · exact .inl (by rw [HashTable.lookup_erase_eq, if_neg hid', hid])
  · intro u hu _
    rw [List.mem_singleton.1 hu]
    exact RetiredId.of_remove hinv hl
  · intro id hid
    exact hc.retiredId htag hinv hid

theorem translateInput_spec (htag : tag.toNat < 16) (hinv : PoolInv tag p)
    (hissued : v.direction = .input → IssuedId tag p.counter v.id)
    (h : translateInput p v = some q) : InputsTranslated tag p q [v] := by
  rw [translateInput] at h
  cases hdir : v.direction with
  | output =>
    rw [hdir] at h
    cases h
    refine InputsTranslated.unchanged hinv ?_ ?_
    · rintro ⟨hin, -⟩
      rw [hdir] at hin
      cases hin
    · intro hin
      rw [hdir] at hin
      cases hin
  | input =>
    rw [hdir] at h
    -- an issued id has the handle prefix, so the pool does not pass it through
    obtain ⟨hne, hhandle⟩ := (hissued hdir).isHandle htag
    cases hdel : v.deallocates with
    | false =>
      simp only [hdel, Bool.false_eq_true, if_false] at h
      obtain ⟨handle, hderef, hq⟩ := Option.bind_eq_some_iff.1 h
      split_ifs at hq with heq
      cases hq
      subst heq
      refine InputsTranslated.unchanged hinv ?_ ?_
      · rintro ⟨-, hrem⟩
        rw [hdel] at hrem
        cases hrem
      · intro _
        exact ((HandlePool.deref_of_isHandle hne hhandle).1 hderef).1
    | true =>
      simp only [hdel, if_true] at h
      obtain ⟨⟨handle, p'⟩, hrem, hq⟩ := Option.bind_eq_some_iff.1 h
      split_ifs at hq with heq
      cases hq
      obtain ⟨hl, -, -, rfl⟩ := (HandlePool.derefAndRemove_eq_some_iff hne).1 hrem
      obtain rfl : handle = v.handle := heq
      exact InputsTranslated.remove htag hinv ⟨hdir, hdel⟩ hl

theorem InputsTranslated.refl (hinv : PoolInv tag p) : InputsTranslated tag p p [] where
  inv := hinv
  counter := rfl
  entry := fun _ hv => by cases hv
  subset := fun _ _ hl => hl
  removed := fun _ _ hl => .inl hl
  retired := fun _ hv => by cases hv
  keeps := fun _ hr => hr

variable {vs : List HandleValue}

theorem InputsTranslated.cons {r : HandlePool} (h₁ : InputsTranslated tag p q [v])
    (h₂ : InputsTranslated tag q r vs) :
    InputsTranslated tag p r (v :: vs) where
  inv := h₂.inv
  counter := h₂.counter.trans h₁.counter
  entry := by
    intro u hu hin
    rcases List.mem_cons.1 hu with rfl | hu
    · exact h₁.entry u (List.mem_singleton_self u) hin
    · exact h₁.subset _ _ (h₂.entry u hu hin)
  subset := fun id h hl => h₁.subset id h (h₂.subset id h hl)
  removed := by
    intro id h hl
    -- gone after both steps: the second removed it, or the first did
    rcases h₁.removed id h hl with hl | ⟨u, hu, hrem⟩
    · rcases h₂.removed id h hl with hl | ⟨u, hu, hrem⟩
      · exact .inl hl
      · exact .inr ⟨u, List.mem_cons_of_mem v hu, hrem⟩
    · exact .inr ⟨u, List.mem_cons.2 (.inl (List.mem_singleton.1 hu)), hrem⟩
  retired := by
    intro u hu hrem
    rcases List.mem_cons.1 hu with rfl | hu
    · exact h₂.keeps _ (h₁.retired u (List.mem_singleton_self u) hrem)
    · exact h₂.retired u hu hrem
  keeps := fun id hr => h₂.keeps id (h₁.keeps id hr)

theorem translateInputs_spec (htag : tag.toNat < 16) (hinv : PoolInv tag p)
    (hissued : ∀ v ∈ vs, v.direction = .input → IssuedId tag p.counter v.id)
    (h : vs.foldlM translateInput p = some q) : InputsTranslated tag p q vs := by
  induction vs generalizing p with
  | nil =>
    cases h
    exact InputsTranslated.refl hinv
  | cons v vs ih =>
    rw [List.foldlM_cons] at h
    obtain ⟨r, hr, hrest⟩ := Option.bind_eq_some_iff.1 h
    have hfirst := translateInput_spec htag hinv (hissued v List.mem_cons_self) hr
    refine hfirst.cons (ih hfirst.inv ?_ hrest)
    intro u hu hin
    rw [hfirst.counter]
    exact hissued u (List.mem_cons_of_mem v hu) hin

/-- What the translation of outputs does: it only adds entries, for handles that had none. -/
structure OutputsTranslated (tag : UInt64) (p q : HandlePool) (vs : List HandleValue) : Prop where
  inv : PoolInv tag q
  issued : q.issued ≤ p.issued + vs.length
  keeps : ∀ id h, p.toHandle.lookup id = some h → q.toHandle.lookup id = some h
  added : ∀ id h, q.toHandle.lookup id = some h →
    p.toHandle.lookup id = some h ∨
      ∃ v ∈ vs, v.Returned ∧ v.id = id ∧ v.handle = h ∧ h ≠ NULL ∧ h ∉ p.toId
  retired : ∀ id, RetiredId tag p id → RetiredId tag q id

theorem OutputsTranslated.refl (hinv : PoolInv tag p) (vs : List HandleValue) :
    OutputsTranslated tag p p vs where
  inv := hinv
  issued := Nat.le_add_right _ _
  keeps := fun _ _ hl => hl
  added := fun _ _ hl => .inl hl
  retired := fun _ hr => hr

/-- A handle without an id gets the next one. -/
theorem OutputsTranslated.insert (htag : tag.toNat < 16) (hinv : PoolInv tag p) (hv : v.Returned)
    (hbound : p.issued + 1 < 2 ^ 36) (hnull : v.handle ≠ NULL) (hmem : v.handle ∉ p.toId)
    (hinsert : p.internalInsert tag v.handle = some (v.id, q)) : OutputsTranslated tag p q [v] := by
  rw [hinv.internalInsert_eq htag hmem, Option.some.injEq, Prod.mk.injEq] at hinsert
  obtain ⟨hid, rfl⟩ := hinsert
  have hc : PoolChange tag p (.lookupOrInsert v.handle) _ :=
    PoolChange.insert v.handle hnull hmem hbound
  refine ⟨hinv.change htag hc, ?_, ?_, ?_, ?_⟩
  · simp only [HandlePool.issued, hinv.counter_succ, List.length_singleton]
    omega
  · intro id h hl
    exact hc.keeps_entry htag hinv (by simp) hl
  · intro id h hl
    rw [HashTable.lookup_insert_eq] at hl
    split_ifs at hl with heq
    · cases hl
      exact .inr ⟨v, List.mem_singleton_self v, hv, by rw [heq, hid], rfl, hnull, hmem⟩
    · exact .inl hl
  · intro id hr
    exact hc.retiredId htag hinv hr

theorem translateOutput_spec (htag : tag.toNat < 16) (hinv : PoolInv tag p)
    (hbound : p.issued + 1 < 2 ^ 36) (h : translateOutput tag p v = some q) :
    OutputsTranslated tag p q [v] := by
  rw [translateOutput] at h
  cases hdir : v.direction with
  | input =>
    rw [hdir] at h
    cases h
    exact OutputsTranslated.refl hinv [v]
  | output =>
    rw [hdir] at h
    cases hdel : v.deallocates with
    | true =>
      simp only [hdel, if_true] at h
      cases h
      exact OutputsTranslated.refl hinv [v]
    | false =>
      simp only [hdel, Bool.false_eq_true, if_false] at h
      obtain ⟨⟨id, p'⟩, hlookup, hq⟩ := Option.bind_eq_some_iff.1 h
      split_ifs at hq with hid
      cases hq
      obtain rfl : id = v.id := hid
      -- `lookup_or_insert` passes `NULL` through, looks a known handle up and inserts a new one
      by_cases hnull : v.handle = NULL
      · rw [HandlePool.lookupOrInsert, if_pos hnull, Option.some.injEq, Prod.mk.injEq]
          at hlookup
        obtain ⟨-, rfl⟩ := hlookup
        exact OutputsTranslated.refl hinv [v]
      by_cases hmem : v.handle ∈ p.toId
      · -- the handle has an id, and the table of handles has the same entry
        obtain ⟨id, hl⟩ := (HashTable.mem_iff_lookup _ _).1 hmem
        rw [hinv.lookupOrInsert_of_mem htag ((hinv.inverse _ _).1 hl), Option.some.injEq,
          Prod.mk.injEq] at hlookup
        obtain ⟨-, rfl⟩ := hlookup
        exact OutputsTranslated.refl hinv [v]
      · rw [PoolInv.lookupOrInsert_of_notMem hnull hmem] at hlookup
        exact OutputsTranslated.insert htag hinv ⟨hdir, hdel⟩ hbound hnull hmem hlookup

theorem OutputsTranslated.cons {r : HandlePool} (hinv : PoolInv tag p)
    (h₁ : OutputsTranslated tag p q [v]) (h₂ : OutputsTranslated tag q r vs) :
    OutputsTranslated tag p r (v :: vs) where
  inv := h₂.inv
  issued := by
    have hq := h₁.issued
    have hr := h₂.issued
    rw [List.length_singleton] at hq
    rw [List.length_cons]
    omega
  keeps := fun id h hl => h₂.keeps id h (h₁.keeps id h hl)
  added := by
    intro id h hl
    rcases h₂.added id h hl with hl | ⟨u, hu, hret, hid, hh, hnull, hnew⟩
    · rcases h₁.added id h hl with hl | ⟨u, hu, hrest⟩
      · exact .inl hl
      · exact .inr ⟨u, List.mem_cons.2 (.inl (List.mem_singleton.1 hu)), hrest⟩
    · refine .inr ⟨u, List.mem_cons_of_mem v hu, hret, hid, hh, hnull, ?_⟩
      -- a handle that has an id before keeps it
      intro hmem
      obtain ⟨id', hid'⟩ := (HashTable.mem_iff_lookup _ _).1 hmem
      have hl' := h₁.keeps id' h ((hinv.inverse h id').1 hid')
      exact hnew ((HashTable.mem_iff_lookup _ _).2 ⟨id', (h₁.inv.inverse h id').2 hl'⟩)
  retired := fun id hr => h₂.retired id (h₁.retired id hr)

theorem translateOutputs_spec (htag : tag.toNat < 16) (hinv : PoolInv tag p)
    (hbound : p.issued + vs.length < 2 ^ 36) (h : vs.foldlM (translateOutput tag) p = some q) :
    OutputsTranslated tag p q vs := by
  induction vs generalizing p with
  | nil =>
    cases h
    exact OutputsTranslated.refl hinv []
  | cons v vs ih =>
    rw [List.foldlM_cons] at h
    obtain ⟨r, hr, hrest⟩ := Option.bind_eq_some_iff.1 h
    rw [List.length_cons] at hbound
    have hfirst := translateOutput_spec htag hinv (by omega) hr
    refine hfirst.cons hinv (ih hfirst.inv ?_ hrest)
    have hissued := hfirst.issued
    rw [List.length_singleton] at hissued
    omega

end Pool

/-! ## The history -/

section History

/-- A later history has the entries of the earlier one, which may have been expunged, and more. -/
structure HistoryExtends (h h' : CallHistory) : Prop where
  entry : ∀ (i : Nat) (e : Entry), h.entries[i]? = some e → ∃ e' : Entry,
    h'.entries[i]? = some e' ∧ e'.call = e.call ∧ e'.ret = e.ret ∧ (e.flags = 1 → e'.flags = 1)
  recordedFor : ∀ x, ∀ i ∈ h.recordedFor x, i ∈ h'.recordedFor x

theorem HistoryExtends.refl (h : CallHistory) : HistoryExtends h h where
  entry := fun _ e he => ⟨e, he, rfl, rfl, id⟩
  recordedFor := fun _ _ hi => hi

theorem HistoryExtends.trans {h₁ h₂ h₃ : CallHistory} (h₁₂ : HistoryExtends h₁ h₂)
    (h₂₃ : HistoryExtends h₂ h₃) : HistoryExtends h₁ h₃ where
  entry := by
    intro i e he
    obtain ⟨e₂, he₂, hcall₂, hret₂, hflags₂⟩ := h₁₂.entry i e he
    obtain ⟨e₃, he₃, hcall₃, hret₃, hflags₃⟩ := h₂₃.entry i e₂ he₂
    exact ⟨e₃, he₃, hcall₃.trans hcall₂, hret₃.trans hret₂, fun hf => hflags₃ (hflags₂ hf)⟩
  recordedFor := fun x i hi => h₂₃.recordedFor x i (h₁₂.recordedFor x i hi)

/-- The call that is handled was written for `x`. -/
def RecordedNow (cmd : Command × Command) (h : CallHistory) (x : Ptr) : Prop :=
  ∃ i ∈ h.recordedFor x, ∃ e : Entry, h.entries[i]? = some e ∧ e.call = cmd.1 ∧ e.ret = cmd.2

theorem RecordedNow.mono {cmd : Command × Command} {h h' : CallHistory} {x : Ptr}
    (hx : RecordedNow cmd h x) (hext : HistoryExtends h h') : RecordedNow cmd h' x := by
  obtain ⟨i, hi, e, he, hcall, hret⟩ := hx
  obtain ⟨e', he', hcall', hret', -⟩ := hext.entry i e he
  exact ⟨i, hext.recordedFor x i hi, e', he', hcall'.trans hcall, hret'.trans hret⟩

/-- The state of a history while the call `cmd` is recorded, from `h₀` on: what is new in it is this
call. -/
structure Handling (h₀ h : CallHistory) (cmd : Command × Command) : Prop where
  later : HistoryExtends h₀ h
  current : h.current = some cmd
  fresh : ∀ (i : Nat) (e : Entry), h.entries[i]? = some e → h₀.entries.length ≤ i →
    e.call = cmd.1 ∧ e.ret = cmd.2
  index : ∀ i, h.index = some i → h₀.entries.length ≤ i ∧ i < h.entries.length

variable {h₀ h h' : CallHistory} {cmd : Command × Command}

theorem historyExtends_expunge (h : CallHistory) (x : Ptr) :
    HistoryExtends h { h with entries := expungeAll (h.recordedFor x) h.entries } where
  entry := by
    intro i e he
    refine ⟨if i ∈ h.recordedFor x then e.expunge else e, ?_, ?_, ?_, ?_⟩
    · rw [getElem?_expungeAll, he]
      rfl
    · split_ifs <;> rfl
    · split_ifs <;> rfl
    · intro hf
      split_ifs
      · rfl
      · exact hf
  recordedFor := fun _ _ hi => hi

theorem historyExtends_step {op : RecordOp} (hstep : historyStep h op = some h') :
    HistoryExtends h h' := by
  cases op with
  | call call ret =>
    cases hstep
    exact ⟨(HistoryExtends.refl h).entry, (HistoryExtends.refl h).recordedFor⟩
  | record obj =>
    rcases historyStep_record_cases hstep with ⟨i, -, rfl⟩ | ⟨cmd, -, -, rfl⟩
    · exact ⟨(HistoryExtends.refl h).entry, fun x i hi => mem_update_append.2 (.inl hi)⟩
    · refine ⟨?_, fun x i hi => mem_update_append.2 (.inl hi)⟩
      intro i e he
      -- entries are appended, so the old ones keep their positions
      have hi : i < h.entries.length := (List.getElem?_eq_some_iff.1 he).1
      exact ⟨e, (List.getElem?_append_left hi).trans he, rfl, rfl, id⟩
  | depend obj dep =>
    cases hstep
    exact HistoryExtends.refl h
  | assignFunctions obj extract replace =>
    cases hstep
    exact HistoryExtends.refl h
  | expunge obj =>
    cases hstep
    exact historyExtends_expunge h obj

theorem Handling.record (hh : Handling h₀ h cmd) {x : Ptr}
    (hstep : historyStep h (.record x) = some h') :
    Handling h₀ h' cmd ∧ RecordedNow cmd h' x := by
  have hext := historyExtends_step hstep
  rcases historyStep_record_cases hstep with ⟨i, hindex, rfl⟩ | ⟨cmd', hcmd', -, rfl⟩
  · -- the call was written for an object before: the same entry is used
    obtain ⟨hle, hlt⟩ := hh.index i hindex
    refine ⟨⟨hh.later.trans hext, hh.current, hh.fresh, hh.index⟩, i,
      mem_update_append.2 (.inr ⟨rfl, rfl⟩), ?_⟩
    obtain ⟨e, he⟩ : ∃ e, h.entries[i]? = some e := ⟨_, List.getElem?_eq_getElem hlt⟩
    exact ⟨e, he, hh.fresh i e he hle⟩
  · obtain rfl : cmd' = cmd := Option.some.inj (hcmd'.symm.trans hh.current)
    refine ⟨⟨hh.later.trans hext, hcmd', ?_, ?_⟩, h.entries.length,
      mem_update_append.2 (.inr ⟨rfl, rfl⟩), ⟨0, cmd'.1, cmd'.2⟩, List.getElem?_concat_length,
      rfl, rfl⟩
    · intro i e he hle
      rcases getElem?_append_singleton he with he | ⟨-, rfl⟩
      · exact hh.fresh i e he hle
      · exact ⟨rfl, rfl⟩
    · rintro i ⟨⟩
      refine ⟨?_, by simp⟩
      -- the entries of the start are still there
      by_contra hlt
      obtain ⟨e', he', -⟩ := hh.later.entry h.entries.length _
        (List.getElem?_eq_getElem (Nat.not_le.1 hlt))
      simp at he'

theorem Handling.expunge (hh : Handling h₀ h cmd) (x : Ptr) :
    Handling h₀ { h with entries := expungeAll (h.recordedFor x) h.entries } cmd where
  later := hh.later.trans (historyExtends_expunge h x)
  current := hh.current
  fresh := by
    intro i e he hle
    rw [getElem?_expungeAll] at he
    obtain ⟨e', he', rfl⟩ := Option.map_eq_some_iff.1 he
    obtain ⟨hcall, hret⟩ := hh.fresh i e' he' hle
    split_ifs
    · exact ⟨hcall, hret⟩
    · exact ⟨hcall, hret⟩
  index := by
    intro i hi
    rw [length_expungeAll]
    exact hh.index i hi

theorem Handling.step (hh : Handling h₀ h cmd) {op : RecordOp}
    (hop : ∀ call ret, op ≠ .call call ret) (hstep : historyStep h op = some h') :
    Handling h₀ h' cmd := by
  cases op with
  | call call ret => exact absurd rfl (hop call ret)
  | record obj => exact (hh.record hstep).1
  | depend obj dep =>
    cases hstep
    exact hh
  | assignFunctions obj extract replace =>
    cases hstep
    exact hh
  | expunge obj =>
    cases hstep
    exact hh.expunge obj

/-- The recording actions of a handler: the objects that it records for have the call, and what was
recorded for the objects that it expunges is expunged. -/
theorem Handling.actions (hh : Handling h₀ h cmd) {ops : List RecordOp}
    (hops : ∀ op ∈ ops, ∀ call ret, op ≠ .call call ret)
    (hrun : ops.foldlM historyStep h = some h') :
    Handling h₀ h' cmd ∧ HistoryExtends h h' ∧
      (∀ x, .record x ∈ ops → RecordedNow cmd h' x) ∧
      ∀ x, .expunge x ∈ ops → ∀ i ∈ h.recordedFor x, ∀ e : Entry, h'.entries[i]? = some e →
        i < h.entries.length → e.flags = 1 := by
  -- on the actions; `h₀` is the history before the handler and does not move
  induction ops generalizing h with
  | nil =>
    cases hrun
    refine ⟨hh, HistoryExtends.refl _, ?_, ?_⟩
    · intro x hx
      cases hx
    · intro x hx
      cases hx
  | cons op ops ih =>
    rw [List.foldlM_cons] at hrun
    obtain ⟨h₁, hstep, hrest⟩ := Option.bind_eq_some_iff.1 hrun
    have hh₁ := hh.step (hops op List.mem_cons_self) hstep
    have hext₁ := historyExtends_step hstep
    obtain ⟨hh', hext, hrec, hexp⟩ :=
      ih hh₁ (fun op' hop' => hops op' (List.mem_cons_of_mem op hop')) hrest
    refine ⟨hh', hext₁.trans hext, ?_, ?_⟩
    · intro x hx
      rcases List.mem_cons.1 hx with rfl | hx
      · exact (hh.record hstep).2.mono hext
      · exact hrec x hx
    · intro x hx i hi e he hlt
      obtain ⟨e₀, he₀⟩ : ∃ e, h.entries[i]? = some e := ⟨_, List.getElem?_eq_getElem hlt⟩
      obtain ⟨e₁, he₁, -, -, -⟩ := hext₁.entry i e₀ he₀
      rcases List.mem_cons.1 hx with rfl | hx
      · -- expunged now, and it stays so
        cases hstep
        rw [getElem?_expungeAll, he₀, Option.map_some, if_pos hi, Option.some.injEq] at he₁
        obtain ⟨e₂, he₂, -, -, hflags⟩ := hext.entry i e₁
          (by rw [getElem?_expungeAll, he₀, Option.map_some, if_pos hi, he₁])
        rw [he] at he₂
        cases he₂
        exact hflags (by rw [← he₁]; rfl)
      · exact hexp x hx i (hext₁.recordedFor x i hi) e he
          (List.getElem?_eq_some_iff.1 he₁).1

end History

end Ava.Migration
