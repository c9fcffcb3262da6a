import Ava.Migration.ApiCall
import Ava.Migration.Replay

/-!
# Is a replay self-contained?

A replay translates the ids in the recorded calls with a fresh handle pool, which knows only the ids
that the replay itself has assigned. Recording follows single handles: when a handle is destroyed
the calls recorded for it are expunged, also if another object that is still alive was created from
it. The replay of that creation then takes an id that nothing has assigned
(`replay_lacks_destroyed_parent`).

`replay_selfContained` shows that this is all that can go wrong: at any point of any history at
which no call left in the log takes an id that an expunged call returned, every id that the replay
translates was assigned before and not removed.
-/

set_option autoImplicit false

namespace Ava.Migration

open Ava.Lib Ava.Channel Ava.Endpoint

/-- The histories considered: the commands hold the ids of their handles, the api is not the
internal one, every handle argument is alive, a call is recorded for the handles it creates, and
fewer than `2 ^ 36` ids are issued. -/
structure ApiCall.Legal (codec : Codec) (s : ApiWorker) (c : ApiCall) : Prop where
  api : apiId c.call.bytes ≠ commandHandlerApi.toNat
  ids : codec.Matches c
  alive : ∀ v ∈ c.args, v.direction = .input → v.id ∈ s.pool.toHandle
  created : ∀ p ∈ c.args.foldlM translateInput s.pool, ∀ v ∈ c.result ++ c.args,
    v.direction = .output ∧ v.deallocates = false → v.handle ≠ NULL → v.handle ∉ p.toId →
      v.objectRecord = true
  bound : s.pool.issued + (c.result ++ c.args).length < 2 ^ 36

/-- Every id that is translated in the replay of the calls was assigned by an earlier one and
removed by none. -/
def ReplaySelfContained (codec : Codec) (calls : List ReplayCall) : Prop :=
  ∀ before c after, calls = before ++ c :: after → ∀ t ∈ codec.inputs c.callCmd.bytes,
    (∃ b ∈ before, t.2 ∈ codec.outputs b.retCmd.bytes) ∧
      ∀ b ∈ before, (true, t.2) ∉ codec.inputs b.callCmd.bytes

/-- No call that is left in the log takes an id that an expunged call returned. -/
def ExpungedUnused (codec : Codec) (h : CallHistory) : Prop :=
  ∀ e ∈ h.entries, e.flags ≠ 1 → ∀ e' ∈ h.entries, e'.flags = 1 →
    ∀ t ∈ codec.inputs e.call.bytes, t.2 ∉ codec.outputs e'.ret.bytes

/-! ## The invariant -/

/-- An earlier call returned this id: it is recorded for the handle of the id, or the id is not in
use any more and the call is expunged. -/
def SuppliedBefore (codec : Codec) (s : ApiWorker) (i : Nat) (id : Ptr) : Prop :=
  ∃ j < i, ∃ e : Entry, s.history.entries[j]? = some e ∧ id ∈ codec.outputs e.ret.bytes ∧
    ((∃ x, s.pool.toHandle.lookup id = some x ∧ j ∈ s.history.recordedFor x) ∨ e.flags = 1)

structure ApiInv (codec : Codec) (tag : UInt64) (s : ApiWorker) : Prop where
  models : s.recorder.Models s.history
  pool : PoolInv tag s.pool
  api : ∀ e ∈ s.history.entries, apiId e.call.bytes ≠ commandHandlerApi.toNat
  created : ∀ id x, s.pool.toHandle.lookup id = some x → ∃ j ∈ s.history.recordedFor x,
    ∃ e : Entry, s.history.entries[j]? = some e ∧ id ∈ codec.outputs e.ret.bytes
  supplied : ∀ (i : Nat) (e : Entry), s.history.entries[i]? = some e →
    ∀ t ∈ codec.inputs e.call.bytes, SuppliedBefore codec s i t.2
  retired : ∀ e ∈ s.history.entries, ∀ id, (true, id) ∈ codec.inputs e.call.bytes →
    RetiredId tag s.pool id

theorem apiInv_new (codec : Codec) (tag : UInt64) : ApiInv codec tag ApiWorker.new where
  models := models_new
  pool := poolInv_new tag
  api := fun _ he => by cases he
  created := fun _ _ hl => by cases hl
  supplied := fun _ _ he => by cases he
  retired := fun _ he => by cases he

variable {codec : Codec} {tag : UInt64} {s s' : ApiWorker} {c : ApiCall}

/-- The calls that a handler makes to record, taken apart. -/
theorem recordActions_ne_call (c : ApiCall) :
    ∀ op ∈ recordActions c, ∀ call ret, op ≠ .call call ret := by
  intro op hop call ret
  rw [recordActions, List.mem_append, List.mem_flatMap] at hop
  rcases hop with ⟨v, -, hv⟩ | hop
  · rw [recordArgumentMetadata] at hv
    split_ifs at hv <;> aesop
  · split_ifs at hop <;> aesop

variable {v : HandleValue}

theorem expunge_mem_recordActions (hv : v ∈ c.args) (hdel : v.deallocates = true) :
    .expunge v.handle ∈ recordActions c := by
  rw [recordActions, List.mem_append, List.mem_flatMap]
  refine .inl ⟨v, List.mem_append_left _ hv, ?_⟩
  rw [recordArgumentMetadata, if_pos hdel]
  exact List.mem_singleton_self _

theorem record_mem_recordActions (hv : v ∈ c.result ++ c.args) (hdel : v.deallocates = false)
    (hrec : v.objectRecord = true) : .record v.handle ∈ recordActions c := by
  rw [recordActions, List.mem_append, List.mem_flatMap]
  refine .inl ⟨v, List.mem_append.2 (List.mem_append.1 hv).symm, ?_⟩
  simp [recordArgumentMetadata, hdel, hrec]

/-- What one legal call does. -/
structure CallEffect (tag : UInt64) (s s' : ApiWorker) (c : ApiCall) (mid : HandlePool) : Prop where
  inputs : InputsTranslated tag s.pool mid c.args
  outputs : OutputsTranslated tag mid s'.pool (c.result ++ c.args)
  models : s'.recorder.Models s'.history
  handling : Handling s.history s'.history (c.call, c.ret)
  records : ∀ x, .record x ∈ recordActions c → RecordedNow (c.call, c.ret) s'.history x
  expunges : ∀ x, .expunge x ∈ recordActions c → ∀ i ∈ s.history.recordedFor x, ∀ e : Entry,
    s'.history.entries[i]? = some e → i < s.history.entries.length → e.flags = 1

/-- The recorder and the history stay together along the actions of a handler. -/
theorem models_foldlM {r r' : Recorder} {h h' : CallHistory} {ops : List RecordOp}
    (hm : r.Models h) (hr : ops.foldlM recordStep r = some r')
    (hh : ops.foldlM historyStep h = some h') : r'.Models h' := by
  induction ops generalizing r h with
  | nil =>
    cases hr
    cases hh
    exact hm
  | cons op ops ih =>
    rw [List.foldlM_cons] at hr hh
    obtain ⟨r₁, hr₁, hrest⟩ := Option.bind_eq_some_iff.1 hr
    obtain ⟨h₁, hh₁, hhrest⟩ := Option.bind_eq_some_iff.1 hh
    obtain ⟨h₂, hh₂, hm₂⟩ := models_step hm hr₁
    rw [hh₁] at hh₂
    cases hh₂
    exact ih hm₂ hrest hhrest

theorem handling_start (h : CallHistory) (cmd : Command × Command) :
    Handling h { h with current := some cmd, index := none } cmd where
  later := ⟨(HistoryExtends.refl h).entry, (HistoryExtends.refl h).recordedFor⟩
  current := rfl
  fresh := by
    intro i e he hle
    exact absurd (List.getElem?_eq_some_iff.1 he).1 (Nat.not_lt.2 hle)
  index := by
    rintro i ⟨⟩

/-- Every step is a call with its effect. -/
theorem apiStep_effect (htag : tag.toNat < 16) (hinv : ApiInv codec tag s)
    (hlegal : c.Legal codec s) (hstep : apiStep tag s c = some s') :
    ∃ mid, c.args.foldlM translateInput s.pool = some mid ∧ CallEffect tag s s' c mid := by
  obtain ⟨mid, hmid, hstep⟩ := Option.bind_eq_some_iff.1 hstep
  obtain ⟨pool, hpool, hstep⟩ := Option.bind_eq_some_iff.1 hstep
  obtain ⟨recorder, hrecorder, hstep⟩ := Option.bind_eq_some_iff.1 hstep
  obtain ⟨history, hhistory, hstep⟩ := Option.bind_eq_some_iff.1 hstep
  cases hstep
  -- an argument that is alive has an entry, and the id of an entry was issued
  have hissued : ∀ v ∈ c.args, v.direction = .input → IssuedId tag s.pool.counter v.id := by
    intro v hv hin
    obtain ⟨x, hx⟩ := (HashTable.mem_iff_lookup _ _).1 (hlegal.alive v hv hin)
    exact (hinv.pool.entry v.id x hx).2
  have hinputs := translateInputs_spec htag hinv.pool hissued hmid
  have hbound : mid.issued + (c.result ++ c.args).length < 2 ^ 36 := by
    rw [HandlePool.issued, hinputs.counter]
    exact hlegal.bound
  have hmodels := models_foldlM hinv.models hrecorder hhistory
  rw [List.foldlM_cons] at hhistory
  obtain ⟨hhandling, -, hrecords, hexpunges⟩ :=
    (handling_start s.history (c.call, c.ret)).actions (recordActions_ne_call c) hhistory
  exact ⟨mid, hmid, hinputs, translateOutputs_spec htag hinputs.inv hbound hpool, hmodels,
    hhandling, hrecords, hexpunges⟩

namespace CallEffect

variable {mid : HandlePool}

/-- An entry after the call is an old one, or the call itself. -/
theorem entry_cases (heff : CallEffect tag s s' c mid) {i : Nat} {e : Entry}
    (he : s'.history.entries[i]? = some e) :
    (∃ e₀ : Entry, s.history.entries[i]? = some e₀ ∧ e.call = e₀.call) ∨
      s.history.entries.length ≤ i ∧ e.call = c.call := by
  rcases Nat.lt_or_ge i s.history.entries.length with hlt | hle
  · obtain ⟨e', he', hcall, -, -⟩ :=
      heff.handling.later.entry i _ (List.getElem?_eq_getElem hlt)
    rw [he] at he'
    cases he'
    exact .inl ⟨_, List.getElem?_eq_getElem hlt, hcall⟩
  · exact .inr ⟨hle, (heff.handling.fresh i e he hle).1⟩

/-- An id that was supplied stays so: if its handle is destroyed, the call that supplied it is
expunged. -/
theorem suppliedBefore (heff : CallEffect tag s s' c mid) {i : Nat} {id : Ptr}
    (h : SuppliedBefore codec s i id) : SuppliedBefore codec s' i id := by
  obtain ⟨j, hji, e, he, hid, hcase⟩ := h
  obtain ⟨e', he', -, hret, hflags⟩ := heff.handling.later.entry j e he
  refine ⟨j, hji, e', he', by rwa [hret], ?_⟩
  rcases hcase with ⟨x, hx, hj⟩ | hf
  · -- the handle is still there, or this call has taken it out and expunged its calls
    rcases heff.inputs.removed id x hx with hmid | ⟨v, hv, hrem, rfl, rfl⟩
    · exact .inl ⟨x, heff.outputs.keeps id x hmid, heff.handling.later.recordedFor x j hj⟩
    · right
      exact heff.expunges v.handle (expunge_mem_recordActions hv hrem.2) j hj e' he'
        (List.getElem?_eq_some_iff.1 he).1
  · exact .inr (hflags hf)

theorem retiredId (heff : CallEffect tag s s' c mid) {id : Ptr} (h : RetiredId tag s.pool id) :
    RetiredId tag s'.pool id :=
  heff.outputs.retired id (heff.inputs.keeps id h)

end CallEffect

/-- The handle arguments of a call, as the codec finds them. -/
theorem exists_input_of_mem (hids : codec.Matches c) {t : Bool × Ptr}
    (ht : t ∈ codec.inputs c.call.bytes) :
    ∃ v ∈ c.args, v.direction = .input ∧ t = (v.deallocates, v.id) := by
  rw [hids.1] at ht
  obtain ⟨v, hv, rfl⟩ := List.mem_map.1 ht
  obtain ⟨hmem, hdir⟩ := List.mem_filter.1 hv
  exact ⟨v, hmem, of_decide_eq_true hdir, rfl⟩

theorem mem_outputs_of_returned (hids : codec.Matches c) (hv : v ∈ c.result ++ c.args)
    (hret : v.Returned) : v.id ∈ codec.outputs c.ret.bytes := by
  rw [hids.2]
  exact List.mem_map_of_mem (List.mem_filter.2 ⟨hv, decide_eq_true hret⟩)

namespace ApiInv

variable {mid : HandlePool}

theorem created_step (hinv : ApiInv codec tag s) (hlegal : c.Legal codec s)
    (hmid : c.args.foldlM translateInput s.pool = some mid) (heff : CallEffect tag s s' c mid)
    {id x : Ptr} (hx : s'.pool.toHandle.lookup id = some x) :
    ∃ j ∈ s'.history.recordedFor x,
      ∃ e : Entry, s'.history.entries[j]? = some e ∧ id ∈ codec.outputs e.ret.bytes := by
  rcases heff.outputs.added id x hx with hx | ⟨v, hv, hret, rfl, rfl, hnull, hnew⟩
  · obtain ⟨j, hj, e, he, hid⟩ := hinv.created id x (heff.inputs.subset id x hx)
    obtain ⟨e', he', -, hret, -⟩ := heff.handling.later.entry j e he
    exact ⟨j, heff.handling.later.recordedFor x j hj, e', he', by rwa [hret]⟩
  · -- the call has created the handle, and is recorded for it
    have hrec := hlegal.created mid hmid v hv hret hnull hnew
    obtain ⟨j, hj, e, he, -, heret⟩ :=
      heff.records v.handle (record_mem_recordActions hv hret.2 hrec)
    refine ⟨j, hj, e, he, ?_⟩
    rw [heret]
    exact mem_outputs_of_returned hlegal.ids hv hret

theorem supplied_step (hinv : ApiInv codec tag s) (hlegal : c.Legal codec s)
    (heff : CallEffect tag s s' c mid) {i : Nat} {e : Entry} (he : s'.history.entries[i]? = some e)
    {t : Bool × Ptr} (ht : t ∈ codec.inputs e.call.bytes) : SuppliedBefore codec s' i t.2 := by
  rcases heff.entry_cases he with ⟨e₀, he₀, hcall⟩ | ⟨hle, hcall⟩
  · rw [hcall] at ht
    exact heff.suppliedBefore (hinv.supplied i e₀ he₀ t ht)
  · rw [hcall] at ht
    obtain ⟨v, hv, hin, rfl⟩ := exists_input_of_mem hlegal.ids ht
    -- a handle argument of the new call is an entry of the pool, which some call created
    have hentry := heff.inputs.entry v hv hin
    obtain ⟨j, hj, e₀, he₀, hid⟩ := hinv.created v.id v.handle hentry
    have hji : j < i := lt_of_lt_of_le (hinv.models.bound v.handle j hj) hle
    exact heff.suppliedBefore ⟨j, hji, e₀, he₀, hid, .inl ⟨v.handle, hentry, hj⟩⟩

theorem retired_step (hinv : ApiInv codec tag s) (hlegal : c.Legal codec s)
    (heff : CallEffect tag s s' c mid) {e : Entry} (he : e ∈ s'.history.entries) {id : Ptr}
    (hid : (true, id) ∈ codec.inputs e.call.bytes) : RetiredId tag s'.pool id := by
  obtain ⟨i, hi⟩ := List.mem_iff_getElem?.1 he
  -- what an old call removed stays retired; what this call removes is retired now
  rcases heff.entry_cases hi with ⟨e₀, he₀, hcall⟩ | ⟨-, hcall⟩
  · rw [hcall] at hid
    exact heff.retiredId (hinv.retired e₀ (List.mem_iff_getElem?.2 ⟨i, he₀⟩) id hid)
  · rw [hcall] at hid
    obtain ⟨v, hv, hin, heq⟩ := exists_input_of_mem hlegal.ids hid
    rw [Prod.mk.injEq] at heq
    obtain ⟨hdel, rfl⟩ := heq
    exact heff.outputs.retired _ (heff.inputs.retired v hv ⟨hin, hdel.symm⟩)

theorem step (htag : tag.toNat < 16) (hinv : ApiInv codec tag s) (hlegal : c.Legal codec s)
    (hstep : apiStep tag s c = some s') : ApiInv codec tag s' := by
  obtain ⟨mid, hmid, heff⟩ := apiStep_effect htag hinv hlegal hstep
  refine ⟨heff.models, heff.outputs.inv, ?_, ?_, ?_, ?_⟩
  · intro e he
    obtain ⟨i, hi⟩ := List.mem_iff_getElem?.1 he
    rcases heff.entry_cases hi with ⟨e₀, he₀, hcall⟩ | ⟨-, hcall⟩
    · rw [hcall]
      exact hinv.api e₀ (List.mem_iff_getElem?.2 ⟨i, he₀⟩)
    · rw [hcall]
      exact hlegal.api
  · intro id x hx
    exact hinv.created_step hlegal hmid heff hx
  · intro i e he t ht
    exact hinv.supplied_step hlegal heff he ht
  · intro e he id hid
    exact hinv.retired_step hlegal heff he hid

theorem of_reaches (htag : tag.toNat < 16)
    (hrun : Reaches (apiStep tag) (fun s c => c.Legal codec s) ApiWorker.new s) :
    ApiInv codec tag s := by
  refine Reaches.invariant (I := ApiInv codec tag) ?_ hrun (apiInv_new codec tag)
  intro s c s' hinv hlegal hstep
  exact hinv.step htag hlegal hstep

end ApiInv

/-! ## The replay -/

/-- At a point of a history at which no call left in the log takes an id that an expunged call
returned, the replay of a self migration translates only ids that an earlier replayed call assigned
and that no earlier one removed. -/
theorem replay_selfContained (htag : tag.toNat < 16)
    (hrun : Reaches (apiStep tag) (fun s c => c.Legal codec s) ApiWorker.new s)
    (hunused : ExpungedUnused codec s.history) (extract : Ptr → ExplicitState)
    (returns : Bytes → Bool) {calls : List ReplayCall}
    (hcalls : selfMigration returns s.recorder.log tag s.recorder.metadata
      (fun obj => (extract obj).1) s.pool s.pool.getLiveHandles = some calls) :
    ReplaySelfContained codec calls := by
  have hinv := ApiInv.of_reaches htag hrun
  obtain ⟨is, hpw, his, heq⟩ := selfMigration_eq hinv.models s.pool.getLiveHandles
  have hapi : ∀ e ∈ s.history.replayed is, apiId e.call.bytes ≠ commandHandlerApi.toNat :=
    fun e he => hinv.api e (mem_entries_of_mem_replayed he)
  obtain rfl := heq hapi returns tag _ s.pool (fun obj => (extract obj).2) calls hcalls
  intro before c after hsplit t ht
  obtain ⟨es₁, es₂, hes, rfl, hrest⟩ := List.map_eq_append_iff.1 hsplit
  obtain ⟨e, es₃, rfl, rfl, -⟩ := List.map_eq_cons_iff.1 hrest
  obtain ⟨i, hi, he, hflags, hbefore⟩ := replayed_split hpw hes
  rw [selfCall, CmdPtr.bytes_zero] at ht
  obtain ⟨j, hji, e', he', hid, hcase⟩ := hinv.supplied i e he t ht
  -- the call that returned the id is not expunged, so its handle is alive
  have hflags' : e'.flags ≠ 1 := by
    intro hf
    exact hunused e (List.mem_iff_getElem?.2 ⟨i, he⟩) hflags e'
      (List.mem_iff_getElem?.2 ⟨j, he'⟩) hf t ht hid
  obtain ⟨x, hx, hj⟩ := hcase.resolve_right hflags'
  constructor
  · have hlive : x ∈ NULL :: s.pool.getLiveHandles := by
      apply List.mem_cons_of_mem
      exact AList.mem_keys.1 ((HashTable.mem_iff_lookup _ _).2
        ⟨t.2, (hinv.pool.inverse x t.2).2 hx⟩)
    have hreached : j ∈ is := (his j).2 ⟨x, ReachableObject.of_mem hlive, hj⟩
    refine ⟨selfCall e', List.mem_map_of_mem (hbefore j hreached hji e' he' hflags'), ?_⟩
    rwa [selfCall, CmdPtr.bytes_zero]
  · intro b hb hremoved
    obtain ⟨d, hd, rfl⟩ := List.mem_map.1 hb
    have hmem : d ∈ s.history.replayed is := by
      rw [hes]
      exact List.mem_append_left _ hd
    rw [selfCall, CmdPtr.bytes_zero] at hremoved
    have hretired := hinv.retired d (mem_entries_of_mem_replayed hmem) t.2 hremoved
    rw [hretired.2] at hx
    cases hx

/-! ## A parent and a child -/

instance ApiCall.decidableLegal (codec : Codec) (s : ApiWorker) (c : ApiCall) :
    Decidable (c.Legal codec s) :=
  decidable_of_iff
    (apiId c.call.bytes ≠ commandHandlerApi.toNat ∧
      (codec.inputs c.call.bytes =
          (c.args.filter fun v => v.direction = .input).map (fun v => (v.deallocates, v.id)) ∧
        codec.outputs c.ret.bytes =
          ((c.result ++ c.args).filter fun v =>
            v.direction = .output ∧ v.deallocates = false).map HandleValue.id) ∧
      (∀ v ∈ c.args, v.direction = .input → v.id ∈ s.pool.toHandle) ∧
      (∀ p ∈ c.args.foldlM translateInput s.pool, ∀ v ∈ c.result ++ c.args,
        v.direction = .output ∧ v.deallocates = false → v.handle ≠ NULL → v.handle ∉ p.toId →
          v.objectRecord = true) ∧
      s.pool.issued + (c.result ++ c.args).length < 2 ^ 36)
    ⟨fun ⟨h₁, h₂, h₃, h₄, h₅⟩ => ⟨h₁, h₂, h₃, h₄, h₅⟩,
      fun ⟨h₁, h₂, h₃, h₄, h₅⟩ => ⟨h₁, h₂, h₃, h₄, h₅⟩⟩

instance ExpungedUnused.decidable (codec : Codec) (h : CallHistory) :
    Decidable (ExpungedUnused codec h) :=
  inferInstanceAs (Decidable (∀ e ∈ h.entries, e.flags ≠ 1 → ∀ e' ∈ h.entries, e'.flags = 1 →
    ∀ t ∈ codec.inputs e.call.bytes, t.2 ∉ codec.outputs e'.ret.bytes))

/-- The codec of the three functions below. -/
def parentCodec : Codec where
  inputs := fun cmd =>
    if commandId cmd = 2 then [(false, mkId 1 64)]
    else if commandId cmd = 3 then [(true, mkId 1 64)]
    else []
  outputs := fun cmd =>
    if commandId cmd = 11 then [mkId 1 64] else if commandId cmd = 12 then [mkId 1 65] else []

/-- A parent is created, with the handle 5. -/
def createParent : ApiCall where
  call := .ofIds 1 1
  ret := .ofIds 1 11
  args := []
  result := [⟨mkId 1 64, 5, .output, false, true, [], false, false⟩]
  objectRecord := false

/-- A child is created from the parent, with the handle 6. -/
def createChild : ApiCall where
  call := .ofIds 1 2
  ret := .ofIds 1 12
  args := [⟨mkId 1 64, 5, .input, false, false, [], false, false⟩]
  result := [⟨mkId 1 65, 6, .output, false, true, [], false, false⟩]
  objectRecord := false

/-- The parent is destroyed. -/
def destroyParent : ApiCall where
  call := .ofIds 1 3
  ret := .ofIds 1 13
  args := [⟨mkId 1 64, 5, .input, true, false, [], false, false⟩]
  result := []
  objectRecord := false

def noExplicitState : Ptr → ExplicitState := fun _ => ⟨[], by decide⟩

set_option maxRecDepth 8000 in
/-- Both objects are alive at the migration. -/
theorem replay_selfContained_of_child :
    ∃ (s : ApiWorker) (calls : List ReplayCall),
      runGuarded (apiStep 1) (fun s c => c.Legal parentCodec s) ApiWorker.new
        [createParent, createChild] = some s ∧
      selfMigration (fun _ => true) s.recorder.log 1 s.recorder.metadata
        (fun obj => (noExplicitState obj).1) s.pool s.pool.getLiveHandles = some calls ∧
      calls.length = 2 ∧ ReplaySelfContained parentCodec calls := by
  refine ⟨_, _, rfl, rfl, rfl, ?_⟩
  have hrun : Reaches (apiStep 1) (fun s c => c.Legal parentCodec s) ApiWorker.new _ :=
    Reaches.of_runGuarded [createParent, createChild] rfl
  refine replay_selfContained (by decide) hrun ?_ noExplicitState (fun _ => true) rfl
  decide

set_option maxRecDepth 8000 in
/-- The parent is destroyed before the migration. The replay of the child's creation takes the
parent's id, which nothing has assigned. -/
theorem replay_lacks_destroyed_parent :
    ∃ (s : ApiWorker) (calls : List ReplayCall),
      Reaches (apiStep 1) (fun s c => c.Legal parentCodec s) ApiWorker.new s ∧
      selfMigration (fun _ => true) s.recorder.log 1 s.recorder.metadata
        (fun obj => (noExplicitState obj).1) s.pool s.pool.getLiveHandles = some calls ∧
      ¬ ReplaySelfContained parentCodec calls := by
  refine ⟨_, _, Reaches.of_runGuarded [createParent, createChild, destroyParent] rfl, rfl, ?_⟩
  intro hcontained
  obtain ⟨⟨b, hb, -⟩, -⟩ := hcontained [] _ [] rfl (false, mkId 1 64) (by decide)
  cases hb

end Ava.Migration
