import Ava.Migration.Replay

/-!
# Both migrations replay the same calls

The commands of a live migration arrive as they were sent: first the pairs, each with the call and
the return in its data region, then explicit states. The target takes the two commands out of the
block of a pair; the self migration has loaded the same two commands from its transfer log.
-/

set_option autoImplicit false

namespace Ava.Migration

open Ava.Lib Ava.Channel Ava.Endpoint

variable {returns : Bytes → Bool} {vmId : UInt8} {es : List Entry} {w : Wire}

/-! ## The commands on the wire -/

/-- The draft of a pair when both commands are attached. -/
def pairDraft (call ret : Bytes) : SocketDraft where
  structSize := replayCommandPairSize
  regionSize := call.length + ret.length
  curOffset := replayCommandPairSize + call.length + ret.length
  attached := call ++ ret

/-- The block that is sent for a recorded call. -/
def pairBlock (vmId : UInt8) (e : Entry) : Bytes :=
  (pairDraft e.call.bytes e.ret.bytes).sendCommand vmId commandHandlerApi
    InternalCommand.recordedPair.id
    (replayCommandPairFields replayCommandPairSize (replayCommandPairSize + e.call.bytes.length))

theorem isInternal_sendCommand (d : SocketDraft) (vmId : UInt8) (c : InternalCommand)
    (fields : Bytes) : IsInternal c (d.sendCommand vmId commandHandlerApi c.id fields) :=
  ⟨CommandBase.apiId_encode .., CommandBase.commandId_encode ..⟩

/-- A pair of recorded commands is always built. -/
theorem socketPair_eq (vmId : UInt8) (e : Entry) :
    socketPair vmId e.call.bytes e.ret.bytes = some (pairBlock vmId e) := by
  have hfirst := SocketDraft.attachBuffer_eq e.call.bytes_ne_nil
    (d := SocketDraft.new replayCommandPairSize (e.call.bytes.length + e.ret.bytes.length))
    (by simp only [SocketDraft.new]; omega)
  have hsecond := SocketDraft.attachBuffer_eq e.ret.bytes_ne_nil
    (d := { SocketDraft.new replayCommandPairSize (e.call.bytes.length + e.ret.bytes.length) with
      curOffset := replayCommandPairSize + e.call.bytes.length
      attached := [] ++ e.call.bytes })
    (by simp only [SocketDraft.new]; omega)
  simp only [socketPair, hfirst]
  exact congrArg (Option.bind · _) hsecond

/-- The block of a pair: the two commands stand behind the struct. -/
theorem pairBlock_eq (vmId : UInt8) (e : Entry) :
    ∃ struct : Bytes, struct.length = replayCommandPairSize ∧
      pairBlock vmId e = struct ++ e.call.bytes ++ e.ret.bytes := by
  refine ⟨((pairDraft e.call.bytes e.ret.bytes).base vmId commandHandlerApi
    InternalCommand.recordedPair.id).encode ++ replayCommandPairFields replayCommandPairSize
      (replayCommandPairSize + e.call.bytes.length), ?_, ?_⟩
  · simp [replayCommandPairFields, replayCommandPairSize]
  · have hfull : replayCommandPairSize + (e.call.bytes.length + e.ret.bytes.length) -
        (replayCommandPairSize + e.call.bytes.length + e.ret.bytes.length) = 0 := by omega
    simp only [pairBlock, SocketDraft.sendCommand, pairDraft, hfull, List.replicate_zero,
      List.append_nil, List.append_assoc]

theorem wellSized_pairBlock (vmId : UInt8) (e : Entry) : WellSized (pairBlock vmId e) := by
  have hc := e.call.size_lt
  have hr := e.ret.size_lt
  apply SocketDraft.wellSized_sendCommand
  · simp [pairDraft, replayCommandPairFields, replayCommandPairSize]
  · simp only [pairDraft, List.length_append]
    omega
  · simp only [pairDraft, List.length_append]
  · simp only [pairDraft, replayCommandPairSize, commandBaseSize]
    omega

/-- The buffer ids in the struct of a pair. -/
theorem pointerField_pairBlock (vmId : UInt8) (e : Entry) :
    pointerField (pairBlock vmId e) commandBaseSize = replayCommandPairSize ∧
      pointerField (pairBlock vmId e) (commandBaseSize + 8) =
        replayCommandPairSize + e.call.bytes.length := by
  have hlt := e.call.size_lt
  have hbase : ((pairDraft e.call.bytes e.ret.bytes).base vmId commandHandlerApi
      InternalCommand.recordedPair.id).encode.length = commandBaseSize := by simp
  -- both fields lie behind the command base, before the attached commands
  have hfield : ∀ off, off + 8 ≤ 16 →
      slice (pairBlock vmId e) (commandBaseSize + off) 8 =
        slice (replayCommandPairFields replayCommandPairSize
          (replayCommandPairSize + e.call.bytes.length)) off 8 := by
    intro off hoff
    rw [pairBlock, SocketDraft.sendCommand, ← hbase, slice_append_right, List.append_assoc,
      slice_append_left _ (by simpa [replayCommandPairFields] using hoff)]
  have hcall : slice (replayCommandPairFields replayCommandPairSize
      (replayCommandPairSize + e.call.bytes.length)) 0 8 = leBytes 8 replayCommandPairSize := rfl
  have hret : slice (replayCommandPairFields replayCommandPairSize
      (replayCommandPairSize + e.call.bytes.length)) 8 8 =
        leBytes 8 (replayCommandPairSize + e.call.bytes.length) := rfl
  have hsize : replayCommandPairSize = 152 := rfl
  constructor
  · have h0 := hfield 0 (by omega)
    rw [Nat.add_zero, hcall] at h0
    rw [pointerField, h0, leNat_leBytes_of_lt (by omega)]
  · rw [pointerField, hfield 8 (by omega), hret, leNat_leBytes_of_lt (by omega)]

/-- The two calls of `replay_command` for one recorded call. -/
def liveCall (vmId : UInt8) (e : Entry) : ReplayCall :=
  ⟨⟨pairBlock vmId e, replayCommandPairSize⟩,
    ⟨pairBlock vmId e, replayCommandPairSize + e.call.bytes.length⟩⟩

theorem sameCall_of_entry (vmId : UInt8) (e : Entry) : SameCall (selfCall e) (liveCall vmId e) := by
  obtain ⟨struct, hlen, hblock⟩ := pairBlock_eq vmId e
  constructor
  · apply sameCommand_of_bytes
    refine (CmdPtr.bytes_zero e.call).trans ?_
    rw [liveCall, hblock, ← hlen, CmdPtr.bytes_append_middle e.call.wellSized]
  · apply sameCommand_of_bytes
    refine (CmdPtr.bytes_zero e.ret).trans ?_
    -- the return is the last part of the block, with nothing behind it
    have hret := CmdPtr.bytes_append_middle (a := struct ++ e.call.bytes) (b := [])
      e.ret.wellSized
    rw [List.append_nil, List.length_append] at hret
    rw [liveCall, hblock, ← hlen, hret]

/-! ## What the source sends -/

/-- What the source of a live migration has sent after the calls of `es`. -/
def MigrationStream (vmId : UInt8) (es : List Entry) (w : Wire) : Prop :=
  ∃ xs : List Bytes, (∀ x ∈ xs, WellSized x ∧ IsInternal .replaceExplicitState x) ∧
    w.stream = socketPlain vmId .acceptLiveMigration ++
      (es.flatMap (pairBlock vmId) ++ xs.flatten)

theorem wellSized_socketPlain (vmId : UInt8) (c : InternalCommand) :
    WellSized (socketPlain vmId c) := by
  apply SocketDraft.wellSized_sendCommand
  · rfl
  · rfl
  · rfl
  · decide

theorem ne_nil_of_wellSized {cmd : Bytes} (h : WellSized cmd) : cmd ≠ [] := by
  rintro rfl
  exact absurd h.1 (by decide)

/-- A send puts the whole command on the stream, or nothing if the process was aborted. -/
theorem stream_sendSocket (w : Wire) (buf : Bytes) :
    (w.sendSocket buf).stream = w.stream ∨ (w.sendSocket buf).stream = w.stream ++ buf := by
  rw [Wire.sendSocket]
  split_ifs
  · exact .inl rfl
  · exact .inl rfl
  · exact .inr rfl

/-- The pairs are all sent: their buffers are not empty. -/
theorem foldlM_sendPair (hw : w.aborted = false) (es : List Entry) :
    es.foldlM (fun w e => (socketChannel vmId).sendPair w e.call.bytes e.ret.bytes) w =
      some ⟨w.stream ++ es.flatMap (pairBlock vmId), false⟩ := by
  induction es generalizing w with
  | nil =>
    cases w
    cases hw
    simp
  | cons e es ih =>
    have hne := ne_nil_of_wellSized (wellSized_pairBlock vmId e)
    have hsend : (socketChannel vmId).sendPair w e.call.bytes e.ret.bytes =
        some ⟨w.stream ++ pairBlock vmId e, false⟩ := by
      simp only [socketChannel, socketPair_eq, sendBuilt, Wire.sendSocket, hw, if_neg hne]
      rfl
    rw [List.foldlM_cons, hsend, List.flatMap_cons, ← List.append_assoc]
    exact ih rfl

theorem migrationStream_pairs (vmId : UInt8) (es : List Entry) :
    ∃ w, es.foldlM (fun w e => (socketChannel vmId).sendPair w e.call.bytes e.ret.bytes)
        (Wire.new.sendSocket (socketPlain vmId .acceptLiveMigration)) = some w ∧
      MigrationStream vmId es w := by
  have hne := ne_nil_of_wellSized (wellSized_socketPlain vmId .acceptLiveMigration)
  have hinit : Wire.new.sendSocket (socketPlain vmId .acceptLiveMigration) =
      ⟨socketPlain vmId .acceptLiveMigration, false⟩ := by
    simp only [Wire.sendSocket, Wire.new, if_neg hne]
    rfl
  refine ⟨_, foldlM_sendPair (by rw [hinit]) es, [], ?_, ?_⟩
  · intro x hx
    cases hx
  · rw [hinit, List.flatten_nil, List.append_nil]

/-- An explicit state is built unless it is empty. -/
theorem socketExplicitState_spec {id : Ptr} {data cmd : Bytes} (hdata : data.length < 2 ^ 46)
    (h : socketExplicitState vmId id data = some cmd) :
    WellSized cmd ∧ IsInternal .replaceExplicitState cmd := by
  have hne : data ≠ [] := by
    rintro rfl
    cases h
  have hattach := SocketDraft.attachBuffer_eq hne
    (d := SocketDraft.new replayCommandSize data.length) (by simp only [SocketDraft.new]; omega)
  simp only [socketExplicitState, hattach] at h
  cases h
  refine ⟨?_, isInternal_sendCommand ..⟩
  apply SocketDraft.wellSized_sendCommand
  · simp [SocketDraft.new, replayCommandFields, replayCommandSize]
  · simp only [SocketDraft.new, List.nil_append]
  · simp only [SocketDraft.new, List.nil_append]
  · simp only [SocketDraft.new, replayCommandSize, commandBaseSize]
    omega

theorem migrationStream_explicit (h : MigrationStream vmId es w) (id : Ptr) {data : Bytes}
    (hdata : data.length < 2 ^ 46) :
    MigrationStream vmId es (sendBuilt w (socketExplicitState vmId id data)) := by
  cases hbuilt : socketExplicitState vmId id data with
  -- an empty state fails an assertion of the socket, and nothing more is sent
  | none => exact h
  | some cmd =>
    obtain ⟨xs, hxs, hstream⟩ := h
    rcases stream_sendSocket w cmd with hsame | hsent
    · exact ⟨xs, hxs, hsame.trans hstream⟩
    · refine ⟨xs ++ [cmd], ?_, ?_⟩
      · intro x hx
        rcases List.mem_append.1 hx with hx | hx
        · exact hxs x hx
        · rw [List.mem_singleton.1 hx]
          exact socketExplicitState_spec hdata hbuilt
      · rw [sendBuilt, hsent, hstream, List.flatten_append, List.flatten_singleton,
          List.append_assoc, List.append_assoc]

/-! ## What the target replays -/

theorem handleCommandsLoop_nil (n : Nat) : handleCommandsLoop returns n [] = [] := by
  cases n with
  | zero => rfl
  | succ n => rfl

theorem handleCommandsLoop_end (n : Nat) :
    handleCommandsLoop returns n (socketPlain vmId .endLiveMigration) = [] := by
  cases n with
  | zero => rfl
  | succ n =>
    have hreceive := receiveCommand_append (wellSized_socketPlain vmId .endLiveMigration) []
    obtain ⟨hapi, hid⟩ := isInternal_sendCommand (SocketDraft.new commandBaseSize 0) vmId
      .endLiveMigration []
    rw [List.append_nil] at hreceive
    rw [← socketPlain] at hapi hid
    simp only [handleCommandsLoop, hreceive, hapi, hid, InternalCommand.ofId_id, if_true]

/-- Explicit states are not replayed, whether or not their handlers return. -/
theorem handleCommandsLoop_explicit {xs : List Bytes} {tail : Bytes}
    (hxs : ∀ x ∈ xs, WellSized x ∧ IsInternal .replaceExplicitState x)
    (htail : ∀ n, handleCommandsLoop returns n tail = []) (n : Nat) :
    handleCommandsLoop returns n (xs.flatten ++ tail) = [] := by
  induction xs generalizing n with
  | nil => exact htail n
  | cons x xs ih =>
    cases n with
    | zero => rfl
    | succ n =>
      obtain ⟨hsized, hapi, hid⟩ := hxs x List.mem_cons_self
      have hrest := ih (fun y hy => hxs y (List.mem_cons_of_mem x hy)) n
      rw [List.flatten_cons, List.append_assoc]
      simp only [handleCommandsLoop, receiveCommand_append hsized, hapi, hid,
        InternalCommand.ofId_id, hrest, ite_self]

/-- The pairs are replayed in the order in which they arrive. -/
theorem handleCommandsLoop_pairs {tail : Bytes} {n : Nat} (hn : es.length ≤ n)
    (htail : ∀ n, handleCommandsLoop returns n tail = []) :
    handleCommandsLoop returns n (es.flatMap (pairBlock vmId) ++ tail) =
      es.map (liveCall vmId) := by
  induction es generalizing n with
  | nil => exact htail n
  | cons e es ih =>
    cases n with
    | zero => cases hn
    | succ n =>
      obtain ⟨hapi, hid⟩ := isInternal_sendCommand (pairDraft e.call.bytes e.ret.bytes) vmId
        .recordedPair (replayCommandPairFields replayCommandPairSize
          (replayCommandPairSize + e.call.bytes.length))
      rw [← pairBlock] at hapi hid
      obtain ⟨hcall, hret⟩ := pointerField_pairBlock vmId e
      have hrest := ih (Nat.le_of_succ_le_succ hn)
      rw [List.flatMap_cons, List.append_assoc]
      simp only [handleCommandsLoop, receiveCommand_append (wellSized_pairBlock vmId e), hapi,
        hid, InternalCommand.ofId_id, if_true, hcall, hret, hrest]
      rfl

theorem length_le_flatMap_pairBlock (vmId : UInt8) (es : List Entry) :
    es.length ≤ (es.flatMap (pairBlock vmId)).length := by
  induction es with
  | nil => exact Nat.zero_le _
  | cons e es ih =>
    have hpos := List.length_pos_of_ne_nil (ne_nil_of_wellSized (wellSized_pairBlock vmId e))
    rw [List.flatMap_cons, List.length_append, List.length_cons]
    omega

/-- The target replays the calls of the stream, whether or not the source got to the end. -/
theorem acceptMigration_eq (h : MigrationStream vmId es w) :
    acceptMigration returns (w.sendSocket (socketPlain vmId .endLiveMigration)) =
      es.map (liveCall vmId) := by
  obtain ⟨xs, hxs, hstream⟩ := h
  -- an aborted source leaves the stream without the end command; the loop ends there too
  obtain ⟨tail, htail, heq⟩ : ∃ tail : Bytes, (∀ n, handleCommandsLoop returns n tail = []) ∧
      (w.sendSocket (socketPlain vmId .endLiveMigration)).stream =
        socketPlain vmId .acceptLiveMigration ++
          (es.flatMap (pairBlock vmId) ++ (xs.flatten ++ tail)) := by
    rcases stream_sendSocket w (socketPlain vmId .endLiveMigration) with hsame | hsent
    · exact ⟨[], handleCommandsLoop_nil, by rw [hsame, hstream, List.append_nil]⟩
    · exact ⟨_, handleCommandsLoop_end, by
        rw [hsent, hstream, List.append_assoc, List.append_assoc]⟩
  have hlen := length_le_flatMap_pairBlock vmId es
  have hsized := wellSized_socketPlain vmId .acceptLiveMigration
  obtain ⟨hapi, hid⟩ := isInternal_sendCommand (SocketDraft.new commandBaseSize 0) vmId
    .acceptLiveMigration []
  rw [← socketPlain] at hapi hid
  -- the first command only announces the migration
  rw [acceptMigration, heq]
  simp only [handleCommandsLoop, receiveCommand_append hsized, hapi, hid,
    InternalCommand.ofId_id, if_true]
  refine handleCommandsLoop_pairs ?_ (handleCommandsLoop_explicit hxs htail)
  simp only [List.length_append]
  omega

/-! ## The two migrations -/

/-- The calls of a run have an api of their own; the internal one is for the workers. -/
def externalApi (_ : Recorder) : RecordOp → Prop
  | .call call _ => apiId call.bytes ≠ commandHandlerApi.toNat
  | _ => True

instance externalApi.decidable (s : Recorder) (op : RecordOp) : Decidable (externalApi s op) :=
  match op with
  | .call call _ => inferInstanceAs (Decidable (apiId call.bytes ≠ commandHandlerApi.toNat))
  | .record _ => .isTrue trivial
  | .depend _ _ => .isTrue trivial
  | .assignFunctions _ _ _ => .isTrue trivial
  | .expunge _ => .isTrue trivial

/-- On whatever a history of recorded calls and expunges has left, both migrations abort in the
extraction, or they replay the same calls: the commands given to `replay_command` are equal, and so
is what is behind their buffer ids. This does not depend on what the replacement of explicit state
does on either side, nor on an assertion of the socket that fails on the source. -/
theorem migrations_replay_same_calls {s : Recorder}
    (hrun : Reaches recordStep externalApi Recorder.new s) (tag : UInt64) (extract : Ptr → Bytes)
    (hextract : ∀ obj, (extract obj).length < 2 ^ 46) (pool : HandlePool) (roots : List Ptr)
    (vmId : UInt8) (selfReturns liveReturns : Bytes → Bool) :
    Option.Rel (List.Forall₂ SameCall)
      (selfMigration selfReturns s.log tag s.metadata extract pool roots)
      ((liveMigration vmId s.log tag s.metadata extract pool roots).map
        (acceptMigration liveReturns)) := by
  obtain ⟨h, hm, hall⟩ := models_of_reaches
    (P := fun call _ => apiId call.bytes ≠ commandHandlerApi.toNat) (fun _ _ _ hok => hok) hrun
  obtain ⟨is, objs, -, -, hself, hlive⟩ := extract_of_models hm roots
  have hapi : ∀ e ∈ h.replayed is, apiId e.call.bytes ≠ commandHandlerApi.toNat :=
    fun e he => hall.1 e (mem_entries_of_mem_replayed he)
  obtain ⟨w, hpairs, hstream⟩ := migrationStream_pairs vmId (h.replayed is)
  -- the explicit states are sent after the calls on both channels
  have hsend : ∀ (log : Log) (w : Wire) (id obj : Ptr),
      TransferLog (h.replayed is) log ∧ MigrationStream vmId (h.replayed is) w →
      Option.Rel (fun log w =>
          TransferLog (h.replayed is) log ∧ MigrationStream vmId (h.replayed is) w)
        (logChannel.sendExplicitState log id (extract obj))
        ((socketChannel vmId).sendExplicitState w id (extract obj)) := by
    rintro log w id obj ⟨hlog, hw⟩
    obtain ⟨log', hsent, hlog'⟩ := transferLog_explicit hlog id (hextract obj)
    rw [hsent]
    exact .some ⟨hlog', migrationStream_explicit hw id (hextract obj)⟩
  have hexplicit := extractExplicit_rel logChannel (socketChannel vmId) _ extract hsend tag
    s.metadata objs pool ⟨transferLog_calls (h.replayed is), hstream⟩
  rw [selfMigration, liveMigration, hself, hlive, hpairs, Option.bind_some]
  revert hexplicit
  generalize objs.foldlM (extractExplicit logChannel tag s.metadata extract) _ = selfResult
  generalize objs.foldlM (extractExplicit (socketChannel vmId) tag s.metadata extract) _ =
    liveResult
  rintro (⟨⟨hlog, hw⟩, -⟩ | _)
  · apply Option.Rel.some
    dsimp only
    rw [selfMigrationLoop_transferLog hlog hapi, acceptMigration_eq hw]
    rw [List.forall₂_map_left_iff, List.forall₂_map_right_iff]
    exact List.forall₂_same.2 fun e _ => sameCall_of_entry vmId e
  · exact .none

set_option maxRecDepth 8000 in
/-- A call that is recorded for `NULL` is replayed by both. -/
theorem migrations_replay_recorded_call :
    ∃ s : Recorder,
      runGuarded recordStep externalApi Recorder.new
        [.call (.ofIds 1 1) (.ofIds 1 2), .record NULL] = some s ∧
      (selfMigration (fun _ => true) s.log 1 s.metadata (fun _ => []) HandlePool.new []).map
        List.length = some 1 ∧
      Option.Rel (List.Forall₂ SameCall)
        (selfMigration (fun _ => true) s.log 1 s.metadata (fun _ => []) HandlePool.new [])
        ((liveMigration 1 s.log 1 s.metadata (fun _ => []) HandlePool.new []).map
          (acceptMigration fun _ => true)) := by
  refine ⟨_, rfl, rfl, ?_⟩
  exact migrations_replay_same_calls
    (Reaches.of_runGuarded [.call (.ofIds 1 1) (.ofIds 1 2), .record NULL] rfl) 1 (fun _ => [])
    (fun _ => by decide) HandlePool.new [] 1 (fun _ => true) (fun _ => true)

end Ava.Migration
