import Ava.Endpoint.HistoryExtract
import Ava.Migration.Transport

/-!
# Replaying the calls of a migration

A self migration extracts the recorded calls into a fresh log and replays them from there: the loop
of `internal_api_handler` loads a call and then its return. A live migration sends every call and
its return as the two buffers of one command, and the handler of that command on the target replays
them from inside the received block.

`migrations_replay_same_calls` shows that both give `replay_command` the same calls in the same
order, with the same bytes behind every buffer id.
-/

set_option autoImplicit false

namespace Ava.Migration

open Ava.Lib Ava.Channel Ava.Endpoint

/-! ## The model -/

/-- A pointer to a command: a block of memory and where the command starts in it. -/
structure CmdPtr where
  block : Bytes
  offset : Nat

namespace CmdPtr

/-- The command, as long as its size fields say. -/
def bytes (p : CmdPtr) : Bytes :=
  slice p.block p.offset
    (commandSize (p.block.drop p.offset) + regionSize (p.block.drop p.offset))

/-- `command_channel_get_buffer`, on a socket and on a log: `n` bytes at `cmd + buffer_id`. -/
def getBuffer (p : CmdPtr) (bufferId n : Nat) : Bytes := slice p.block (p.offset + bufferId) n

end CmdPtr

/-- The two commands given to `replay_command`. -/
structure ReplayCall where
  callCmd : CmdPtr
  retCmd : CmdPtr

/-- The loop of a self migration over the transfer log. `returns` says which explicit states are
replaced without the process being aborted. A load that fails gives a `NULL` command, which is
dereferenced. -/
def selfMigrationLoop (returns : Bytes → Bool) : Nat → Log → List ReplayCall
  | 0, _ => []
  | n + 1, chan =>
    match chan.loadCommand none with
    | none => []
    | some (_, call, chan) =>
      if apiId call = commandHandlerApi.toNat then
        if InternalCommand.ofId (commandId call) = some .endMigration then []
        else if returns call then selfMigrationLoop returns n chan
        else []
      else
        match chan.loadCommand none with
        | none => []
        | some (_, ret, chan) => ⟨⟨call, 0⟩, ⟨ret, 0⟩⟩ :: selfMigrationLoop returns n chan

/-- `COMMAND_START_MIGRATION`: what `replay_command` is called with. There is no result if the
extraction aborts. -/
def selfMigration (returns : Bytes → Bool) (log : Log) (tag : UInt64) (m : MetadataMap)
    (extract : Ptr → Bytes) (pool : HandlePool) (roots : List Ptr) : Option (List ReplayCall) :=
  (extractObjects logChannel log tag m extract pool roots Log.new).map fun r =>
    let transfer := logSendPlain r.1 .endMigration
    selfMigrationLoop returns (transfer.file.length + 1) transfer

/-- `_handle_commands_loop` on the target of a live migration, with the commands of a stream handled
in the order in which they arrive. `returns` is about the commands that replace explicit state and
about those of an api. -/
def handleCommandsLoop (returns : Bytes → Bool) : Nat → Bytes → List ReplayCall
  | 0, _ => []
  | n + 1, stream =>
    match receiveCommand stream with
    | none => []
    | some (cmd, rest) =>
      if apiId cmd = commandHandlerApi.toNat then
        match InternalCommand.ofId (commandId cmd) with
        | some .recordedPair =>
          ⟨⟨cmd, pointerField cmd commandBaseSize⟩,
            ⟨cmd, pointerField cmd (commandBaseSize + 8)⟩⟩ ::
              handleCommandsLoop returns n rest
        | some .acceptLiveMigration => handleCommandsLoop returns n rest
        | some .endMigration => handleCommandsLoop returns n rest
        | some .replaceExplicitState =>
          if returns cmd then handleCommandsLoop returns n rest else []
        -- a worker that accepts a migration does not start one
        | some .startMigration => []
        | some .startLiveMigration => []
        -- the handler exits
        | some .endLiveMigration => []
        | some .shutdownApi => []
        | some .initializeApi => []
        | some .threadExit => []
        | none => []
      else if returns cmd then handleCommandsLoop returns n rest
      else []

/-- `COMMAND_START_LIVE_MIGRATION`: what the source sends. There is no result if the extraction
aborts outside the channel. -/
def liveMigration (vmId : UInt8) (log : Log) (tag : UInt64) (m : MetadataMap)
    (extract : Ptr → Bytes) (pool : HandlePool) (roots : List Ptr) : Option Wire :=
  (extractObjectsInPair (socketChannel vmId) log tag m extract pool roots
    (Wire.new.sendSocket (socketPlain vmId .acceptLiveMigration))).map fun r =>
      r.1.sendSocket (socketPlain vmId .endLiveMigration)

/-- The calls that the target of a live migration replays. -/
def acceptMigration (returns : Bytes → Bool) (w : Wire) : List ReplayCall :=
  handleCommandsLoop returns (w.stream.length + 1) w.stream

/-- The same command, with the same bytes behind every buffer id. -/
def SameCommand (p q : CmdPtr) : Prop :=
  p.bytes = q.bytes ∧
    ∀ bufferId n, bufferId + n ≤ p.bytes.length → p.getBuffer bufferId n = q.getBuffer bufferId n

def SameCall (c d : ReplayCall) : Prop :=
  SameCommand c.callCmd d.callCmd ∧ SameCommand c.retCmd d.retCmd

/-! ## Commands inside blocks -/

theorem CmdPtr.bytes_append_middle {a cmd b : Bytes} (h : WellSized cmd) :
    (CmdPtr.mk (a ++ cmd ++ b) a.length).bytes = cmd := by
  have hle : commandBaseSize ≤ cmd.length := by
    have := h.1
    have := h.2
    omega
  -- the size fields are within the command itself, so what follows it does not matter
  obtain ⟨-, -, hcs, hrs⟩ := fields_append b hle
  have hdrop : (a ++ cmd ++ b).drop a.length = cmd ++ b := by
    rw [List.append_assoc, List.drop_left]
  rw [CmdPtr.bytes]
  simp only [hdrop, hcs, hrs, h.2]
  rw [slice, hdrop, List.take_left]

theorem CmdPtr.bytes_zero (c : Command) : (CmdPtr.mk c.bytes 0).bytes = c.bytes := by
  have hmiddle := CmdPtr.bytes_append_middle (a := []) (b := []) c.wellSized
  rwa [List.nil_append, List.append_nil] at hmiddle

theorem CmdPtr.getBuffer_eq_slice (p : CmdPtr) {bufferId n : Nat}
    (h : bufferId + n ≤ p.bytes.length) : p.getBuffer bufferId n = slice p.bytes bufferId n := by
  have hlen : p.bytes.length ≤
      commandSize (p.block.drop p.offset) + regionSize (p.block.drop p.offset) :=
    List.length_take_le _ _
  rw [CmdPtr.getBuffer, CmdPtr.bytes, slice_slice (by omega)]

/-- Pointers to the same command see the same buffers. -/
theorem sameCommand_of_bytes {p q : CmdPtr} (h : p.bytes = q.bytes) : SameCommand p q := by
  refine ⟨h, ?_⟩
  intro bufferId n hle
  have hle' : bufferId + n ≤ q.bytes.length := by rwa [← h]
  rw [p.getBuffer_eq_slice hle, q.getBuffer_eq_slice hle', h]

/-! ## The self migration -/

/-- The explicit states of the same objects, sent to two channels: a relation that every send keeps
holds at the end, and the extractions fail together. -/
theorem extractExplicit_rel {ω ω' : Type} (chan : OutputChannel ω) (chan' : OutputChannel ω')
    (R : ω → ω' → Prop) (extract : Ptr → Bytes)
    (hsend : ∀ out out' id obj, R out out' → Option.Rel R
      (chan.sendExplicitState out id (extract obj)) (chan'.sendExplicitState out' id (extract obj)))
    (tag : UInt64) (m : MetadataMap) (objs : List Ptr) (pool : HandlePool) {out : ω} {out' : ω'}
    (h : R out out') :
    Option.Rel (fun s s' => R s.1 s'.1 ∧ s.2 = s'.2)
      (objs.foldlM (extractExplicit chan tag m extract) (out, pool))
      (objs.foldlM (extractExplicit chan' tag m extract) (out', pool)) := by
  refine foldlM_rel ?_ objs ⟨h, rfl⟩
  rintro ⟨out, pool⟩ ⟨out', pool'⟩ obj ⟨hR, rfl⟩
  rw [extractExplicit, extractExplicit]
  cases m.lookup obj with
  | none => exact .some ⟨hR, rfl⟩
  | some metadata =>
    dsimp only
    split_ifs
    · exact .some ⟨hR, rfl⟩
    · -- the pools are the same, so the same id is sent to both channels
      cases pool.lookupOrInsert tag obj with
      | none => exact .none
      | some r =>
        have hrel := hsend out out' r.1 obj hR
        rw [Option.bind_some, Option.bind_some]
        revert hrel
        generalize chan.sendExplicitState out r.1 (extract obj) = sent
        generalize chan'.sendExplicitState out' r.1 (extract obj) = sent'
        rintro (hR' | _)
        · exact .some ⟨hR', rfl⟩
        · exact .none

/-- The records of a transfer log that holds the calls of `es`. -/
def transferRecords (es : List Entry) : List LogRecord :=
  es.flatMap fun e => [⟨0, e.call⟩, ⟨0, e.ret⟩]

/-- What the self migration gives to `replay_command` for a recorded call. -/
def selfCall (e : Entry) : ReplayCall := ⟨⟨e.call.bytes, 0⟩, ⟨e.ret.bytes, 0⟩⟩

/-- A command of the internal api. -/
def IsInternal (c : InternalCommand) (cmd : Bytes) : Prop :=
  apiId cmd = commandHandlerApi.toNat ∧ commandId cmd = c.id.toNat

variable {returns : Bytes → Bool} {es : List Entry} {log : Log}

/-- After the calls there are only explicit states up to the end of the migration: nothing more is
replayed, whether or not the handlers of these commands return. -/
theorem selfMigrationLoop_explicit {xs : List Command} {last : Command}
    (hxs : ∀ c ∈ xs, IsInternal .replaceExplicitState c.bytes)
    (hlast : IsInternal .endMigration last.bytes) (n : Nat)
    (h : log.Ahead (xs.map (LogRecord.mk 0) ++ [⟨0, last⟩])) :
    selfMigrationLoop returns n log = [] := by
  induction xs generalizing n log with
  | nil =>
    cases n with
    | zero => rfl
    | succ n =>
      obtain ⟨log', hload, -⟩ := Log.loadCommand_next h
      simp only [selfMigrationLoop, hload, hlast.1, hlast.2, InternalCommand.ofId_id, if_true]
  | cons c xs ih =>
    cases n with
    | zero => rfl
    | succ n =>
      obtain ⟨log', hload, hahead⟩ := Log.loadCommand_next h
      obtain ⟨happ, hid⟩ := hxs c List.mem_cons_self
      have hrest := ih (fun d hd => hxs d (List.mem_cons_of_mem c hd)) n hahead
      simp only [selfMigrationLoop, hload, happ, hid, InternalCommand.ofId_id, if_true, hrest]
      simp

/-- The loop gives the calls of the log to `replay_command`, in order. -/
theorem selfMigrationLoop_eq {xs : List Command} {last : Command}
    (hes : ∀ e ∈ es, apiId e.call.bytes ≠ commandHandlerApi.toNat)
    (hxs : ∀ c ∈ xs, IsInternal .replaceExplicitState c.bytes)
    (hlast : IsInternal .endMigration last.bytes) {n : Nat} (hn : es.length < n)
    (h : log.Ahead (transferRecords es ++ (xs.map (LogRecord.mk 0) ++ [⟨0, last⟩]))) :
    selfMigrationLoop returns n log = es.map selfCall := by
  induction es generalizing n log with
  | nil => exact selfMigrationLoop_explicit hxs hlast n h
  | cons e es ih =>
    cases n with
    | zero => omega
    | succ n =>
      -- the call is loaded first, then its return
      obtain ⟨log₁, hcall, hahead₁⟩ := Log.loadCommand_next h
      obtain ⟨log₂, hret, hahead₂⟩ := Log.loadCommand_next hahead₁
      have hapi := hes e List.mem_cons_self
      have hrest := ih (fun d hd => hes d (List.mem_cons_of_mem e hd))
        (Nat.lt_of_succ_lt_succ hn) hahead₂
      simp only [selfMigrationLoop, hcall, if_neg hapi, hret, hrest]
      rfl

/-- What extraction has written to the transfer log: the calls of `es`, then explicit states. -/
def TransferLog (es : List Entry) (log : Log) : Prop :=
  log.readOffset = 0 ∧ ∃ xs : List Command,
    (∀ c ∈ xs, IsInternal .replaceExplicitState c.bytes) ∧
      log.Represents (transferRecords es ++ xs.map (LogRecord.mk 0))

/-- A command that is built in a log by `new`, `attach` and `send`. -/
theorem exists_internal_command (c : InternalCommand) (d : Log.Draft) (fields data : Bytes)
    (structSize : Nat) (hsize : commandBaseSize + fields.length = structSize)
    (hlt : structSize + data.length < 2 ^ 47) :
    ∃ cmd : Command, IsInternal c cmd.bytes ∧
      cmd.bytes = ((logBase d c structSize data.length).encode ++ fields) ++ data := by
  have hs : (logBase d c structSize data.length).commandSize.toNat = structSize :=
    UInt64.toNat_ofNat_of_lt (by rw [UInt64.size]; omega)
  have hr : (logBase d c structSize data.length).regionSize.toNat = data.length :=
    UInt64.toNat_ofNat_of_lt (by rw [UInt64.size]; omega)
  refine ⟨Command.ofBase (logBase d c structSize data.length) fields data (hs.trans hsize.symm) hr
    (by omega), ⟨?_, ?_⟩, ?_⟩
  · exact CommandBase.apiId_encode ..
  · exact CommandBase.commandId_encode ..
  · rw [List.append_assoc]
    rfl

/-- The transfers of the calls of `es` append their records. -/
theorem represents_transfers {rs : List LogRecord} (hrep : log.Represents rs) (es : List Entry) :
    let log' := (es.flatMap fun e => [e.call.bytes, e.ret.bytes]).foldl
      logChannel.transferCommand log
    log'.Represents (rs ++ transferRecords es) ∧ log'.readOffset = log.readOffset := by
  induction es generalizing log rs with
  | nil =>
    refine ⟨?_, rfl⟩
    rw [transferRecords, List.flatMap_nil, List.flatMap_nil, List.append_nil]
    exact hrep
  | cons e es ih =>
    have hcall := (Log.transferCommand_refines hrep e.call).2
    have hret := (Log.transferCommand_refines hcall e.ret).2
    have hrest := ih hret
    rw [List.append_assoc, List.append_assoc] at hrest
    exact hrest

theorem transferLog_calls (es : List Entry) :
    TransferLog es
      ((es.flatMap fun e => [e.call.bytes, e.ret.bytes]).foldl logChannel.transferCommand
        Log.new) := by
  obtain ⟨hrep, hoff⟩ := represents_transfers Log.represents_new es
  refine ⟨hoff, [], ?_, ?_⟩
  · intro c hc
    cases hc
  · rwa [List.map_nil, List.append_nil]

theorem transferLog_explicit (h : TransferLog es log) (id : Ptr) {data : Bytes}
    (hdata : data.length < 2 ^ 46) :
    ∃ log', logChannel.sendExplicitState log id data = some log' ∧ TransferLog es log' := by
  obtain ⟨hoff, xs, hxs, hrep⟩ := h
  obtain ⟨cmd, hcmd, hbytes⟩ := exists_internal_command .replaceExplicitState
    (log.newCommand replayCommandSize data.length).1
    (replayCommandFields id
      ((log.newCommand replayCommandSize data.length).2.attachBuffer
        (log.newCommand replayCommandSize data.length).1 data).1 data.length) data
    replayCommandSize (by simp [replayCommandFields, replayCommandSize])
    (by rw [replayCommandSize, commandBaseSize]; omega)
  have hsent := Log.sendCommand_refines hrep hbytes replayCommandSize
    (by simp [replayCommandFields, replayCommandSize])
  refine ⟨_, rfl, hoff, xs ++ [cmd], ?_, ?_⟩
  · intro c hc
    rcases List.mem_append.1 hc with hc | hc
    · exact hxs c hc
    · rwa [List.mem_singleton.1 hc]
  · rw [List.append_assoc] at hsent
    rw [List.map_append]
    exact hsent

/-- The self migration replays the calls in the transfer log. -/
theorem selfMigrationLoop_transferLog (h : TransferLog es log)
    (hes : ∀ e ∈ es, apiId e.call.bytes ≠ commandHandlerApi.toNat) :
    selfMigrationLoop returns ((logSendPlain log .endMigration).file.length + 1)
      (logSendPlain log .endMigration) = es.map selfCall := by
  obtain ⟨hoff, xs, hxs, hrep⟩ := h
  obtain ⟨last, hlast, hbytes⟩ := exists_internal_command .endMigration
    (log.newCommand commandBaseSize 0).1 [] [] commandBaseSize rfl (by decide)
  rw [List.append_nil] at hbytes
  have hsent := Log.sendCommand_refines hrep hbytes commandBaseSize (by simp)
  have hrep' : (logSendPlain log .endMigration).Represents
      (transferRecords es ++ (xs.map (LogRecord.mk 0) ++ [⟨0, last⟩])) := by
    rw [← List.append_assoc]
    exact hsent
  refine selfMigrationLoop_eq hes hxs hlast ?_ ⟨[], hrep', hoff⟩
  -- every record takes at least a byte, so the length of the file is fuel enough
  have hlen := length_le_encodeLog
    (transferRecords es ++ (xs.map (LogRecord.mk 0) ++ [⟨0, last⟩]))
  have hes' : es.length ≤ (transferRecords es).length := by
    rw [transferRecords, List.length_flatMap]
    simp
    omega
  rw [Log.Represents] at hrep'
  rw [hrep']
  simp only [List.length_append] at hlen ⊢
  omega

/-- Explicit states do not disturb the calls in the transfer log. -/
theorem transferLog_explicitStates {tag : UInt64} {m : MetadataMap} {extract : Ptr → Bytes}
    (hextract : ∀ obj, (extract obj).length < 2 ^ 46) {objs : List Ptr} {pool : HandlePool}
    {r : Log × HandlePool} (h : TransferLog es log)
    (hr : objs.foldlM (extractExplicit logChannel tag m extract) (log, pool) = some r) :
    TransferLog es r.1 := by
  -- the log against itself: what every send keeps, all of them keep
  have hsend : ∀ (log log' : Log) (id obj : Ptr), log' = log ∧ TransferLog es log →
      Option.Rel (fun log log' => log' = log ∧ TransferLog es log)
        (logChannel.sendExplicitState log id (extract obj))
        (logChannel.sendExplicitState log' id (extract obj)) := by
    rintro log _ id obj ⟨rfl, hlog⟩
    obtain ⟨sent, hsent, hsent'⟩ := transferLog_explicit hlog id (hextract obj)
    rw [hsent]
    exact .some ⟨rfl, hsent'⟩
  have hrel := extractExplicit_rel logChannel logChannel _ extract hsend tag m objs pool ⟨rfl, h⟩
  rw [hr] at hrel
  cases hrel with
  | some hR => exact hR.1.2

/-- A self migration of a recorded history replays the entries that are reached and not expunged,
in the order of the log. -/
theorem selfMigration_eq {s : Recorder} {h : CallHistory} (hm : s.Models h) (roots : List Ptr) :
    ∃ is : List Nat, is.Pairwise (· < ·) ∧ (∀ i, i ∈ is ↔ PositionReached s h roots i) ∧
      ((∀ e ∈ h.replayed is, apiId e.call.bytes ≠ commandHandlerApi.toNat) →
        ∀ (returns : Bytes → Bool) (tag : UInt64) (extract : Ptr → Bytes) (pool : HandlePool),
        (∀ obj, (extract obj).length < 2 ^ 46) → ∀ calls,
        selfMigration returns s.log tag s.metadata extract pool roots = some calls →
        calls = (h.replayed is).map selfCall) := by
  obtain ⟨is, objs, hpw, his, heq, -⟩ := extract_of_models hm roots
  refine ⟨is, hpw, his, ?_⟩
  intro hapi returns tag extract pool hextract calls hcalls
  rw [selfMigration, heq] at hcalls
  obtain ⟨r, hr, rfl⟩ := Option.map_eq_some_iff.1 hcalls
  have hlog := transferLog_explicitStates hextract (transferLog_calls (h.replayed is)) hr
  exact selfMigrationLoop_transferLog hlog hapi

end Ava.Migration
