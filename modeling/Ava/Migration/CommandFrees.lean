import Ava.Migration.Replay

/-!
# Who frees the commands of a self migration

The loop of a self migration owns every command that it receives from the transfer log: each is a
block of its own, which `command_channel_free_command` gives to `free`. The loop frees the return of
a call and, at its end, the first command of the round. But a command of the internal api goes
through `handle_command`, which frees its command, too.

`selfMigrationEvents` is the trace of the loop: which commands are received, read and freed, in
which order. `self_migration_frees_once_iff` says for which transfer logs every command is freed
once and not used after that.
-/

set_option autoImplicit false

namespace Ava.Migration

open Ava.Lib Ava.Channel Ava.Endpoint

/-! ## The trace -/

/-- What the loop does with a command. Commands are numbered as they are received. -/
inductive CommandEvent where
  | receive (k : Nat)
  | read (k : Nat)
  | replay (k l : Nat) (call : ReplayCall)
  | free (k : Nat)

namespace CommandEvent

/-- The event reads the command `k`. -/
def Uses (k : Nat) : CommandEvent → Prop
  | .receive _ => False
  | .read j => j = k
  | .replay i j _ => i = k ∨ j = k
  | .free _ => False

/-- The event frees the command `k`. -/
def frees (k : Nat) : CommandEvent → Bool
  | .free j => decide (j = k)
  | _ => false

/-- The commands that the event is about have at least the number `k`. -/
def From (k : Nat) : CommandEvent → Prop
  | .receive j => k ≤ j
  | .read j => k ≤ j
  | .replay i j _ => k ≤ i ∧ k ≤ j
  | .free j => k ≤ j

/-- The call that `replay_command` gets. -/
def replayed : CommandEvent → Option ReplayCall
  | .replay _ _ call => some call
  | _ => none

end CommandEvent

/-- `handle_command` for a command of the internal api, if its handler returns. -/
def handleCommandEvents (k : Nat) : List CommandEvent := [.read k, .free k]

/-- The events of the loop of a self migration, with the number of the next command. -/
def selfMigrationEvents (returns : Bytes → Bool) : Nat → Nat → Log → List CommandEvent
  | 0, _, _ => []
  | n + 1, k, chan =>
    match chan.loadCommand none with
    | none => []
    | some (_, call, chan) =>
      [.receive k, .read k] ++
        if apiId call = commandHandlerApi.toNat then
          if InternalCommand.ofId (commandId call) = some .endMigration then []
          else if returns call then
            handleCommandEvents k ++ [.free k] ++ selfMigrationEvents returns n (k + 1) chan
          else [.read k]
        else
          match chan.loadCommand none with
          | none => []
          | some (_, ret, chan) =>
            [.receive (k + 1), .read (k + 1), .replay k (k + 1) ⟨⟨call, 0⟩, ⟨ret, 0⟩⟩,
              .free (k + 1), .free k] ++ selfMigrationEvents returns n (k + 2) chan

/-- The trace is that of the loop that gives the calls to `replay_command`. -/
theorem filterMap_replayed_events (returns : Bytes → Bool) (n k : Nat) (chan : Log) :
    (selfMigrationEvents returns n k chan).filterMap CommandEvent.replayed =
      selfMigrationLoop returns n chan := by
  induction n generalizing k chan with
  | zero => rfl
  | succ n ih =>
    rw [selfMigrationEvents, selfMigrationLoop]
    rcases chan.loadCommand none with - | ⟨_, call, chan₁⟩
    · rfl
    · dsimp only
      split_ifs with hinternal hend hreturns
      · rfl
      · rw [← ih (k + 1) chan₁]
        rfl
      · rfl
      · rcases chan₁.loadCommand none with - | ⟨_, ret, chan₂⟩
        · rfl
        · dsimp only
          rw [← ih (k + 2) chan₂]
          rfl

/-! ## Transfer logs -/

/-- What a transfer log has before its end: a recorded call with its return, or an explicit
state. -/
inductive TransferItem where
  | pair (call ret : Command) (api : apiId call.bytes ≠ commandHandlerApi.toNat)
  | explicitState (cmd : Command) (internal : IsInternal .replaceExplicitState cmd.bytes)

namespace TransferItem

def records : TransferItem → List LogRecord
  | .pair call ret _ => [⟨0, call⟩, ⟨0, ret⟩]
  | .explicitState cmd _ => [⟨0, cmd⟩]

/-- The handler of the command returns. Calls are replayed by the code of the api. -/
def Returns (returns : Bytes → Bool) : TransferItem → Prop
  | .pair _ _ _ => True
  | .explicitState cmd _ => returns cmd.bytes = true

def IsPair : TransferItem → Prop
  | .pair _ _ _ => True
  | .explicitState _ _ => False

/-- The number of commands. -/
def size : TransferItem → Nat
  | .pair _ _ _ => 2
  | .explicitState _ _ => 1

/-- The events of the round that begins with the command `k`. -/
def events (k : Nat) : TransferItem → List CommandEvent
  | .pair call ret _ =>
    [.receive k, .read k, .receive (k + 1), .read (k + 1),
      .replay k (k + 1) ⟨⟨call.bytes, 0⟩, ⟨ret.bytes, 0⟩⟩, .free (k + 1), .free k]
  | .explicitState _ _ => [.receive k, .read k] ++ handleCommandEvents k ++ [.free k]

end TransferItem

/-- The transfer log has the items ahead, and then the end command. -/
def EndsAfter (items : List TransferItem) (log : Log) : Prop :=
  ∃ last : Command, IsInternal .endMigration last.bytes ∧
    log.Ahead (items.flatMap TransferItem.records ++ [⟨0, last⟩])

/-- The number of commands before the end command. -/
def commandCount (items : List TransferItem) : Nat := (items.map TransferItem.size).sum

/-- The events of all rounds. -/
def itemEvents : Nat → List TransferItem → List CommandEvent
  | k, [] => [.receive k, .read k]
  | k, item :: items => item.events k ++ itemEvents (k + item.size) items

section Events

variable {returns : Bytes → Bool} {log : Log}

/-- The loop goes through the items, round by round. -/
theorem selfMigrationEvents_eq {items : List TransferItem} {n k : Nat} (hn : items.length < n)
    (hreturns : ∀ item ∈ items, item.Returns returns) (h : EndsAfter items log) :
    selfMigrationEvents returns n k log = itemEvents k items := by
  obtain ⟨last, hlast, h⟩ := h
  induction items generalizing n k log with
  | nil =>
    obtain ⟨n, rfl⟩ := Nat.exists_eq_succ_of_ne_zero (Nat.ne_of_gt hn)
    obtain ⟨log', hload, -⟩ := Log.loadCommand_next h
    simp only [selfMigrationEvents, hload, hlast.1, hlast.2, InternalCommand.ofId_id, if_true]
    rfl
  | cons item items ih =>
    obtain ⟨n, rfl⟩ := Nat.exists_eq_succ_of_ne_zero (Nat.ne_of_gt (Nat.zero_lt_of_lt hn))
    have hrest : ∀ {k' : Nat} {log' : Log},
        log'.Ahead (items.flatMap TransferItem.records ++ [⟨0, last⟩]) →
        selfMigrationEvents returns n k' log' = itemEvents k' items :=
      fun h' => ih (Nat.lt_of_succ_lt_succ hn)
        (fun i hi => hreturns i (List.mem_cons_of_mem _ hi)) h'
    cases item with
    | pair call ret api =>
      obtain ⟨log₁, hcall, h₁⟩ := Log.loadCommand_next h
      obtain ⟨log₂, hret, h₂⟩ := Log.loadCommand_next h₁
      simp only [selfMigrationEvents, hcall, if_neg api, hret, hrest h₂]
      rfl
    | explicitState cmd internal =>
      obtain ⟨log₁, hload, h₁⟩ := Log.loadCommand_next h
      have hret : returns cmd.bytes = true := hreturns _ List.mem_cons_self
      simp only [selfMigrationEvents, hload, internal.1, internal.2, InternalCommand.ofId_id,
        hret, if_true, hrest h₁]
      rfl

theorem length_le_records (items : List TransferItem) :
    items.length ≤ (items.flatMap TransferItem.records).length := by
  induction items with
  | nil => exact Nat.le_refl _
  | cons item items ih =>
    have hpos : 1 ≤ item.records.length := by
      cases item with
      | pair call ret api => exact Nat.le_succ 1
      | explicitState cmd internal => exact Nat.le_refl 1
    rw [List.flatMap_cons, List.length_append, List.length_cons]
    omega

/-- The length of the file is enough fuel. -/
theorem length_lt_of_endsAfter {items : List TransferItem} (h : EndsAfter items log) :
    items.length < log.file.length + 1 := by
  obtain ⟨last, -, before, hrep, -⟩ := h
  have hlen := length_le_encodeLog
    (before ++ (items.flatMap TransferItem.records ++ [⟨0, last⟩]))
  have hitems := length_le_records items
  rw [Log.Represents] at hrep
  rw [hrep]
  simp only [List.length_append] at hlen ⊢
  omega

end Events

/-! ## Freed once -/

/-- The command is freed once, and nothing uses it after that. -/
structure FreedOnce (events : List CommandEvent) (k : Nat) : Prop where
  once : events.countP (CommandEvent.frees k) = 1
  unused : events.Pairwise fun a b => a.frees k = true → ¬ b.Uses k

section FreedOnce

variable {events rest : List CommandEvent} {k j : Nat}

/-- An event about later commands neither frees nor uses the command. -/
theorem CommandEvent.From.unrelated {e : CommandEvent} (h : e.From j) (hk : k < j) :
    e.frees k = false ∧ ¬ e.Uses k := by
  cases e with
  | receive i => exact ⟨rfl, id⟩
  | read i =>
    have hi : j ≤ i := h
    exact ⟨rfl, fun hu : i = k => by omega⟩
  | replay i l call =>
    obtain ⟨hi, hl⟩ := h
    exact ⟨rfl, fun hu : i = k ∨ l = k => by omega⟩
  | free i =>
    have hi : j ≤ i := h
    exact ⟨decide_eq_false (by omega), id⟩

/-- Events about later commands do not matter. -/
theorem freedOnce_append (hrest : ∀ e ∈ rest, e.From j) (hk : k < j) :
    FreedOnce (events ++ rest) k ↔ FreedOnce events k := by
  have hcount : rest.countP (CommandEvent.frees k) = 0 := by
    rw [List.countP_eq_zero]
    intro e he
    rw [((hrest e he).unrelated hk).1]
    exact Bool.false_ne_true
  have hpairs : rest.Pairwise fun a b => a.frees k = true → ¬ b.Uses k :=
    List.pairwise_of_forall_mem_list fun a ha b hb _ => ((hrest b hb).unrelated hk).2
  constructor
  · rintro ⟨honce, hunused⟩
    rw [List.countP_append, hcount] at honce
    exact ⟨honce, (List.pairwise_append.1 hunused).1⟩
  · rintro ⟨honce, hunused⟩
    refine ⟨by rw [List.countP_append, hcount, honce], ?_⟩
    refine List.pairwise_append.2 ⟨hunused, hpairs, fun a _ b hb _ => ?_⟩
    exact ((hrest b hb).unrelated hk).2

/-- Events that are not about the command do not matter before it. -/
theorem freedOnce_append_right (hevents : ∀ e ∈ events, e.frees k = false) :
    FreedOnce (events ++ rest) k ↔ FreedOnce rest k := by
  have hcount : events.countP (CommandEvent.frees k) = 0 := by
    rw [List.countP_eq_zero]
    intro e he
    rw [hevents e he]
    exact Bool.false_ne_true
  constructor
  · rintro ⟨honce, hunused⟩
    rw [List.countP_append, hcount, Nat.zero_add] at honce
    exact ⟨honce, (List.pairwise_append.1 hunused).2.1⟩
  · rintro ⟨honce, hunused⟩
    refine ⟨by rw [List.countP_append, hcount, honce], ?_⟩
    refine List.pairwise_append.2 ⟨?_, hunused, fun a ha b _ hfrees => ?_⟩
    · refine List.pairwise_of_forall_mem_list fun a ha b _ hfrees => ?_
      rw [hevents a ha] at hfrees
      cases hfrees
    · rw [hevents a ha] at hfrees
      cases hfrees

theorem from_itemEvents (items : List TransferItem) (k : Nat) :
    ∀ e ∈ itemEvents k items, e.From k := by
  induction items generalizing k with
  | nil =>
    intro e he
    rcases List.mem_cons.1 he with rfl | he
    · exact Nat.le_refl k
    · rw [List.mem_singleton.1 he]
      exact Nat.le_refl k
  | cons item items ih =>
    intro e he
    rcases List.mem_append.1 he with he | he
    · cases item with
      | pair call ret api =>
        simp only [TransferItem.events, List.mem_cons, List.not_mem_nil, or_false] at he
        rcases he with rfl | rfl | rfl | rfl | rfl | rfl | rfl <;>
          simp [CommandEvent.From]
      | explicitState cmd internal =>
        simp only [TransferItem.events, handleCommandEvents, List.cons_append,
          List.nil_append, List.mem_cons, List.not_mem_nil, or_false] at he
        rcases he with rfl | rfl | rfl | rfl | rfl <;> simp [CommandEvent.From]
    · have hfrom := ih (k + item.size) e he
      cases e with
      | receive i => exact (Nat.le_add_right k _).trans hfrom
      | read i => exact (Nat.le_add_right k _).trans hfrom
      | replay i l call =>
        exact ⟨(Nat.le_add_right k _).trans hfrom.1, (Nat.le_add_right k _).trans hfrom.2⟩
      | free i => exact (Nat.le_add_right k _).trans hfrom

/-- The commands of a round are freed once exactly if it is the round of a call. -/
theorem freedOnce_events_iff (item : TransferItem) (k : Nat) :
    (∀ i, k ≤ i → i < k + item.size → FreedOnce (item.events k) i) ↔ item.IsPair := by
  cases item with
  | pair call ret api =>
    refine iff_of_true (fun i hlow hhigh => ?_) trivial
    have hi : i = k ∨ i = k + 1 := by
      simp only [TransferItem.size] at hhigh
      omega
    rcases hi with rfl | rfl
    · constructor <;> simp [TransferItem.events, CommandEvent.frees, CommandEvent.Uses]
    · constructor <;> simp [TransferItem.events, CommandEvent.frees, CommandEvent.Uses]
  | explicitState cmd internal =>
    refine iff_of_false (fun h => ?_) id
    -- `handle_command` frees the command, and then so does the loop
    have honce := (h k (Nat.le_refl k) (Nat.lt_succ_self k)).once
    simp [TransferItem.events, handleCommandEvents, CommandEvent.frees] at honce

theorem frees_events_eq_false (item : TransferItem) {k i : Nat} (h : k + item.size ≤ i) :
    ∀ e ∈ item.events k, e.frees i = false := by
  intro e he
  cases item with
  | pair call ret api =>
    simp only [TransferItem.size] at h
    simp only [TransferItem.events, List.mem_cons, List.not_mem_nil, or_false] at he
    rcases he with rfl | rfl | rfl | rfl | rfl | rfl | rfl <;>
      simp [CommandEvent.frees] <;> omega
  | explicitState cmd internal =>
    simp only [TransferItem.size] at h
    simp only [TransferItem.events, handleCommandEvents, List.cons_append, List.nil_append,
      List.mem_cons, List.not_mem_nil, or_false] at he
    rcases he with rfl | rfl | rfl | rfl | rfl <;> simp [CommandEvent.frees] <;> omega

/-- All commands of the rounds are freed once exactly if all rounds are those of calls. -/
theorem freedOnce_itemEvents_iff (items : List TransferItem) (k : Nat) :
    (∀ i, k ≤ i → i < k + commandCount items → FreedOnce (itemEvents k items) i) ↔
      ∀ item ∈ items, item.IsPair := by
  induction items generalizing k with
  | nil =>
    refine iff_of_true (fun i hlow hhigh => ?_) fun item h => ?_
    · exact absurd (Nat.lt_of_le_of_lt hlow hhigh) (Nat.lt_irrefl k)
    · cases h
  | cons item items ih =>
    have hcount : commandCount (item :: items) = item.size + commandCount items := by
      rw [commandCount, List.map_cons, List.sum_cons]
      rfl
    rw [List.forall_mem_cons, ← freedOnce_events_iff item k, ← ih (k + item.size), hcount,
      itemEvents]
    constructor
    · intro h
      constructor
      · intro i hlow hhigh
        exact (freedOnce_append (from_itemEvents items _) hhigh).1 (h i hlow (by omega))
      · intro i hlow hhigh
        exact (freedOnce_append_right (frees_events_eq_false item hlow)).1
          (h i (by omega) (by omega))
    · rintro ⟨hhead, htail⟩ i hlow hhigh
      rcases Nat.lt_or_ge i (k + item.size) with hi | hi
      · exact (freedOnce_append (from_itemEvents items _) hi).2 (hhead i hlow hi)
      · exact (freedOnce_append_right (frees_events_eq_false item hi)).2
          (htail i hi (by omega))

end FreedOnce

/-- Every command that a self migration receives before the end command is freed once and not used
after that if and only if the transfer log has no explicit state. -/
theorem self_migration_frees_once_iff (returns : Bytes → Bool) (items : List TransferItem)
    (log : Log) (h : EndsAfter items log) (hreturns : ∀ item ∈ items, item.Returns returns) :
    (∀ k < commandCount items,
      FreedOnce (selfMigrationEvents returns (log.file.length + 1) 0 log) k) ↔
    ∀ item ∈ items, item.IsPair := by
  rw [selfMigrationEvents_eq (length_lt_of_endsAfter h) hreturns h,
    ← freedOnce_itemEvents_iff items 0]
  simp only [Nat.zero_le, true_implies, Nat.zero_add]

/-- A log with the items and the end command, none of it read yet. -/
def itemsLog (items : List TransferItem) : Log :=
  { Log.new with
    file := encodeLog (items.flatMap TransferItem.records ++ [⟨0, .ofIds 0 7⟩]) }

theorem endsAfter_itemsLog (items : List TransferItem) : EndsAfter items (itemsLog items) :=
  ⟨.ofIds 0 7, ⟨rfl, rfl⟩, [], rfl, rfl⟩

/-- A recorded call and its return. -/
def pairItem : TransferItem := .pair (.ofIds 1 1) (.ofIds 1 2) (by decide)

/-- The trace of a self migration with one recorded call. -/
def pairEvents : List CommandEvent :=
  selfMigrationEvents (fun _ => true) ((itemsLog [pairItem]).file.length + 1) 0
    (itemsLog [pairItem])

/-- A recorded call and its return are freed once. -/
theorem self_migration_frees_once_call : FreedOnce pairEvents 0 ∧ FreedOnce pairEvents 1 := by
  have hboth := (self_migration_frees_once_iff (fun _ => true) [pairItem] _
    (endsAfter_itemsLog _) (List.forall_mem_singleton.2 trivial)).2
    (List.forall_mem_singleton.2 trivial)
  exact ⟨hboth 0 (by decide), hboth 1 (by decide)⟩

/-- A command with the explicit state of an object. -/
def explicitStateItem : TransferItem := .explicitState (.ofIds 0 2) ⟨rfl, rfl⟩

/-- The only command of the log is freed twice. -/
theorem explicit_state_freed_twice :
    (selfMigrationEvents (fun _ => true) ((itemsLog [explicitStateItem]).file.length + 1) 0
      (itemsLog [explicitStateItem])).countP (CommandEvent.frees 0) = 2 ∧
    ¬ ∀ k < commandCount [explicitStateItem],
      FreedOnce (selfMigrationEvents (fun _ => true)
        ((itemsLog [explicitStateItem]).file.length + 1) 0 (itemsLog [explicitStateItem])) k := by
  have hreturns : ∀ item ∈ [explicitStateItem], item.Returns fun _ => true :=
    List.forall_mem_singleton.2 rfl
  have hevents := selfMigrationEvents_eq (k := 0)
    (length_lt_of_endsAfter (endsAfter_itemsLog [explicitStateItem])) hreturns
    (endsAfter_itemsLog [explicitStateItem])
  rw [hevents]
  refine ⟨rfl, fun h => ?_⟩
  exact absurd (h 0 (by decide)).once (by decide)

end Ava.Migration
