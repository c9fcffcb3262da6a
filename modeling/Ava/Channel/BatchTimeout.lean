import Ava.Channel.BatchOrder

/-!
# When a batch is sent for its age

The batch thread has a timer. It starts the timer whenever it has sent something; in a round that
does not send a command by itself, it stops the timer, compares its time with `BATCH_TIME_OUT_US`,
and then sends the batch and starts the timer again, or lets the timer go on
(`guestlib/extensions/cmd_batching.c`).

`g_timer_elapsed` gives seconds, and `BATCH_TIME_OUT_US` is a number of microseconds. So the batch
is sent after 10000 seconds, not after 10 milliseconds. Also the timer does not count the time
between the two calls in a round. `batch_timeout_honoured_iff` says in which rounds the timeout is
honoured nevertheless.
-/

set_option autoImplicit false

namespace Ava.Channel

open Ava.Lib

/-! ## The timer of GLib -/

/-- `struct _GTimer`: readings of the monotonic clock, in microseconds. -/
structure GTimer where
  active : Bool
  startTime : Nat
  endTime : Nat
deriving DecidableEq, Repr

def G_USEC_PER_SEC : Nat := 1000000

namespace GTimer

variable (timer : GTimer) (now : Nat)

/-- `g_timer_start`. -/
def start : GTimer := { timer with active := true, startTime := now }

/-- `g_timer_stop`. -/
def stop : GTimer := { timer with active := false, endTime := now }

/-- `g_timer_continue`: what had elapsed when the timer was stopped counts on. -/
def goOn : GTimer :=
  if timer.active then timer
  else { timer with active := true, startTime := now - (timer.endTime - timer.startTime) }

/-- The microseconds that `g_timer_elapsed` divides by `G_USEC_PER_SEC`. -/
def elapsed : Nat := (if timer.active then now else timer.endTime) - timer.startTime

/-- `g_timer_elapsed(timer) >= seconds`. The quotient is a `gdouble`; its error is far less than the
microsecond that a smaller quotient would have to make up for. -/
def reaches (seconds : Nat) : Bool := decide (seconds * G_USEC_PER_SEC ≤ timer.elapsed now)

end GTimer

/-! ## The thread with its timer -/

def BATCH_TIME_OUT_US : Nat := 10000

/-- The batch thread, its timer and the last reading of the clock. The last two fields only serve to
state what the timer measures: when the thread has last sent something, and how long the timer has
been stopped since. -/
structure TimedBatch (γ : Type) where
  batch : CommandBatch γ
  timer : GTimer
  clock : Nat
  lastEmission : Nat
  paused : Nat

/-- A round has two readings of the clock: one when the timer is stopped, and one when it starts or
goes on. -/
inductive TimedOp (γ : Type) where
  | insert (wrap : CommandWrapper γ)
  | process (checked resumed : Nat) (fresh : Nat → UInt8)
  | timeout (checked resumed : Nat) (fresh : Nat → UInt8)

namespace TimedBatch

variable {γ : Type}

/-- `g_timer_start` before the loop. -/
def init (timer : GTimer) (now : Nat) : TimedBatch γ :=
  ⟨CommandBatch.empty, timer.start now, now, now, 0⟩

/-- A synchronous command that is sent by itself. -/
def sendsAlone (b : CommandBatch γ) : Option (CommandWrapper γ) → Bool
  | some w => decide (w.isAsync = false ∧ b.activeCmds.length = 0)
  | none => false

/-- The commands that a round finds in the active queue. -/
def collected (b : CommandBatch γ) (wrap : Option (CommandWrapper γ)) : List Command :=
  b.activeCmds ++ (wrap.map CommandWrapper.cmd).toList

/-- A synchronous command has come. -/
def isSync : Option (CommandWrapper γ) → Bool
  | some w => !w.isAsync
  | none => false

/-- A round of `batch_process_thread` for what the pending queue has returned, and `rest` of the
queue. The clock does not go back. -/
def round (threadId : Nat) (s : TimedBatch γ) (wrap : Option (CommandWrapper γ))
    (rest : List (CommandWrapper γ)) (checked resumed : Nat) (fresh : Nat → UInt8) :
    Option (TimedBatch γ) :=
  if s.clock ≤ checked ∧ checked ≤ resumed then
    let b := { s.batch with pendingCmds := rest }
    let stopped := if sendsAlone b wrap then s.timer else s.timer.stop checked
    let elapsed := stopped.reaches checked BATCH_TIME_OUT_US
    (b.processWrap threadId wrap elapsed fresh).map fun b' =>
      if isSync wrap || decide (BATCH_SIZE ≤ (collected b wrap).length) || elapsed then
        ⟨b', stopped.start resumed, resumed, resumed, 0⟩
      else ⟨b', stopped.goOn resumed, resumed, s.lastEmission, s.paused + (resumed - checked)⟩
  else none

/-- The steps of the threads. -/
def step (threadId : Nat) (s : TimedBatch γ) : TimedOp γ → Option (TimedBatch γ)
  | .insert wrap => some { s with batch := s.batch.insertCommand wrap }
  | .process checked resumed fresh =>
    match s.batch.pendingCmds with
    | [] => none
    | wrap :: pending => s.round threadId (some wrap) pending checked resumed fresh
  | .timeout checked resumed fresh =>
    match s.batch.pendingCmds with
    | [] => s.round threadId none [] checked resumed fresh
    | _ :: _ => none

/-! ## The timeout -/

/-- An asynchronous command is in the active queue. -/
def AsyncRemains (s : TimedBatch γ) : Prop :=
  ∃ w ∈ s.batch.inserted, w.isAsync = true ∧ w.cmd ∈ s.batch.activeCmds

/-- The reading of the clock at which a round compares times. -/
def checkedAt : TimedOp γ → Option Nat
  | .insert _ => none
  | .process checked _ _ => some checked
  | .timeout checked _ _ => some checked

/-- The operation is a round in which at least `BATCH_TIME_OUT_US` microseconds have passed since
the thread has last sent something. -/
def Due (s : TimedBatch γ) (op : TimedOp γ) : Prop :=
  ∃ checked, checkedAt op = some checked ∧ BATCH_TIME_OUT_US ≤ checked - s.lastEmission

/-- What the round finds in the pending queue. -/
def arrival (s : TimedBatch γ) : TimedOp γ → Option (CommandWrapper γ)
  | .insert _ => none
  | .process _ _ _ => s.batch.pendingCmds.head?
  | .timeout _ _ _ => none

/-- The thread sends what it has collected: a synchronous command has come, there are enough
commands, or the time since it has last sent something, without the time in which the timer was
stopped, is `BATCH_TIME_OUT_US` seconds. -/
def Sends (s : TimedBatch γ) (wrap : Option (CommandWrapper γ)) (checked : Nat) : Prop :=
  isSync wrap = true ∨ BATCH_SIZE ≤ (collected s.batch wrap).length ∨
    BATCH_TIME_OUT_US * G_USEC_PER_SEC + s.paused ≤ checked - s.lastEmission

/-- The round has nothing to send, or sends it. -/
def Flushes (s : TimedBatch γ) (op : TimedOp γ) : Prop :=
  ∃ checked, checkedAt op = some checked ∧
    (collected s.batch (s.arrival op) = [] ∨ s.Sends (s.arrival op) checked)

/-- What the timer measures. -/
structure Measures (s : TimedBatch γ) : Prop where
  active : s.timer.active = true
  started : s.timer.startTime = s.lastEmission + s.paused
  past : s.timer.startTime ≤ s.clock

section Round

variable {s t : TimedBatch γ} {threadId : Nat} {wrap : Option (CommandWrapper γ)}
  {rest : List (CommandWrapper γ)} {checked resumed : Nat} {fresh : Nat → UInt8}

/-- The part of a round that does not look at the timer. -/
theorem processWrap_activeCmds {b b' : CommandBatch γ} {elapsed : Bool}
    (h : b.processWrap threadId wrap elapsed fresh = some b') :
    b'.activeCmds =
      if isSync wrap || decide (BATCH_SIZE ≤ (collected b wrap).length) || elapsed then []
      else collected b wrap := by
  cases wrap with
  | none =>
    simp only [CommandBatch.processWrap] at h
    split_ifs at h with hemit
    · obtain ⟨r, -, rfl⟩ := Option.map_eq_some_iff.1 h
      rw [if_pos]
      simpa [isSync, collected] using hemit
    · cases h
      rw [if_neg]
      · rfl
      · simpa [isSync, collected] using hemit
  | some w =>
    simp only [CommandBatch.processWrap] at h
    split_ifs at h with halone hemit
    · -- the active queue was empty
      cases h
      rw [if_pos (by simp [isSync, halone.1])]
      exact List.length_eq_zero_iff.1 halone.2
    · obtain ⟨r, -, rfl⟩ := Option.map_eq_some_iff.1 h
      rw [if_pos]
      simpa [isSync, collected, or_assoc] using hemit
    · cases h
      rw [if_neg]
      · rfl
      · simpa [isSync, collected, or_assoc] using hemit

/-- What a round does, besides the untimed part. -/
inductive RoundEffect (s t : TimedBatch γ) (wrap : Option (CommandWrapper γ))
    (checked resumed : Nat) : Prop where
  | sent (sends : s.Sends wrap checked) (active : t.batch.activeCmds = [])
      (timer : t.timer.active = true ∧ t.timer.startTime = resumed)
      (last : t.lastEmission = resumed) (paused : t.paused = 0)
  | kept (sends : ¬ s.Sends wrap checked) (active : t.batch.activeCmds = collected s.batch wrap)
      (timer : t.timer = (s.timer.stop checked).goOn resumed)
      (last : t.lastEmission = s.lastEmission)
      (paused : t.paused = s.paused + (resumed - checked))

/-- The comparison of a round, whether or not it has stopped the timer. -/
theorem Measures.reaches_iff (hm : s.Measures) (hclock : s.clock ≤ checked) {stopped : GTimer}
    (hstopped : stopped = s.timer ∨ stopped = s.timer.stop checked) :
    stopped.reaches checked BATCH_TIME_OUT_US = true ↔
      BATCH_TIME_OUT_US * G_USEC_PER_SEC + s.paused ≤ checked - s.lastEmission := by
  have helapsed : stopped.elapsed checked = checked - s.timer.startTime := by
    rcases hstopped with rfl | rfl
    · rw [GTimer.elapsed, if_pos hm.active]
    · rfl
  have hpast := hm.past
  rw [GTimer.reaches, decide_eq_true_iff, helapsed]
  rw [hm.started] at hpast ⊢
  have hpos : 0 < BATCH_TIME_OUT_US * G_USEC_PER_SEC := by decide
  omega

theorem round_effect (hm : s.Measures)
    (h : s.round threadId wrap rest checked resumed fresh = some t) :
    (s.clock ≤ checked ∧ checked ≤ resumed) ∧ t.clock = resumed ∧
      (∃ elapsed, ({ s.batch with pendingCmds := rest } : CommandBatch γ).processWrap threadId wrap
        elapsed fresh = some t.batch) ∧ RoundEffect s t wrap checked resumed := by
  rw [round] at h
  split_ifs at h with hclock
  obtain ⟨b', hb', rfl⟩ := Option.map_eq_some_iff.1 h
  generalize hstopped : (if sendsAlone { s.batch with pendingCmds := rest } wrap then s.timer
    else s.timer.stop checked) = stopped at hb' ⊢
  have hor : stopped = s.timer ∨ stopped = s.timer.stop checked := by
    rw [← hstopped]
    split_ifs
    · exact .inl rfl
    · exact .inr rfl
  have hactive := processWrap_activeCmds hb'
  have hsends : (isSync wrap || decide (BATCH_SIZE ≤
      (collected { s.batch with pendingCmds := rest } wrap).length) ||
        stopped.reaches checked BATCH_TIME_OUT_US) = true ↔ s.Sends wrap checked := by
    rw [Bool.or_eq_true, Bool.or_eq_true, hm.reaches_iff hclock.1 hor, decide_eq_true_iff,
      or_assoc]
    exact Iff.rfl
  by_cases hs : s.Sends wrap checked
  · rw [if_pos (hsends.2 hs)] at hactive ⊢
    exact ⟨hclock, rfl, ⟨_, hb'⟩, .sent hs hactive ⟨rfl, rfl⟩ rfl rfl⟩
  · have hne := fun h => hs (hsends.1 h)
    rw [if_neg hne] at hactive ⊢
    refine ⟨hclock, rfl, ⟨_, hb'⟩, .kept hs hactive ?_ rfl rfl⟩
    -- a command that is sent by itself is synchronous
    have halone : sendsAlone { s.batch with pendingCmds := rest } wrap = false := by
      cases wrap with
      | none => rfl
      | some w =>
        refine decide_eq_false fun hw => hs (.inl ?_)
        rw [isSync, hw.1]
        rfl
    rw [halone] at hstopped
    rw [← hstopped]
    rfl

theorem RoundEffect.measures (hm : s.Measures) (hclock : s.clock ≤ checked ∧ checked ≤ resumed)
    (hresumed : t.clock = resumed) (h : RoundEffect s t wrap checked resumed) : t.Measures := by
  have hstarted := hm.started
  have hpast := hm.past
  cases h with
  | sent sends active timer last paused =>
    refine ⟨timer.1, ?_, ?_⟩
    · rw [timer.2, last, paused, Nat.add_zero]
    · rw [timer.2, hresumed]
  | kept sends active timer last paused =>
    -- the time between the two calls of the round is added to the pause
    have hstart : t.timer.startTime = resumed - (checked - s.timer.startTime) := by
      rw [timer]
      rfl
    refine ⟨by rw [timer]; rfl, ?_, ?_⟩
    · rw [hstart, last, paused]
      omega
    · rw [hstart, hresumed]
      omega

end Round

/-! ## Runs -/

section Runs

variable {s t : TimedBatch γ} {threadId : Nat} {op : TimedOp γ}

/-- What a step can be: a command comes in, or a round of the thread with the first pending command
or, if there is none, without. -/
theorem step_cases (h : s.step threadId op = some t) :
    (∃ wrap, op = .insert wrap ∧ t = { s with batch := s.batch.insertCommand wrap }) ∨
    (∃ wrap pending checked resumed fresh, op = .process checked resumed fresh ∧
      s.batch.pendingCmds = wrap :: pending ∧
      s.round threadId (some wrap) pending checked resumed fresh = some t) ∨
    ∃ checked resumed fresh, op = .timeout checked resumed fresh ∧ s.batch.pendingCmds = [] ∧
      s.round threadId none [] checked resumed fresh = some t := by
  cases op with
  | insert wrap =>
    cases h
    exact .inl ⟨wrap, rfl, rfl⟩
  | process checked resumed fresh =>
    rw [step] at h
    split at h
    · cases h
    · rename_i wrap pending hpending
      exact .inr (.inl ⟨wrap, pending, checked, resumed, fresh, rfl, hpending, h⟩)
  | timeout checked resumed fresh =>
    rw [step] at h
    split at h
    · rename_i hpending
      exact .inr (.inr ⟨checked, resumed, fresh, rfl, hpending, h⟩)
    · cases h

/-- A round of the thread, from what the pending queue has returned. -/
theorem step_round {checked : Nat} (hop : checkedAt op = some checked)
    (h : s.step threadId op = some t) :
    ∃ rest resumed fresh,
      s.round threadId (s.arrival op) rest checked resumed fresh = some t ∧
        s.batch.pendingCmds = (s.arrival op).toList ++ rest := by
  rcases step_cases h with ⟨wrap, rfl, -⟩ |
    ⟨wrap, pending, c, resumed, fresh, rfl, hpending, hround⟩ |
    ⟨c, resumed, fresh, rfl, hpending, hround⟩
  · cases hop
  · cases hop
    refine ⟨pending, resumed, fresh, ?_, ?_⟩
    · rw [arrival, hpending]
      exact hround
    · rw [arrival, hpending]
      rfl
  · cases hop
    exact ⟨[], resumed, fresh, hround, hpending⟩

theorem measures_step (hm : s.Measures) (h : s.step threadId op = some t) : t.Measures := by
  have hround : ∀ {wrap rest checked resumed fresh},
      s.round threadId wrap rest checked resumed fresh = some t → t.Measures := by
    intro wrap rest checked resumed fresh hr
    obtain ⟨hclock, hresumed, -, heffect⟩ := round_effect hm hr
    exact heffect.measures hm hclock hresumed
  rcases step_cases h with ⟨wrap, -, rfl⟩ | ⟨wrap, pending, c, resumed, fresh, -, -, hr⟩ |
    ⟨c, resumed, fresh, -, -, hr⟩
  · exact ⟨hm.active, hm.started, hm.past⟩
  · exact hround hr
  · exact hround hr

/-- A step of the timed thread is one of the thread without a timer. -/
theorem untimed_step (hm : s.Measures) (h : s.step threadId op = some t) :
    ∃ op', s.batch.step threadId op' = some t.batch := by
  rcases step_cases h with ⟨wrap, -, rfl⟩ |
    ⟨wrap, pending, c, resumed, fresh, -, hpending, hround⟩ |
    ⟨c, resumed, fresh, -, hpending, hround⟩
  · exact ⟨.insert wrap, rfl⟩
  · obtain ⟨-, -, ⟨elapsed, hb⟩, -⟩ := round_effect hm hround
    refine ⟨.process elapsed fresh, ?_⟩
    simp only [CommandBatch.step, hpending]
    exact hb
  · obtain ⟨-, -, ⟨elapsed, hb⟩, -⟩ := round_effect hm hround
    refine ⟨.timeout elapsed fresh, ?_⟩
    simp only [CommandBatch.step, hpending]
    rw [← hpending] at hb
    exact hb

theorem measures_init (timer : GTimer) (now : Nat) : (init timer now : TimedBatch γ).Measures :=
  ⟨rfl, rfl, Nat.le_refl _⟩

/-- A timed run measures the time, and is a run of the thread without a timer. -/
theorem untimed_of_reaches {timer : GTimer} {now : Nat}
    (h : Reaches (step threadId) (fun _ _ => True) (init timer now) s) :
    s.Measures ∧
      Reaches (CommandBatch.step threadId) (fun _ _ => True) CommandBatch.empty s.batch := by
  refine h.invariant (I := fun s => s.Measures ∧
    Reaches (CommandBatch.step threadId) (fun _ _ => True) CommandBatch.empty s.batch) ?_
    ⟨measures_init timer now, .refl⟩
  rintro s op t ⟨hm, hrun⟩ - hstep
  obtain ⟨op', hop'⟩ := untimed_step hm hstep
  exact ⟨measures_step hm hstep, hrun.tail ⟨op', trivial, hop'⟩⟩

/-- All commands in the active queue are asynchronous. -/
theorem asyncRemains_iff
    (h : Reaches (CommandBatch.step threadId) (fun _ _ => True) CommandBatch.empty s.batch) :
    s.AsyncRemains ↔ s.batch.activeCmds ≠ [] := by
  constructor
  · rintro ⟨w, -, -, hmem⟩
    exact List.ne_nil_of_mem hmem
  · intro hne
    obtain ⟨f, hcomplete, hcarries⟩ := CommandBatch.carries_of_reaches h
    obtain ⟨active, hwaiting, hactive, hasync, -⟩ := hcarries.waiting
    cases active with
    | nil => exact absurd hactive hne
    | cons w active =>
      refine ⟨w, ?_, hasync w List.mem_cons_self, ?_⟩
      · rw [← hcarries.entered, ← show f.left ++ f.waiting = f.entered from hcomplete, hwaiting]
        exact List.mem_append_right _ List.mem_cons_self
      · rw [hactive]
        exact List.mem_cons_self

end Runs

/-- In every run, a round that is due leaves no asynchronous command in the active queue if and only
if it has nothing to send, or sends it for a synchronous command, for the number of commands, or
after `BATCH_TIME_OUT_US` seconds. -/
theorem batch_timeout_honoured_iff {threadId : Nat} {timer : GTimer} {now : Nat}
    {s t : TimedBatch γ} {op : TimedOp γ}
    (h : Reaches (step threadId) (fun _ _ => True) (init timer now) s)
    (hstep : s.step threadId op = some t) :
    (s.Due op → ¬ t.AsyncRemains) ↔ (s.Due op → s.Flushes op) := by
  have hafter := untimed_of_reaches (h.tail ⟨op, trivial, hstep⟩)
  obtain ⟨hm, -⟩ := untimed_of_reaches h
  rw [asyncRemains_iff hafter.2, not_not]
  refine imp_congr_right ?_
  rintro ⟨checked, hop, -⟩
  obtain ⟨rest, resumed, fresh, hround, -⟩ := step_round hop hstep
  obtain ⟨-, -, -, heffect⟩ := round_effect hm hround
  cases heffect with
  | sent sends active timer last paused =>
    exact iff_of_true active ⟨checked, hop, .inr sends⟩
  | kept sends active timer last paused =>
    rw [active]
    constructor
    · exact fun hnil => ⟨checked, hop, .inl hnil⟩
    · rintro ⟨c, hc, hnil | hsends⟩
      · exact hnil
      · cases hop.symm.trans hc
        exact absurd hsends sends

set_option maxRecDepth 4000 in
/-- An asynchronous command comes, and 20 ms later a synchronous one: both are sent. -/
theorem batch_timeout_honoured_sync :
    ∃ s t : TimedBatch Unit,
      Reaches (step 9) (fun _ _ => True) (init ⟨true, 0, 0⟩ 0) s ∧
      s.step 9 (.process 21000 21001 fun _ => 0) = some t ∧
      s.Due (.process 21000 21001 fun _ => 0) ∧ ¬ t.AsyncRemains := by
  have h : Reaches (step 9) (fun _ _ => True) (init ⟨true, 0, 0⟩ 0 : TimedBatch Unit) _ :=
    Reaches.of_runGuarded [.insert ⟨.ofIds 1 5, (), true⟩, .process 1000 1001 fun _ => 0,
      .insert ⟨.ofIds 1 6, (), false⟩] rfl
  refine ⟨_, _, h, rfl, ⟨21000, rfl, by decide⟩, ?_⟩
  refine (batch_timeout_honoured_iff h
    (by rfl : step 9 _ (.process 21000 21001 fun _ => 0) = some _)).2 ?_ ⟨21000, rfl, by decide⟩
  exact fun _ => ⟨21000, rfl, .inr (.inl rfl)⟩

set_option maxRecDepth 4000 in
/-- An asynchronous command is still in the active queue a second after the thread has started. -/
theorem batch_timeout_missed :
    ∃ s t : TimedBatch Unit,
      Reaches (step 9) (fun _ _ => True) (init ⟨true, 0, 0⟩ 0) s ∧
      s.step 9 (.timeout 1000000 1000001 fun _ => 0) = some t ∧
      s.Due (.timeout 1000000 1000001 fun _ => 0) ∧ t.AsyncRemains :=
  have h : Reaches (step 9) (fun _ _ => True) (init ⟨true, 0, 0⟩ 0 : TimedBatch Unit) _ :=
    Reaches.of_runGuarded [.insert ⟨.ofIds 1 5, (), true⟩, .process 1000 1001 fun _ => 0] rfl
  ⟨_, _, h, rfl, ⟨1000000, rfl, by decide⟩, ⟨.ofIds 1 5, (), true⟩, List.mem_cons_self, rfl,
    List.mem_cons_self⟩

end TimedBatch

end Ava.Channel
