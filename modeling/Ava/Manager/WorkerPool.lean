import Ava.Lib.Rows
import Ava.Lib.Transition
import Mathlib.Algebra.BigOperators.Group.Multiset.Basic
import Mathlib.Algebra.Order.BigOperators.Group.List
import Mathlib.Data.Multiset.OrderedMonoid

/-!
# The pool of pre-spawned workers

The manager of `worker/nvidia_gpu/manager_nv.cpp` keeps for every GPU a queue of idle workers that
were started beforehand. A new application gets the port of an idle worker, and the handler starts
another one for the queue, unless the queue is full; without an idle worker it starts one for the
application. Handlers run at the same time. What is done under the lock of a queue, the increment
of `worker_id`, `fork` and the reply are steps of their own.

`spawned` and `taken` are ghosts: the workers that were started, with their GPUs, and how many ids
have been taken.
-/

set_option autoImplicit false

namespace Ava.Manager.WorkerPool

open Ava.Lib

/-- The settings of the manager. `worker_pool_enabled` is 1 and never changes. -/
structure Config where
  workerPortBase : Int
  workerPoolSize : UInt32
  totalGpuNum : Nat

/-- Where a run of `handle_guestlib` for a new application is; the GPU is the one selected. -/
inductive Progress where
  | dequeuing (gpu : Nat)
  -- an idle worker has been found
  | replying (gpu : Nat) (port : Int)
  | checking (gpu : Nat)
  | refilling (gpu : Nat)
  | forking (gpu : Nat) (port : Int)
  | enqueuing (gpu : Nat) (port : Int)
  -- there was none
  | starting (gpu : Nat)
  | forkingFirst (gpu : Nat) (port : Int)
  | replyingFirst (gpu : Nat) (port : Int)
  | done
deriving DecidableEq

/-- `spawning` is the loop of `main` that fills the queues: the GPU and the workers it has. -/
inductive MainProgress where
  | spawning (gpu count : Nat)
  | serving
deriving DecidableEq

structure Pool where
  main : MainProgress
  workerId : BitVec 32
  idleWorkers : List (List Int)
  handlers : List Progress
  replied : List (Int × Nat)
  spawned : List (Int × Nat)
  taken : Nat

/-- Before the loop of `main`. -/
def Config.start (cfg : Config) : Pool :=
  ⟨.spawning 0 0, 1, List.replicate cfg.totalGpuNum [], [], [], [], 0⟩

namespace Pool

variable (cfg : Config)

/-- `get_worker_port(worker_id++)`. There is no result if the sum is not an `int`. -/
def takePort (p : Pool) : Option (Int × Pool) :=
  let port := cfg.workerPortBase + p.workerId.toInt
  if port < -2 ^ 31 ∨ 2 ^ 31 ≤ port then none
  else some (port, { p with workerId := p.workerId + 1, taken := p.taken + 1 })

/-- `Workers::enqueue`. -/
def enqueue (p : Pool) (gpu : Nat) (port : Int) : Pool :=
  { p with idleWorkers := p.idleWorkers.modify gpu fun queue => queue ++ [port] }

/-- `fork`, and `spawn_worker` in the child. The result of `fork` is not checked. -/
def fork (p : Pool) (gpu : Nat) (port : Int) (forked : Bool) : Pool :=
  if forked then { p with spawned := p.spawned ++ [(port, gpu)] } else p

/-- `reply_to_guestlib`. -/
def reply (p : Pool) (gpu : Nat) (port : Int) : Pool :=
  { p with replied := p.replied ++ [(port, gpu)] }

/-- The next step of a handler. -/
def turn (p : Pool) (forked : Bool) : Progress → Option (Pool × Progress)
  | .dequeuing gpu =>
    match p.idleWorkers[gpu]? with
    | none => none
    | some [] => some (p, .starting gpu)
    | some (port :: queue) =>
      -- a port of 0 is taken for an empty queue
      some ({ p with idleWorkers := p.idleWorkers.set gpu queue },
        if port = 0 then .starting gpu else .replying gpu port)
  | .replying gpu port => some (p.reply gpu port, .checking gpu)
  | .checking gpu =>
    match p.idleWorkers[gpu]? with
    | none => none
    | some queue =>
      if cfg.workerPoolSize - 1 < UInt32.ofNat queue.length then some (p, .done)
      else some (p, .refilling gpu)
  | .refilling gpu => (p.takePort cfg).map fun taken => (taken.2, .forking gpu taken.1)
  | .forking gpu port => some (p.fork gpu port forked, .enqueuing gpu port)
  | .enqueuing gpu port => some (p.enqueue gpu port, .done)
  | .starting gpu => (p.takePort cfg).map fun taken => (taken.2, .forkingFirst gpu taken.1)
  | .forkingFirst gpu port => some (p.fork gpu port forked, .replyingFirst gpu port)
  | .replyingFirst gpu port => some (p.reply gpu port, .done)
  | .done => none

inductive Op where
  | prespawn (forked : Bool)
  | arrive (gpu : Nat)
  | advance (handler : Nat) (forked : Bool)

def step (p : Pool) : Op → Option Pool
  | .prespawn forked =>
    match p.main with
    | .serving => none
    | .spawning gpu count =>
      if gpu < cfg.totalGpuNum then
        if count < cfg.workerPoolSize.toNat then
          (p.takePort cfg).map fun taken =>
            { (taken.2.enqueue gpu taken.1).fork gpu taken.1 forked with
              main := .spawning gpu (count + 1) }
        else some { p with main := .spawning (gpu + 1) 0 }
      else some { p with main := .serving }
  | .arrive gpu =>
    match p.main with
    | .spawning .. => none
    | .serving =>
      if gpu < cfg.totalGpuNum then some { p with handlers := p.handlers ++ [.dequeuing gpu] }
      else none
  | .advance h forked =>
    match p.handlers[h]? with
    | none => none
    | some progress => (p.turn cfg forked progress).map fun next =>
      { next.1 with handlers := next.1.handlers.set h next.2 }

/-! ## What holds -/

/-- The step takes an id. -/
def takesId (p : Pool) : Op → Bool
  | .prespawn _ =>
    match p.main with
    | .spawning gpu count => gpu < cfg.totalGpuNum && count < cfg.workerPoolSize.toNat
    | .serving => false
  | .arrive _ => false
  | .advance h _ =>
    match p.handlers[h]? with
    | some (.refilling _) => true
    | some (.starting _) => true
    | _ => false

/-- `fork` succeeds, and at most 2^32 ids are taken. -/
def Regular (p : Pool) : Op → Prop
  | .prespawn forked => forked = true ∧ (p.takesId cfg (.prespawn forked) = true → p.taken < 2 ^ 32)
  | .arrive _ => True
  | .advance h forked =>
    forked = true ∧ (p.takesId cfg (.advance h forked) = true → p.taken < 2 ^ 32)

/-- The port of the worker with the id that was taken after `k` others. -/
def portOf (k : Nat) : Int := cfg.workerPortBase + (BitVec.ofNat 32 (k + 1)).toInt

theorem portOf_inj {j k : Nat} (hj : j < 2 ^ 32) (hk : k < 2 ^ 32)
    (h : portOf cfg j = portOf cfg k) : j = k := by
  have hbits : BitVec.ofNat 32 (j + 1) = BitVec.ofNat 32 (k + 1) :=
    BitVec.toInt_inj.1 (add_left_cancel h)
  have hmod := congrArg BitVec.toNat hbits
  rw [BitVec.toNat_ofNat, BitVec.toNat_ofNat] at hmod
  omega

variable {cfg} {p p' : Pool}

variable {port : Int}

theorem takePort_eq_some (h : p.takePort cfg = some (port, p')) :
    port = cfg.workerPortBase + p.workerId.toInt ∧
      p' = { p with workerId := p.workerId + 1, taken := p.taken + 1 } := by
  rw [takePort] at h
  split_ifs at h
  cases h
  exact ⟨rfl, rfl⟩

/-- What a handler does in one step. -/
inductive Turn (cfg : Config) (p : Pool) (forked : Bool) : Progress → Pool → Progress → Prop where
  | empty {gpu} (idle : p.idleWorkers[gpu]? = some []) :
      Turn cfg p forked (.dequeuing gpu) p (.starting gpu)
  | zero {gpu queue} (idle : p.idleWorkers[gpu]? = some (0 :: queue)) :
      Turn cfg p forked (.dequeuing gpu) { p with idleWorkers := p.idleWorkers.set gpu queue }
        (.starting gpu)
  | found {gpu port queue} (idle : p.idleWorkers[gpu]? = some (port :: queue)) :
      Turn cfg p forked (.dequeuing gpu) { p with idleWorkers := p.idleWorkers.set gpu queue }
        (.replying gpu port)
  | reply {gpu port} : Turn cfg p forked (.replying gpu port) (p.reply gpu port) (.checking gpu)
  | full {gpu} : Turn cfg p forked (.checking gpu) p .done
  | refill {gpu} : Turn cfg p forked (.checking gpu) p (.refilling gpu)
  | take {gpu port p'} (taken : p.takePort cfg = some (port, p')) :
      Turn cfg p forked (.refilling gpu) p' (.forking gpu port)
  | fork {gpu port} :
      Turn cfg p forked (.forking gpu port) (p.fork gpu port forked) (.enqueuing gpu port)
  | enqueue {gpu port} : Turn cfg p forked (.enqueuing gpu port) (p.enqueue gpu port) .done
  | takeFirst {gpu port p'} (taken : p.takePort cfg = some (port, p')) :
      Turn cfg p forked (.starting gpu) p' (.forkingFirst gpu port)
  | forkFirst {gpu port} :
      Turn cfg p forked (.forkingFirst gpu port) (p.fork gpu port forked) (.replyingFirst gpu port)
  | replyFirst {gpu port} :
      Turn cfg p forked (.replyingFirst gpu port) (p.reply gpu port) .done

variable {forked : Bool} {progress progress' : Progress}

theorem turn_cases (h : p.turn cfg forked progress = some (p', progress')) :
    Turn cfg p forked progress p' progress' := by
  cases progress with
  | dequeuing gpu =>
    rw [turn] at h
    split at h
    · cases h
    · rename_i hqueue
      cases h
      exact .empty hqueue
    · rename_i port queue hqueue
      split_ifs at h with hzero
      · cases h
        subst hzero
        exact .zero hqueue
      · cases h
        exact .found hqueue
  | replying gpu port =>
    cases h
    exact .reply
  | checking gpu =>
    rw [turn] at h
    split at h
    · cases h
    · split_ifs at h
      · cases h
        exact .full
      · cases h
        exact .refill
  | refilling gpu =>
    obtain ⟨⟨port, q⟩, htaken, heq⟩ := Option.map_eq_some_iff.1 h
    cases heq
    exact .take htaken
  | forking gpu port =>
    cases h
    exact .fork
  | enqueuing gpu port =>
    cases h
    exact .enqueue
  | starting gpu =>
    obtain ⟨⟨port, q⟩, htaken, heq⟩ := Option.map_eq_some_iff.1 h
    cases heq
    exact .takeFirst htaken
  | forkingFirst gpu port =>
    cases h
    exact .forkFirst
  | replyingFirst gpu port =>
    cases h
    exact .replyFirst
  | done => cases h

theorem Turn.handlers (h : Turn cfg p forked progress p' progress') : p'.handlers = p.handlers := by
  cases h with
  | take htaken => rw [(takePort_eq_some htaken).2]
  | takeFirst htaken => rw [(takePort_eq_some htaken).2]
  | fork => cases forked <;> rfl
  | forkFirst => cases forked <;> rfl
  | _ => rfl

theorem Turn.main (h : Turn cfg p forked progress p' progress') : p'.main = p.main := by
  cases h with
  | take htaken => rw [(takePort_eq_some htaken).2]
  | takeFirst htaken => rw [(takePort_eq_some htaken).2]
  | fork => cases forked <;> rfl
  | forkFirst => cases forked <;> rfl
  | _ => rfl

/-- What a step does. -/
inductive Stepped (cfg : Config) (p : Pool) : Op → Pool → Prop where
  | prespawn {forked gpu count port q} (main : p.main = .spawning gpu count)
      (valid : gpu < cfg.totalGpuNum) (few : count < cfg.workerPoolSize.toNat)
      (taken : p.takePort cfg = some (port, q)) :
      Stepped cfg p (.prespawn forked)
        { (q.enqueue gpu port).fork gpu port forked with main := .spawning gpu (count + 1) }
  | nextGpu {forked gpu count} (main : p.main = .spawning gpu count)
      (enough : cfg.workerPoolSize.toNat ≤ count) :
      Stepped cfg p (.prespawn forked) { p with main := .spawning (gpu + 1) 0 }
  | serve {forked gpu count} (main : p.main = .spawning gpu count)
      (last : cfg.totalGpuNum ≤ gpu) :
      Stepped cfg p (.prespawn forked) { p with main := .serving }
  | arrive {gpu} (main : p.main = .serving) (valid : gpu < cfg.totalGpuNum) :
      Stepped cfg p (.arrive gpu) { p with handlers := p.handlers ++ [.dequeuing gpu] }
  | advance {h forked progress q progress'} (handler : p.handlers[h]? = some progress)
      (turn : Turn cfg p forked progress q progress') :
      Stepped cfg p (.advance h forked) { q with handlers := p.handlers.set h progress' }

variable {op : Op}

theorem stepped_of_step (h : p.step cfg op = some p') : Stepped cfg p op p' := by
  cases op with
  | prespawn forked =>
    rw [step] at h
    cases hmain : p.main with
    | serving =>
      rw [hmain] at h
      cases h
    | spawning gpu count =>
      rw [hmain] at h
      dsimp only at h
      split_ifs at h with hgpu hcount
      · obtain ⟨⟨port, q⟩, htaken, rfl⟩ := Option.map_eq_some_iff.1 h
        exact .prespawn hmain hgpu hcount htaken
      · cases h
        exact .nextGpu hmain (Nat.le_of_not_lt hcount)
      · cases h
        exact .serve hmain (Nat.le_of_not_lt hgpu)
  | arrive gpu =>
    rw [step] at h
    split at h
    · cases h
    · rename_i hmain
      split_ifs at h with hgpu
      cases h
      exact .arrive hmain hgpu
  | advance i forked =>
    rw [step] at h
    cases hi : p.handlers[i]? with
    | none =>
      rw [hi] at h
      cases h
    | some progress =>
      rw [hi] at h
      obtain ⟨⟨q, progress'⟩, hturn, rfl⟩ := Option.map_eq_some_iff.1 h
      have hcases := turn_cases hturn
      dsimp only
      rw [hcases.handlers]
      exact .advance hi hcases

/-! ### Every port is in one place -/

/-- The port that a handler has in its hands. -/
def portIn : Progress → Multiset Int
  | .replying _ port => {port}
  | .forking _ port => {port}
  | .enqueuing _ port => {port}
  | .forkingFirst _ port => {port}
  | .replyingFirst _ port => {port}
  | _ => 0

/-- The ports in the queues and the replied ones. -/
def laidDown (p : Pool) : Multiset Int :=
  (p.idleWorkers.map fun queue : List Int => (queue : Multiset Int)).sum +
    (p.replied.map Prod.fst : List Int)

/-- All ports, with those that handlers have. -/
def ports (p : Pool) : Multiset Int := p.laidDown + (p.handlers.map portIn).sum

theorem add_port (m : Multiset Int) (port : Int) : m + {port} = port ::ₘ m := by
  rw [Multiset.add_comm, Multiset.singleton_add]

variable {gpu : Nat} {queue : List Int}

theorem laidDown_dequeue (h : p.idleWorkers[gpu]? = some (port :: queue)) :
    p.laidDown =
      port ::ₘ { p with idleWorkers := p.idleWorkers.set gpu queue }.laidDown := by
  have hsum := sum_map_set (fun queue : List Int => (queue : Multiset Int)) h queue
  rw [← Multiset.cons_coe, Multiset.add_cons, ← Multiset.cons_add, add_left_inj] at hsum
  rw [laidDown, laidDown, ← hsum, Multiset.cons_add]

/-- A port comes into a queue, if there is one. -/
theorem laidDown_enqueue_le (gpu : Nat) (port : Int) :
    (p.enqueue gpu port).laidDown ≤ port ::ₘ p.laidDown := by
  cases hqueue : p.idleWorkers[gpu]? with
  | none =>
    have hsame : p.enqueue gpu port = p := by
      rw [enqueue, List.modify_eq_self (List.getElem?_eq_none_iff.1 hqueue)]
    rw [hsame]
    exact Multiset.le_cons_self _ _
  | some queue =>
    have hsum := sum_map_modify (fun queue : List Int => (queue : Multiset Int))
      (fun queue => queue ++ [port]) p.idleWorkers gpu queue hqueue
    rw [← Multiset.coe_add, Multiset.coe_singleton, ← add_assoc, add_right_comm,
      add_left_inj] at hsum
    rw [laidDown, laidDown, enqueue, hsum, add_right_comm, add_port]

theorem laidDown_reply (gpu : Nat) (port : Int) :
    (p.reply gpu port).laidDown = port ::ₘ p.laidDown := by
  rw [laidDown, reply, List.map_append, ← Multiset.coe_add, ← add_assoc, laidDown]
  exact add_port _ port

theorem fork_taken (gpu : Nat) (port : Int) (forked : Bool) :
    (p.fork gpu port forked).taken = p.taken := by
  cases forked <;> rfl

theorem fork_workerId (gpu : Nat) (port : Int) (forked : Bool) :
    (p.fork gpu port forked).workerId = p.workerId := by
  cases forked <;> rfl

theorem laidDown_fork (gpu : Nat) (port : Int) (forked : Bool) :
    (p.fork gpu port forked).laidDown = p.laidDown := by
  cases forked <;> rfl

theorem ports_fork (gpu : Nat) (port : Int) (forked : Bool) :
    (p.fork gpu port forked).ports = p.ports := by
  cases forked <;> rfl

theorem ports_enqueue_le (gpu : Nat) (port : Int) :
    (p.enqueue gpu port).ports ≤ port ::ₘ p.ports := by
  have hle := add_le_add_left (laidDown_enqueue_le (p := p) gpu port) (p.handlers.map portIn).sum
  rw [Multiset.cons_add] at hle
  exact hle

/-- A step of a handler moves a port, loses one, or takes the next one. -/
theorem Turn.ports (h : Turn cfg p forked progress p' progress')
    (hid : p.workerId = BitVec.ofNat 32 (p.taken + 1)) :
    (p'.laidDown + portIn progress' ≤ p.laidDown + portIn progress ∧ p'.taken = p.taken ∧
      p'.workerId = p.workerId) ∨
    (p'.laidDown + portIn progress' = portOf cfg p.taken ::ₘ (p.laidDown + portIn progress) ∧
      p'.taken = p.taken + 1 ∧ p'.workerId = p.workerId + 1 ∧
      ((∃ gpu, progress = .refilling gpu) ∨ ∃ gpu, progress = .starting gpu)) := by
  have htake : ∀ {port : Int} {q : Pool}, p.takePort cfg = some (port, q) →
      q.laidDown + {port} = portOf cfg p.taken ::ₘ (p.laidDown + 0) ∧ q.taken = p.taken + 1 ∧
        q.workerId = p.workerId + 1 := by
    intro port q htaken
    obtain ⟨rfl, rfl⟩ := takePort_eq_some htaken
    refine ⟨?_, rfl, rfl⟩
    rw [add_zero, add_port, portOf, ← hid]
    rfl
  cases h with
  | @zero gpu queue hidle =>
    refine Or.inl ⟨?_, rfl, rfl⟩
    rw [laidDown_dequeue hidle]
    exact add_le_add_left (Multiset.le_cons_self _ _) _
  | @found gpu port queue hidle =>
    refine Or.inl ⟨le_of_eq ?_, rfl, rfl⟩
    simp only [laidDown_dequeue hidle, portIn, add_zero, add_port]
  | @reply gpu port =>
    refine Or.inl ⟨le_of_eq ?_, rfl, rfl⟩
    simp only [laidDown_reply, portIn, add_zero, add_port]
  | @take gpu port q htaken =>
    obtain ⟨hports, hcount, hnext⟩ := htake htaken
    exact Or.inr ⟨hports, hcount, hnext, Or.inl ⟨gpu, rfl⟩⟩
  | @fork gpu port =>
    refine Or.inl ⟨?_, fork_taken gpu port forked, fork_workerId gpu port forked⟩
    rw [laidDown_fork]
    exact le_rfl
  | @enqueue gpu port =>
    refine Or.inl ⟨?_, rfl, rfl⟩
    simp only [portIn, add_zero, add_port]
    exact laidDown_enqueue_le gpu port
  | @takeFirst gpu port q htaken =>
    obtain ⟨hports, hcount, hnext⟩ := htake htaken
    exact Or.inr ⟨hports, hcount, hnext, Or.inr ⟨gpu, rfl⟩⟩
  | @forkFirst gpu port =>
    refine Or.inl ⟨?_, fork_taken gpu port forked, fork_workerId gpu port forked⟩
    rw [laidDown_fork]
    exact le_rfl
  | @replyFirst gpu port =>
    refine Or.inl ⟨le_of_eq ?_, rfl, rfl⟩
    simp only [laidDown_reply, portIn, add_zero, add_port]
  | _ => exact Or.inl ⟨le_rfl, rfl, rfl⟩

/-- The ports that have been taken are distinct, and each of them is in at most one place. -/
structure Distinct (cfg : Config) (p : Pool) : Prop where
  id : p.workerId = BitVec.ofNat 32 (p.taken + 1)
  nodup : p.ports.Nodup
  known : ∀ port ∈ p.ports, ∃ k < p.taken, port = portOf cfg k
  bound : p.taken ≤ 2 ^ 32

theorem distinct_start (cfg : Config) : Distinct cfg cfg.start := by
  have hempty : cfg.start.ports = 0 := by
    simp [ports, laidDown, Config.start]
  refine ⟨rfl, ?_, fun port hport => ?_, Nat.zero_le _⟩
  · rw [hempty]
    exact Multiset.nodup_zero
  · rw [hempty] at hport
    exact absurd hport (Multiset.notMem_zero port)

/-- No port is new. -/
theorem Distinct.of_le (h : Distinct cfg p) (hports : p'.ports ≤ p.ports)
    (htaken : p'.taken = p.taken) (hid : p'.workerId = p.workerId) : Distinct cfg p' := by
  refine ⟨?_, Multiset.nodup_of_le hports h.nodup, fun port hport => ?_, htaken ▸ h.bound⟩
  · rw [hid, htaken, h.id]
  · rw [htaken]
    exact h.known port (Multiset.mem_of_le hports hport)

/-- The next port is new. -/
theorem Distinct.of_cons (h : Distinct cfg p) (hlt : p.taken < 2 ^ 32)
    (hports : p'.ports ≤ portOf cfg p.taken ::ₘ p.ports) (htaken : p'.taken = p.taken + 1)
    (hid : p'.workerId = p.workerId + 1) : Distinct cfg p' := by
  have hnew : portOf cfg p.taken ∉ p.ports := by
    intro hmem
    obtain ⟨k, hk, heq⟩ := h.known _ hmem
    have hsame := portOf_inj cfg hlt (hk.trans hlt) heq
    omega
  refine ⟨?_, ?_, fun port hport => ?_, htaken ▸ hlt⟩
  · rw [hid, htaken, h.id, BitVec.ofNat_add (p.taken + 1) 1]
    rfl
  · exact Multiset.nodup_of_le hports (Multiset.nodup_cons.2 ⟨hnew, h.nodup⟩)
  · rw [htaken]
    rcases Multiset.mem_cons.1 (Multiset.mem_of_le hports hport) with rfl | hold
    · exact ⟨p.taken, Nat.lt_succ_self _, rfl⟩
    · obtain ⟨k, hk, heq⟩ := h.known port hold
      exact ⟨k, hk.trans (Nat.lt_succ_self _), heq⟩

/-- The ports when a handler has made its step. -/
theorem ports_advance {i : Nat} {q : Pool} {m : Multiset Int} (hi : p.handlers[i]? = some progress)
    (h : q.laidDown + portIn progress' ≤ m + (p.laidDown + portIn progress)) :
    { q with handlers := p.handlers.set i progress' }.ports ≤ m + p.ports := by
  have hsum := sum_map_set portIn hi progress'
  have hall := add_le_add_left h (p.handlers.map portIn).sum
  refine le_of_add_le_add_right (a := portIn progress) ?_
  calc { q with handlers := p.handlers.set i progress' }.ports + portIn progress
      = q.laidDown + (((p.handlers.set i progress').map portIn).sum + portIn progress) :=
        add_assoc _ _ _
    _ = q.laidDown + portIn progress' + (p.handlers.map portIn).sum := by
        rw [hsum, add_comm (p.handlers.map portIn).sum, add_assoc]
    _ ≤ m + (p.laidDown + portIn progress) + (p.handlers.map portIn).sum := hall
    _ = m + p.ports + portIn progress := by
        rw [ports]
        abel

theorem Distinct.step (h : Distinct cfg p) (hop : p.Regular cfg op)
    (hstep : p.step cfg op = some p') : Distinct cfg p' := by
  cases stepped_of_step hstep with
  | @prespawn forked gpu count port q hmain hvalid hfew htaken =>
    have hlt : p.taken < 2 ^ 32 := by
      refine hop.2 ?_
      rw [takesId, hmain]
      simp [hvalid, hfew]
    obtain ⟨rfl, rfl⟩ := takePort_eq_some htaken
    refine h.of_cons hlt ?_ (fork_taken ..) (fork_workerId ..)
    rw [portOf, ← h.id]
    exact (ports_fork ..).trans_le (ports_enqueue_le ..)
  | nextGpu => exact h.of_le le_rfl rfl rfl
  | serve => exact h.of_le le_rfl rfl rfl
  | @arrive gpu hmain hvalid =>
    refine h.of_le (le_of_eq ?_) rfl rfl
    rw [ports, ports, List.map_append, List.sum_append]
    exact congrArg _ (add_zero _)
  | @advance i forked progress q progress' hi hturn =>
    rcases hturn.ports h.id with ⟨hports, htaken, hid⟩ | ⟨hports, htaken, hid, htakes⟩
    · refine h.of_le ?_ htaken hid
      have hle := ports_advance (m := 0) hi (hports.trans_eq (zero_add _).symm)
      rwa [zero_add] at hle
    · have hlt : p.taken < 2 ^ 32 := by
        refine hop.2 ?_
        rw [takesId, hi]
        rcases htakes with ⟨gpu, rfl⟩ | ⟨gpu, rfl⟩
        · rfl
        · rfl
      refine h.of_cons hlt ?_ htaken hid
      have hle := ports_advance (m := {portOf cfg p.taken}) hi
        (hports.trans (Multiset.singleton_add _ _).symm).le
      rwa [Multiset.singleton_add] at hle

/-! ### The queues -/

/-- The handler has taken a port from the queue of the GPU and may still put one there. -/
def slotOf (gpu : Nat) : Progress → Nat
  | .replying g _ => if g = gpu then 1 else 0
  | .checking g => if g = gpu then 1 else 0
  | .refilling g => if g = gpu then 1 else 0
  | .forking g _ => if g = gpu then 1 else 0
  | .enqueuing g _ => if g = gpu then 1 else 0
  | _ => 0

/-- How many workers the queue of a GPU may have, as far as `main` is. -/
def roomFor (cfg : Config) (gpu : Nat) : MainProgress → Nat
  | .spawning g count =>
    if gpu < g then cfg.workerPoolSize.toNat
    else if gpu = g then min count cfg.workerPoolSize.toNat else 0
  | .serving => cfg.workerPoolSize.toNat

theorem roomFor_le (cfg : Config) (gpu : Nat) (m : MainProgress) :
    roomFor cfg gpu m ≤ cfg.workerPoolSize.toNat := by
  cases m with
  | serving => exact le_rfl
  | spawning g count =>
    rw [roomFor]
    split_ifs
    · exact le_rfl
    · exact Nat.min_le_right ..
    · exact Nat.zero_le _

/-- The queue of every GPU has room for the ports that handlers may still put there. -/
structure Roomy (cfg : Config) (p : Pool) : Prop where
  gpus : p.idleWorkers.length = cfg.totalGpuNum
  room : ∀ (gpu : Nat) (queue : List Int), p.idleWorkers[gpu]? = some queue →
    queue.length + (p.handlers.map (slotOf gpu)).sum ≤ roomFor cfg gpu p.main

theorem getElem?_dequeue {g : Nat} {queue' : List Int}
    (hidle : p.idleWorkers[g]? = some (port :: queue))
    (h : (p.idleWorkers.set g queue)[gpu]? = some queue') :
    ∃ old, p.idleWorkers[gpu]? = some old ∧
      queue'.length + (if g = gpu then 1 else 0) = old.length := by
  rw [List.getElem?_set] at h
  split_ifs at h with heq hlt
  · cases h
    subst heq
    exact ⟨_, hidle, by simp⟩
  · exact ⟨queue', h, by simp [heq]⟩

theorem getElem?_enqueue {g : Nat} {queue' : List Int}
    (h : (p.enqueue g port).idleWorkers[gpu]? = some queue') :
    ∃ old, p.idleWorkers[gpu]? = some old ∧
      queue' = if g = gpu then old ++ [port] else old := by
  rw [enqueue, List.getElem?_modify] at h
  obtain ⟨old, hold, rfl⟩ := Option.map_eq_some_iff.1 h
  exact ⟨old, hold, rfl⟩

theorem fork_idleWorkers (gpu : Nat) (port : Int) (forked : Bool) :
    (p.fork gpu port forked).idleWorkers = p.idleWorkers := by
  cases forked <;> rfl

theorem fork_handlers (gpu : Nat) (port : Int) (forked : Bool) :
    (p.fork gpu port forked).handlers = p.handlers := by
  cases forked <;> rfl

/-- A handler takes a slot with the port, and gives it back. -/
theorem Turn.room (h : Turn cfg p forked progress p' progress') :
    p'.idleWorkers.length = p.idleWorkers.length ∧
    ∀ (gpu : Nat) (queue' : List Int), p'.idleWorkers[gpu]? = some queue' →
      ∃ queue, p.idleWorkers[gpu]? = some queue ∧
        queue'.length + slotOf gpu progress' ≤ queue.length + slotOf gpu progress := by
  cases h with
  | @zero g queue hidle =>
    refine ⟨List.length_set, fun gpu queue' hqueue => ?_⟩
    obtain ⟨old, hold, hlen⟩ := getElem?_dequeue hidle hqueue
    exact ⟨old, hold, by simp only [slotOf]; omega⟩
  | @found g port queue hidle =>
    refine ⟨List.length_set, fun gpu queue' hqueue => ?_⟩
    obtain ⟨old, hold, hlen⟩ := getElem?_dequeue hidle hqueue
    exact ⟨old, hold, by simp only [slotOf]; omega⟩
  | @take g port q htaken =>
    rw [(takePort_eq_some htaken).2]
    exact ⟨rfl, fun gpu queue' hqueue => ⟨queue', hqueue, le_rfl⟩⟩
  | @fork g port =>
    rw [fork_idleWorkers]
    exact ⟨rfl, fun gpu queue' hqueue => ⟨queue', hqueue, le_rfl⟩⟩
  | @enqueue g port =>
    refine ⟨List.length_modify .., fun gpu queue' hqueue => ?_⟩
    obtain ⟨old, hold, rfl⟩ := getElem?_enqueue hqueue
    refine ⟨old, hold, ?_⟩
    simp only [slotOf]
    split_ifs
    · simp
    · simp
  | @takeFirst g port q htaken =>
    rw [(takePort_eq_some htaken).2]
    exact ⟨rfl, fun gpu queue' hqueue => ⟨queue', hqueue, le_rfl⟩⟩
  | @forkFirst g port =>
    rw [fork_idleWorkers]
    exact ⟨rfl, fun gpu queue' hqueue => ⟨queue', hqueue, le_rfl⟩⟩
  | _ => exact ⟨rfl, fun gpu queue' hqueue => ⟨queue', hqueue, by simp [slotOf]⟩⟩

theorem roomy_start (cfg : Config) : Roomy cfg cfg.start := by
  refine ⟨List.length_replicate, fun gpu queue hqueue => ?_⟩
  have hempty := List.eq_of_mem_replicate (List.mem_of_getElem? hqueue)
  rw [hempty]
  exact Nat.zero_le _

theorem Roomy.step (h : Roomy cfg p) (hstep : p.step cfg op = some p') : Roomy cfg p' := by
  cases stepped_of_step hstep with
  | @prespawn forked g count port q hmain hvalid hfew htaken =>
    obtain ⟨rfl, rfl⟩ := takePort_eq_some htaken
    refine ⟨?_, fun gpu queue' hqueue => ?_⟩
    · dsimp only
      rw [fork_idleWorkers]
      exact (List.length_modify ..).trans h.gpus
    · dsimp only at hqueue ⊢
      rw [fork_idleWorkers] at hqueue
      obtain ⟨old, hold, rfl⟩ := getElem?_enqueue hqueue
      have hroom := h.room gpu old hold
      rw [fork_handlers]
      change _ + (p.handlers.map (slotOf gpu)).sum ≤ _
      rw [hmain, roomFor] at hroom
      rw [roomFor]
      -- only the queue of this GPU grows, and so does its room
      rcases Nat.lt_trichotomy gpu g with hlt | rfl | hgt
      · rw [if_pos hlt] at hroom
        rw [if_neg (by omega), if_pos hlt]
        exact hroom
      · rw [if_neg (lt_irrefl _), if_pos rfl] at hroom
        rw [if_pos rfl, if_neg (lt_irrefl _), if_pos rfl, List.length_append,
          List.length_singleton]
        omega
      · rw [if_neg (by omega), if_neg (by omega)] at hroom
        rw [if_neg (by omega), if_neg (by omega), if_neg (by omega)]
        exact hroom
  | @nextGpu forked g count hmain henough =>
    refine ⟨h.gpus, fun gpu queue hqueue => (h.room gpu queue hqueue).trans ?_⟩
    rw [hmain, roomFor, roomFor]
    split_ifs <;> omega
  | @serve forked g count hmain hlast =>
    refine ⟨h.gpus, fun gpu queue hqueue => (h.room gpu queue hqueue).trans ?_⟩
    exact roomFor_le cfg gpu p.main
  | @arrive g hmain hvalid =>
    refine ⟨h.gpus, fun gpu queue hqueue => ?_⟩
    have hroom := h.room gpu queue hqueue
    rw [List.map_append, List.sum_append]
    exact hroom
  | @advance i forked progress q progress' hi hturn =>
    obtain ⟨hlen, hqueues⟩ := hturn.room
    refine ⟨hlen.trans h.gpus, fun gpu queue' hqueue' => ?_⟩
    obtain ⟨queue, hqueue, hle⟩ := hqueues gpu queue' hqueue'
    have hroom := h.room gpu queue hqueue
    have hsum := sum_map_set (slotOf gpu) hi progress'
    dsimp only
    rw [hturn.main]
    omega

/-! ### The workers behind the ports -/

/-- The worker whose port the handler has was started on the GPU. -/
def SpawnedFor (spawned : List (Int × Nat)) : Progress → Prop
  | .replying gpu port => (port, gpu) ∈ spawned
  | .enqueuing gpu port => (port, gpu) ∈ spawned
  | .replyingFirst gpu port => (port, gpu) ∈ spawned
  | _ => True

/-- Every port that is idle, in the hands of a handler that has forked, or replied, is the port of
a worker that was started on the GPU. -/
structure Backed (p : Pool) : Prop where
  idle : ∀ (gpu : Nat) (queue : List Int), p.idleWorkers[gpu]? = some queue →
    ∀ port ∈ queue, (port, gpu) ∈ p.spawned
  held : ∀ progress ∈ p.handlers, SpawnedFor p.spawned progress
  replied : ∀ x ∈ p.replied, x ∈ p.spawned

theorem SpawnedFor.mono {spawned spawned' : List (Int × Nat)} (h : spawned ⊆ spawned')
    (hp : SpawnedFor spawned progress) : SpawnedFor spawned' progress := by
  cases progress with
  | replying gpu port => exact h hp
  | enqueuing gpu port => exact h hp
  | replyingFirst gpu port => exact h hp
  | _ => trivial

theorem backed_start (cfg : Config) : Backed cfg.start := by
  refine ⟨fun gpu queue hqueue port hport => ?_, fun progress hp => ?_, fun x hx => ?_⟩
  · have hempty := List.eq_of_mem_replicate (List.mem_of_getElem? hqueue)
    rw [hempty] at hport
    exact absurd hport List.not_mem_nil
  · exact absurd hp List.not_mem_nil
  · exact absurd hx List.not_mem_nil

theorem Backed.fork (h : Backed p) (gpu : Nat) (port : Int) :
    Backed (p.fork gpu port true) ∧ (port, gpu) ∈ (p.fork gpu port true).spawned := by
  have hmore : p.spawned ⊆ (p.fork gpu port true).spawned := fun x hx => List.mem_append_left _ hx
  refine ⟨⟨fun g queue hqueue x hx => ?_, fun progress hp => ?_, fun x hx => ?_⟩, ?_⟩
  · exact hmore (h.idle g queue hqueue x hx)
  · exact (h.held progress hp).mono hmore
  · exact hmore (h.replied x hx)
  · exact List.mem_append_right _ (List.mem_singleton_self _)

theorem Backed.enqueue (h : Backed p) (hport : (port, gpu) ∈ p.spawned) :
    Backed (p.enqueue gpu port) := by
  refine ⟨fun g queue hqueue x hx => ?_, h.held, h.replied⟩
  obtain ⟨old, hold, rfl⟩ := getElem?_enqueue hqueue
  split_ifs at hx with heq
  · subst heq
    rcases List.mem_append.1 hx with hmem | hmem
    · exact h.idle gpu old hold x hmem
    · rw [List.mem_singleton] at hmem
      rw [hmem]
      exact hport
  · exact h.idle g old hold x hx

theorem Backed.dequeue (h : Backed p) (hidle : p.idleWorkers[gpu]? = some (port :: queue)) :
    Backed { p with idleWorkers := p.idleWorkers.set gpu queue } := by
  refine ⟨fun g queue' hqueue x hx => ?_, h.held, h.replied⟩
  rw [List.getElem?_set] at hqueue
  split_ifs at hqueue with heq hlt
  · cases hqueue
    subst heq
    exact h.idle gpu _ hidle x (List.mem_cons_of_mem _ hx)
  · exact h.idle g queue' hqueue x hx

theorem Backed.reply (h : Backed p) (hport : (port, gpu) ∈ p.spawned) :
    Backed (p.reply gpu port) := by
  refine ⟨h.idle, h.held, fun x hx => ?_⟩
  rcases List.mem_append.1 hx with hmem | hmem
  · exact h.replied x hmem
  · rw [List.mem_singleton] at hmem
    rw [hmem]
    exact hport

theorem Backed.take (h : Backed p) (htaken : p.takePort cfg = some (port, p')) : Backed p' := by
  rw [(takePort_eq_some htaken).2]
  exact ⟨h.idle, h.held, h.replied⟩

theorem Backed.turn (h : Backed p) (hp : SpawnedFor p.spawned progress)
    (hturn : Turn cfg p true progress p' progress') :
    Backed p' ∧ SpawnedFor p'.spawned progress' := by
  cases hturn with
  | zero hidle => exact ⟨h.dequeue hidle, trivial⟩
  | found hidle => exact ⟨h.dequeue hidle, h.idle _ _ hidle _ (List.mem_cons_self ..)⟩
  | reply => exact ⟨h.reply hp, trivial⟩
  | take htaken => exact ⟨h.take htaken, trivial⟩
  | fork => exact h.fork _ _
  | enqueue => exact ⟨h.enqueue hp, trivial⟩
  | takeFirst htaken => exact ⟨h.take htaken, trivial⟩
  | forkFirst => exact h.fork _ _
  | replyFirst => exact ⟨h.reply hp, trivial⟩
  | _ => exact ⟨h, trivial⟩

theorem Backed.step (h : Backed p) (hop : p.Regular cfg op) (hstep : p.step cfg op = some p') :
    Backed p' := by
  cases stepped_of_step hstep with
  | @prespawn forked gpu count port q hmain hvalid hfew htaken =>
    obtain ⟨hforked, hport⟩ := (h.take htaken).fork gpu port
    have hbacked := hforked.enqueue hport
    rw [hop.1]
    exact ⟨hbacked.idle, hbacked.held, hbacked.replied⟩
  | nextGpu => exact ⟨h.idle, h.held, h.replied⟩
  | serve => exact ⟨h.idle, h.held, h.replied⟩
  | @arrive gpu hmain hvalid =>
    refine ⟨h.idle, fun progress hp => ?_, h.replied⟩
    rcases List.mem_append.1 hp with hold | hnew
    · exact h.held progress hold
    · rw [List.mem_singleton] at hnew
      rw [hnew]
      trivial
  | @advance i forked progress q progress' hi hturn =>
    rw [hop.1] at hturn
    obtain ⟨hbacked, hspawned⟩ := h.turn (h.held progress (List.mem_of_getElem? hi)) hturn
    refine ⟨hbacked.idle, fun x hx => ?_, hbacked.replied⟩
    rcases List.mem_or_eq_of_mem_set hx with hold | rfl
    · exact hbacked.held x (hturn.handlers ▸ hold)
    · exact hspawned

/-! ### Runs -/

/-- Ports that have been replied and ports in a queue are different ones among all ports. -/
theorem replied_add_queue_le (h : p.idleWorkers[gpu]? = some queue) :
    (queue : Multiset Int) + (p.replied.map Prod.fst : List Int) ≤ p.ports := by
  have hmem : (queue : Multiset Int) ∈
      p.idleWorkers.map fun queue : List Int => (queue : Multiset Int) :=
    List.mem_map_of_mem (List.mem_of_getElem? h)
  have hle : (queue : Multiset Int) ≤
      (p.idleWorkers.map fun queue : List Int => (queue : Multiset Int)).sum :=
    List.single_le_sum (fun _ _ => Multiset.zero_le _) _ hmem
  exact (add_le_add_left hle _).trans (Multiset.le_add_right _ _)

/-- In every run in which `fork` succeeds and at most 2^32 ids are taken, in every state: no port
has been replied twice; every replied port is the port of a worker that was started on the GPU of
the reply; and the queue of a GPU has at most `worker_pool_size` ports, none of which has been
replied. -/
theorem pool_never_double_assigns {cfg : Config} {p : Pool}
    (h : Reaches (step cfg) (fun p op => p.Regular cfg op) cfg.start p) :
    (p.replied.map Prod.fst).Nodup ∧ (∀ x ∈ p.replied, x ∈ p.spawned) ∧
    ∀ (gpu : Nat) (queue : List Int), p.idleWorkers[gpu]? = some queue →
      queue.length ≤ cfg.workerPoolSize.toNat ∧
      ∀ port ∈ queue, port ∉ p.replied.map Prod.fst := by
  obtain ⟨hdistinct, hroomy, hbacked⟩ := h.invariant
    (I := fun p => Distinct cfg p ∧ Roomy cfg p ∧ Backed p)
    (fun _ _ _ hp hop hstep =>
      ⟨hp.1.step hop hstep, hp.2.1.step hstep, hp.2.2.step hop hstep⟩)
    ⟨distinct_start cfg, roomy_start cfg, backed_start cfg⟩
  refine ⟨?_, hbacked.replied, fun gpu queue hqueue => ⟨?_, fun port hport hreplied => ?_⟩⟩
  · have hle : ((p.replied.map Prod.fst : List Int) : Multiset Int) ≤ p.ports :=
      (Multiset.le_add_left _ _).trans (Multiset.le_add_right _ _)
    exact Multiset.coe_nodup.1 (Multiset.nodup_of_le hle hdistinct.nodup)
  · have hroom := (hroomy.room gpu queue hqueue).trans (roomFor_le cfg gpu p.main)
    omega
  · have hnodup := Multiset.nodup_of_le (replied_add_queue_le hqueue) hdistinct.nodup
    exact Multiset.disjoint_left.1 (Multiset.nodup_add.1 hnodup).2.2
      (Multiset.mem_coe.2 hport) (Multiset.mem_coe.2 hreplied)

/-- One GPU with a pool of one worker, and one application. -/
def onePool : Config := ⟨4000, 1, 1⟩

def oneApplication : List Op :=
  [.prespawn true, .prespawn true, .prespawn true, .arrive 0] ++ List.replicate 6 (.advance 0 true)

instance (cfg : Config) (p : Pool) (op : Op) : Decidable (p.Regular cfg op) := by
  cases op with
  | prespawn forked => exact instDecidableAnd
  | arrive gpu => exact instDecidableTrue
  | advance h forked => exact instDecidableAnd

theorem pool_never_double_assigns_one : ∃ p,
    runGuarded (step onePool) (fun p op => p.Regular onePool op) onePool.start oneApplication =
      some p ∧
    (p.replied, p.idleWorkers) = ([(4001, 0)], [[4002]]) ∧
    (∀ x ∈ p.replied, x ∈ p.spawned) ∧
    ∀ (gpu : Nat) (queue : List Int), p.idleWorkers[gpu]? = some queue →
      queue.length ≤ 1 ∧ ∀ port ∈ queue, port ∉ p.replied.map Prod.fst := by
  have hrun : ∃ p, runGuarded (step onePool) (fun p op => p.Regular onePool op) onePool.start
      oneApplication = some p ∧ (p.replied, p.idleWorkers) = ([(4001, 0)], [[4002]]) :=
    ⟨_, rfl, rfl⟩
  obtain ⟨p, hp, hstate⟩ := hrun
  exact ⟨p, hp, hstate, (pool_never_double_assigns (Reaches.of_runGuarded _ hp)).2⟩

/-! ### What goes wrong -/

/-- Without a pool, every application gets a worker of its own. -/
def noPool : Config := ⟨0, 0, 1⟩

/-- The ports of the first workers. -/
def firstPorts (n : Nat) : List (Int × Nat) := (List.range n).map fun k => (portOf noPool k, 0)

theorem firstPorts_succ (n : Nat) :
    firstPorts (n + 1) = firstPorts n ++ [(portOf noPool n, 0)] := by
  rw [firstPorts, List.range_succ, List.map_append]
  rfl

/-- `n` applications have got their workers, one after the other. -/
def served (n : Nat) : Pool where
  main := .serving
  workerId := BitVec.ofNat 32 (n + 1)
  idleWorkers := [[]]
  handlers := List.replicate n .done
  replied := firstPorts n
  spawned := firstPorts n
  taken := n

/-- The handler of the next application is at `progress`. -/
def serving (n taken : Nat) (spawned : List (Int × Nat)) (progress : Progress) : Pool where
  main := .serving
  workerId := BitVec.ofNat 32 (taken + 1)
  idleWorkers := [[]]
  handlers := List.replicate n .done ++ [progress]
  replied := firstPorts n
  spawned := spawned
  taken := taken

theorem step_last {handlers : List Progress} (hp : p.handlers = handlers ++ [progress])
    (hturn : p.turn cfg forked progress = some (p', progress')) :
    p.step cfg (.advance handlers.length forked) =
      some { p' with handlers := handlers ++ [progress'] } := by
  have hlast : p.handlers[handlers.length]? = some progress := by
    rw [hp, List.getElem?_concat_length]
  have hset : (handlers ++ [progress]).set handlers.length progress' = handlers ++ [progress'] := by
    simp
  rw [step, hlast]
  dsimp only
  rw [hturn, Option.map_some, (turn_cases hturn).handlers, hp, hset]

theorem takePort_serving (n : Nat) : (serving n n (firstPorts n) (.starting 0)).takePort noPool =
    some (portOf noPool n, serving n (n + 1) (firstPorts n) (.starting 0)) := by
  have hlower := BitVec.le_toInt (BitVec.ofNat 32 (n + 1))
  have hupper := BitVec.toInt_lt (x := BitVec.ofNat 32 (n + 1))
  have hnext : BitVec.ofNat 32 (n + 1) + 1 = BitVec.ofNat 32 (n + 1 + 1) :=
    (BitVec.ofNat_add (n + 1) 1).symm
  rw [takePort, if_neg]
  · rw [serving, serving, ← hnext]
    rfl
  · change ¬ (0 + (BitVec.ofNat 32 (n + 1)).toInt < _ ∨ _ ≤ 0 + (BitVec.ofNat 32 (n + 1)).toInt)
    omega

theorem reaches_served_succ (n : Nat) :
    Reaches (step noPool) (fun _ _ => True) (served n) (served (n + 1)) := by
  have harrive : (served n).step noPool (.arrive 0) =
      some (serving n n (firstPorts n) (.dequeuing 0)) := rfl
  have hempty : (serving n n (firstPorts n) (.dequeuing 0)).turn noPool true (.dequeuing 0) =
      some (serving n n (firstPorts n) (.dequeuing 0), .starting 0) := rfl
  have hdequeue : (serving n n (firstPorts n) (.dequeuing 0)).step noPool
      (.advance (List.replicate n Progress.done).length true) =
        some (serving n n (firstPorts n) (.starting 0)) := step_last rfl hempty
  have htake : (serving n n (firstPorts n) (.starting 0)).turn noPool true (.starting 0) =
      some (serving n (n + 1) (firstPorts n) (.starting 0), .forkingFirst 0 (portOf noPool n)) := by
    rw [turn, takePort_serving]
    rfl
  have hstart : (serving n n (firstPorts n) (.starting 0)).step noPool
      (.advance (List.replicate n Progress.done).length true) =
        some (serving n (n + 1) (firstPorts n) (.forkingFirst 0 (portOf noPool n))) :=
    step_last rfl htake
  have hforked : (serving n (n + 1) (firstPorts n) (.forkingFirst 0 (portOf noPool n))).turn noPool
      true (.forkingFirst 0 (portOf noPool n)) =
        some (serving n (n + 1) (firstPorts n ++ [(portOf noPool n, 0)])
          (.forkingFirst 0 (portOf noPool n)), .replyingFirst 0 (portOf noPool n)) := rfl
  have hfork : (serving n (n + 1) (firstPorts n) (.forkingFirst 0 (portOf noPool n))).step noPool
      (.advance (List.replicate n Progress.done).length true) =
        some (serving n (n + 1) (firstPorts n ++ [(portOf noPool n, 0)])
          (.replyingFirst 0 (portOf noPool n))) := step_last rfl hforked
  have hreplied : (serving n (n + 1) (firstPorts n ++ [(portOf noPool n, 0)])
      (.replyingFirst 0 (portOf noPool n))).turn noPool true (.replyingFirst 0 (portOf noPool n)) =
        some ((serving n (n + 1) (firstPorts n ++ [(portOf noPool n, 0)])
          (.replyingFirst 0 (portOf noPool n))).reply 0 (portOf noPool n), .done) := rfl
  have hreply : (serving n (n + 1) (firstPorts n ++ [(portOf noPool n, 0)])
      (.replyingFirst 0 (portOf noPool n))).step noPool
      (.advance (List.replicate n Progress.done).length true) = some (served (n + 1)) := by
    rw [served, List.replicate_succ', firstPorts_succ]
    exact step_last rfl hreplied
  exact .head ⟨_, trivial, harrive⟩ (.head ⟨_, trivial, hdequeue⟩ (.head ⟨_, trivial, hstart⟩
    (.head ⟨_, trivial, hfork⟩ (.single ⟨_, trivial, hreply⟩))))

/-- With enough applications any number of them has been served. -/
theorem reaches_served (n : Nat) :
    Reaches (step noPool) (fun _ _ => True) noPool.start (served n) := by
  induction n with
  | zero => exact Reaches.of_runGuarded [.prespawn true, .prespawn true] rfl
  | succ n ih => exact ih.trans (reaches_served_succ n)

/-- The first application and the one after 2^32 others have the same port. -/
theorem not_nodup_served {n : Nat} (hn : 2 ^ 32 < n) :
    ¬ ((served n).replied.map Prod.fst).Nodup := by
  intro hnodup
  rw [served, firstPorts, List.map_map] at hnodup
  have hsame : portOf noPool 0 = portOf noPool (2 ^ 32) := by
    rw [portOf, portOf, BitVec.ofNat_add]
    simp
  have hzero : 0 = 2 ^ 32 := List.inj_on_of_nodup_map hnodup
    (List.mem_range.2 (by omega)) (List.mem_range.2 hn) hsame
  omega

/-- `fork` fails for the worker of the only application, and the application gets its port. When
`worker_id` has gone through all its values a port is replied for the second time. -/
theorem pool_fails_without_fork_or_ids :
    (∃ p, runGuarded (step noPool) (fun _ _ => True) noPool.start
        [.prespawn true, .prespawn true, .arrive 0, .advance 0 true, .advance 0 true,
          .advance 0 false, .advance 0 true] = some p ∧
      p.replied = [(1, 0)] ∧ p.spawned = []) ∧
    ∃ p, Reaches (step noPool) (fun _ _ => True) noPool.start p ∧
      ¬ (p.replied.map Prod.fst).Nodup := by
  refine ⟨⟨_, rfl, rfl, rfl⟩, ?_⟩
  exact ⟨_, reaches_served (2 ^ 32 + 1), not_nodup_served (Nat.lt_succ_self _)⟩

end Pool

end Ava.Manager.WorkerPool
