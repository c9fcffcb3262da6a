import Ava.Lib.Rows
import Ava.Manager.Service
import Mathlib.Algebra.BigOperators.Group.Multiset.Basic
import Mathlib.Data.Multiset.Basic
import Mathlib.Tactic.Abel

/-!
# The account of a GPU

The memory of a GPU is free, belongs to API servers, or is reserved by requests that are not
finished. `Account` is what the manager knows of one GPU in these terms, and `Move` is what can
happen to it. Every step of the service is a move of every account, an exit of a server that the
account does not have, or the end of a request by an exception (`step_moves`), so that a law of the
accounts has to be proved for the moves only.
-/

set_option autoImplicit false

namespace Ava.Manager

open Ava.Lib
open Function (update)

/-! ## Accounts -/

structure Account where
  free : UInt64
  counter : Int
  busy : List WorkerInfo
  inFlight : Multiset UInt64
  registered : UInt64

/-- What happens to an account. -/
inductive Move : Account → Account → Prop where
  | same (a : Account) : Move a a
  | register (inFlight : Multiset UInt64) (memory : UInt64) :
      Move ⟨0, 0, [], inFlight, 0⟩ ⟨memory, 0, [], inFlight, memory⟩
  | reserve (a : Account) (size : UInt64) (enough : size ≤ a.free) :
      Move a { a with
        free := a.free - size, counter := a.counter + 1, inFlight := size ::ₘ a.inFlight }
  | revoke (a : Account) (size : UInt64) (others : Multiset UInt64)
      (held : a.inFlight = size ::ₘ others) :
      Move a { a with free := a.free + size, counter := a.counter - 1, inFlight := others }
  | settle (a : Account) (size : UInt64) (others : Multiset UInt64) (address : ServerAddress)
      (held : a.inFlight = size ::ₘ others) :
      Move a { a with busy := a.busy ++ [⟨address, size⟩], inFlight := others }
  | exit (a : Account) (w : WorkerInfo) (others : List WorkerInfo)
      (busy : a.busy.Perm (w :: others)) :
      Move a { a with free := a.free + w.usedMemory, counter := a.counter - 1, busy := others }

/-- The exit of a server that the account does not have. -/
def Stray (a b : Account) : Prop := b = { a with counter := a.counter - 1 }

/-- An entry together with what is reserved on it. -/
def GpuListEntry.account (e : GpuListEntry) (inFlight : Multiset UInt64) : Account :=
  ⟨e.freeMemory, e.workerCounter, e.busyWorkers, inFlight, e.registered⟩

/-! ## The exit of a server -/

/-- The entry has a server with this address. -/
def GpuListEntry.Runs (e : GpuListEntry) (address : ServerAddress) : Prop :=
  ∃ w ∈ e.busyWorkers, w.address.getAddress = address.getAddress

/-- A server that the entry has is removed with its memory; otherwise only the counter changes. -/
theorem GpuListEntry.removeBusyWorker_cases (e : GpuListEntry) (address : ServerAddress)
    (pick : Nat) :
    (∃ w ∈ e.busyWorkers, e.removeBusyWorker address pick =
      { e with busyWorkers := e.busyWorkers.erase w }.releaseMemory w.usedMemory) ∨
    (¬ e.Runs address ∧ e.removeBusyWorker address pick = e.releaseMemory 0) := by
  rw [removeBusyWorker, removeWorker]
  cases hhead : ((e.busyWorkers.filter fun w =>
      w.address.getAddress == address.getAddress).rotate pick).head? with
  | some w =>
    have hmem := List.mem_rotate.1 (List.mem_of_mem_head? hhead)
    exact Or.inl ⟨w, (List.mem_filter.1 hmem).1, rfl⟩
  | none =>
    rw [List.head?_eq_none_iff, List.rotate_eq_nil_iff, List.filter_eq_nil_iff] at hhead
    refine Or.inr ⟨?_, rfl⟩
    rintro ⟨w, hw, heq⟩
    exact hhead w hw (beq_iff_eq.2 heq)

theorem GpuListEntry.removeBusyWorker_moves (e : GpuListEntry) (address : ServerAddress)
    (pick : Nat) (inFlight : Multiset UInt64) :
    Move (e.account inFlight) ((e.removeBusyWorker address pick).account inFlight) ∨
      (¬ e.Runs address ∧
        Stray (e.account inFlight) ((e.removeBusyWorker address pick).account inFlight)) := by
  rcases e.removeBusyWorker_cases address pick with ⟨w, hw, heq⟩ | ⟨hnot, heq⟩
  · rw [heq]
    exact Or.inl (.exit _ w _ (List.perm_cons_erase hw))
  · rw [heq]
    refine Or.inr ⟨hnot, ?_⟩
    rw [Stray, account, account, releaseMemory, UInt64.add_zero]

/-! ## Reservations -/

/-- The sizes that are reserved on an entry. -/
def sizesOn (assigned : Reservations) (k : Nat) : Multiset UInt64 := sizesAt assigned k

@[simp] theorem sizesOn_nil (k : Nat) : sizesOn [] k = 0 := rfl

theorem sizesOn_cons (k' : Nat) (size : UInt64) (assigned : Reservations) (k : Nat) :
    sizesOn ((k', size) :: assigned) k =
      if k' = k then size ::ₘ sizesOn assigned k else sizesOn assigned k := by
  by_cases h : k' = k
  · simp [sizesOn, sizesAt, h]
  · simp [sizesOn, sizesAt, h]

theorem sizesOn_append (assigned : Reservations) (k' : Nat) (size : UInt64) (k : Nat) :
    sizesOn (assigned ++ [(k', size)]) k =
      if k' = k then size ::ₘ sizesOn assigned k else sizesOn assigned k := by
  rw [← sizesOn_cons]
  exact Multiset.coe_eq_coe.2 (((List.perm_append_singleton _ _).filter _).map _)

/-- The sizes that a request has reserved on an entry of a node. -/
def Progress.reservedOn (p : Progress) (d k : Nat) : Multiset UInt64 :=
  match p with
  | .looking _ => 0
  | .reserving d' _ assigned => if d' = d then sizesOn assigned k else 0
  | .revoking d' assigned _ => if d' = d then sizesOn assigned k else 0
  | .spawning d' assigned => if d' = d then sizesOn assigned k else 0
  | .adding d' _ _ assigned => if d' = d then sizesOn assigned k else 0
  | .finished _ | .thrown => 0

namespace Service

variable {S : Sorter Nat} {s t : Service}

/-- All sizes that requests have reserved on an entry of a node. -/
def inFlight (s : Service) (d k : Nat) : Multiset UInt64 :=
  (s.requests.map fun q => q.progress.reservedOn d k).sum

/-- The entry of a node that has not registered. -/
def blankEntry : GpuListEntry := ⟨"", 0, [], 0, 0⟩

def entryOf (s : Service) (d k : Nat) : GpuListEntry :=
  match s.daemons[d]? with
  | some daemon => daemon.gpuList.entry k
  | none => blankEntry

/-- The account of an entry. -/
def account (s : Service) (d k : Nat) : Account := (s.entryOf d k).account (s.inFlight d k)

variable {q : AssignRequest} {r : Nat}

theorem inFlight_setProgress (hq : s.requests[r]? = some q) (p : Progress) (d k : Nat) :
    (s.setProgress r p).inFlight d k + q.progress.reservedOn d k =
      s.inFlight d k + p.reservedOn d k :=
  sum_map_modify (fun q : AssignRequest => q.progress.reservedOn d k) _ s.requests r q hq

theorem entryOf_setGpuList (s : Service) {d : Nat} {daemon : DaemonInfo}
    (hd : s.daemons[d]? = some daemon) (g : GpuList) (d' k : Nat) :
    (s.setGpuList d g).entryOf d' k = if d = d' then g.entry k else s.entryOf d' k := by
  rw [entryOf, entryOf, setGpuList, List.getElem?_modify]
  split_ifs with h
  · subst h
    rw [hd]
    rfl
  · cases s.daemons[d']? <;> rfl

/-- A request goes on without a change of what it has reserved. -/
theorem account_setProgress (hq : s.requests[r]? = some q) {p : Progress}
    (hsame : ∀ d k, p.reservedOn d k = q.progress.reservedOn d k) (d k : Nat) :
    (s.setProgress r p).account d k = s.account d k := by
  have hflight := inFlight_setProgress hq p d k
  rw [hsame, add_left_inj] at hflight
  rw [account, account, hflight]
  rfl

/-- A request goes on and changes one entry. -/
theorem account_change {d k : Nat} {daemon : DaemonInfo} (hq : s.requests[r]? = some q)
    (hd : s.daemons[d]? = some daemon) {g : GpuList} {e : GpuListEntry}
    (hg : g.entry = update daemon.gpuList.entry k e) {p : Progress}
    (hothers : ∀ d' k', ¬ (d' = d ∧ k' = k) → p.reservedOn d' k' = q.progress.reservedOn d' k')
    (hmove : ∀ inFlight', inFlight' + q.progress.reservedOn d k =
      s.inFlight d k + p.reservedOn d k →
        Move ((daemon.gpuList.entry k).account (s.inFlight d k)) (e.account inFlight'))
    (d' k' : Nat) :
    Move (s.account d' k') (((s.setGpuList d g).setProgress r p).account d' k') := by
  have hflight := inFlight_setProgress (s := s.setGpuList d g) hq p d' k'
  have hentry : ((s.setGpuList d g).setProgress r p).entryOf d' k' =
      if d = d' then g.entry k' else s.entryOf d' k' := entryOf_setGpuList s hd g d' k'
  rw [account, account, hentry]
  by_cases hd' : d = d'
  · subst hd'
    have hold : s.entryOf d k' = daemon.gpuList.entry k' := by rw [entryOf, hd]
    rw [if_pos rfl, hold, hg]
    by_cases hk : k' = k
    · subst hk
      rw [Function.update_self]
      exact hmove _ hflight
    · rw [hothers d k' (fun h => hk h.2), add_left_inj] at hflight
      rw [Function.update_of_ne hk, hflight]
      exact .same _
  · rw [hothers d' k' (fun h => hd' h.1.symm), add_left_inj] at hflight
    rw [if_neg hd', hflight]
    exact .same _

/-! ## The steps -/

/-- One step of a request with these sizes: what happens to the lists, and where the request is
then. `reply` is the reply of the daemon, which is read where the request waits for it. -/
inductive Turn (S : Sorter Nat) (s : Service) (sizes : List UInt64) (reply : List ServerAddress) :
    Progress → Service → Progress → Prop where
  | noNode {d} (none : s.daemons[d]? = none) : Turn S s sizes reply (.looking d) s (.finished [])
  | dead {d daemon} (node : s.daemons[d]? = some daemon) (dead : daemon.isDead = true) :
      Turn S s sizes reply (.looking d) s (.looking (d + 1))
  | enter {d daemon} (node : s.daemons[d]? = some daemon) :
      Turn S s sizes reply (.looking d) s (.reserving d sizes [])
  | nothing {d} : Turn S s sizes reply (.reserving d [] []) s (.looking (d + 1))
  | placed {d assigned} (some : assigned ≠ []) :
      Turn S s sizes reply (.reserving d [] assigned) s (.spawning d assigned)
  | reserve {d k size rest assigned daemon g} (node : s.daemons[d]? = some daemon)
      (found : daemon.gpuList.findEntryAndReserveMemory S size = some (k, g)) :
      Turn S s sizes reply (.reserving d (size :: rest) assigned) (s.setGpuList d g)
        (.reserving d rest (assigned ++ [(k, size)]))
  | tooLarge {d size rest assigned daemon} (node : s.daemons[d]? = some daemon)
      (nowhere : daemon.gpuList.findEntryAndReserveMemory S size = none) :
      Turn S s sizes reply (.reserving d (size :: rest) assigned) s
        (.revoking d assigned (some (d + 1)))
  | next {d n} : Turn S s sizes reply (.revoking d [] (some n)) s (.looking n)
  | failed {d} : Turn S s sizes reply (.revoking d [] none) s (.finished [])
  | revoke {d k size assigned next daemon} (node : s.daemons[d]? = some daemon) :
      Turn S s sizes reply (.revoking d ((k, size) :: assigned) next)
        (s.setGpuList d (daemon.gpuList.revokeEntryWithMemory S k size))
        (.revoking d assigned next)
  | refused {d assigned} (empty : reply = []) :
      Turn S s sizes reply (.spawning d assigned) s (.revoking d assigned none)
  | spawned {d assigned address more} (replied : reply = address :: more) :
      Turn S s sizes reply (.spawning d assigned) s (.adding d reply address assigned)
  | add {d k size assigned replied address daemon} (node : s.daemons[d]? = some daemon) :
      Turn S s sizes reply (.adding d replied address ((k, size) :: assigned))
        (s.setGpuList d (daemon.gpuList.modify k fun e => e.addBusyWorker address size))
        (.adding d replied address assigned)
  | done {d replied address} :
      Turn S s sizes reply (.adding d replied address []) s (.finished replied)

theorem turn_of_advance {reply : List ServerAddress} (h : s.advance S r reply = some t) :
    ∃ q s' p, s.requests[r]? = some q ∧ Turn S s q.sizes reply q.progress s' p ∧
      t = s'.setProgress r p := by
  rw [advance] at h
  cases hq : s.requests[r]? with
  | none =>
    rw [hq] at h
    cases h
  | some q =>
    rw [hq] at h
    dsimp only at h
    obtain ⟨sizes, progress⟩ := q
    refine ⟨⟨sizes, progress⟩, ?_⟩
    cases progress with
    | looking d =>
      cases hd : s.daemons[d]? with
      | none =>
        simp only [hd, Option.some.injEq] at h
        exact ⟨s, _, rfl, .noNode hd, h.symm⟩
      | some daemon =>
        simp only [hd] at h
        split_ifs at h with hdead
        · cases h
          exact ⟨s, _, rfl, .dead hd hdead, rfl⟩
        · cases h
          exact ⟨s, _, rfl, .enter hd, rfl⟩
    | reserving d rest assigned =>
      cases rest with
      | nil =>
        dsimp only at h
        split_ifs at h with hempty
        · cases h
          rw [List.isEmpty_iff] at hempty
          subst hempty
          exact ⟨s, _, rfl, .nothing, rfl⟩
        · cases h
          rw [List.isEmpty_iff] at hempty
          exact ⟨s, _, rfl, .placed hempty, rfl⟩
      | cons size rest =>
        cases hd : s.daemons[d]? with
        | none => simp only [hd, reduceCtorEq] at h
        | some daemon =>
          simp only [hd] at h
          cases hfind : daemon.gpuList.findEntryAndReserveMemory S size with
          | none =>
            simp only [hfind, Option.some.injEq] at h
            exact ⟨s, _, rfl, .tooLarge hd hfind, h.symm⟩
          | some found =>
            simp only [hfind, Option.some.injEq] at h
            exact ⟨_, _, rfl, .reserve hd hfind, h.symm⟩
    | revoking d assigned next =>
      cases assigned with
      | nil =>
        cases next with
        | none =>
          cases h
          exact ⟨s, _, rfl, .failed, rfl⟩
        | some n =>
          cases h
          exact ⟨s, _, rfl, .next, rfl⟩
      | cons a assigned =>
        cases hd : s.daemons[d]? with
        | none => simp only [hd, reduceCtorEq] at h
        | some daemon =>
          simp only [hd, Option.some.injEq] at h
          exact ⟨_, _, rfl, .revoke hd, h.symm⟩
    | spawning d assigned =>
      cases reply with
      | nil =>
        cases h
        exact ⟨s, _, rfl, .refused rfl, rfl⟩
      | cons address more =>
        cases h
        exact ⟨s, _, rfl, .spawned rfl, rfl⟩
    | adding d replied address assigned =>
      cases assigned with
      | nil =>
        cases h
        exact ⟨s, _, rfl, .done, rfl⟩
      | cons a assigned =>
        cases hd : s.daemons[d]? with
        | none => simp only [hd, reduceCtorEq] at h
        | some daemon =>
          simp only [hd, Option.some.injEq] at h
          exact ⟨_, _, rfl, .add hd, h.symm⟩
    | finished replied => cases h
    | thrown => cases h

/-- What a step of a request does. -/
inductive Advance (S : Sorter Nat) (s : Service) (r : Nat) (q : AssignRequest) :
    Service → Prop where
  | goes (p : Progress) (same : ∀ d k, p.reservedOn d k = q.progress.reservedOn d k) :
      Advance S s r q (s.setProgress r p)
  | reserve {d k size sizes assigned daemon g} (reserving : q.progress =
        .reserving d (size :: sizes) assigned) (node : s.daemons[d]? = some daemon)
      (found : daemon.gpuList.findEntryAndReserveMemory S size = some (k, g)) :
      Advance S s r q ((s.setGpuList d g).setProgress r
        (.reserving d sizes (assigned ++ [(k, size)])))
  | revoke {d k size assigned next daemon} (revoking : q.progress =
        .revoking d ((k, size) :: assigned) next) (node : s.daemons[d]? = some daemon) :
      Advance S s r q ((s.setGpuList d
        (daemon.gpuList.revokeEntryWithMemory S k size)).setProgress r
        (.revoking d assigned next))
  | add {d k size assigned reply address daemon} (adding : q.progress =
        .adding d reply address ((k, size) :: assigned)) (node : s.daemons[d]? = some daemon) :
      Advance S s r q ((s.setGpuList d
        (daemon.gpuList.modify k fun e => e.addBusyWorker address size)).setProgress r
          (.adding d reply address assigned))

theorem advance_cases {reply : List ServerAddress} (hq : s.requests[r]? = some q)
    (h : s.advance S r reply = some t) : Advance S s r q t := by
  obtain ⟨q', s', p, hq', hturn, rfl⟩ := turn_of_advance h
  cases hq.symm.trans hq'
  obtain ⟨sizes, progress⟩ := q
  cases hturn with
  | reserve hd hfind => exact .reserve rfl hd hfind
  | revoke hd => exact .revoke rfl hd
  | add hd => exact .add rfl hd
  -- the other turns reserve nothing and give nothing back
  | _ => exact .goes _ fun _ _ => by simp [Progress.reservedOn]

theorem reservedOn_other {assigned assigned' : Reservations} {d k d' k' : Nat} {size : UInt64}
    (hassigned : ∀ j, sizesOn assigned' j =
      if k = j then size ::ₘ sizesOn assigned j else sizesOn assigned j)
    (hne : ¬ (d' = d ∧ k' = k)) :
    (if d = d' then sizesOn assigned' k' else 0) = if d = d' then sizesOn assigned k' else 0 := by
  split_ifs with hd
  · rw [hassigned, if_neg]
    rintro rfl
    exact hne ⟨hd.symm, rfl⟩
  · rfl

/-- One of the reservations of a request ends. -/
theorem flight_of_cons {flight flight' reserved : Multiset UInt64} {size : UInt64}
    (h : flight' + size ::ₘ reserved = flight + reserved) : flight = size ::ₘ flight' := by
  rw [Multiset.add_cons, ← Multiset.cons_add] at h
  exact (add_left_injective reserved h).symm

/-- Every step of a request is a move of every account. -/
theorem advance_moves (hq : s.requests[r]? = some q) (h : Advance S s r q t) (d k : Nat) :
    Move (s.account d k) (t.account d k) := by
  cases h with
  | goes p hsame =>
    rw [account_setProgress hq hsame]
    exact .same _
  | @reserve d' k' size sizes assigned daemon g hp hd hfind =>
    obtain ⟨-, henough, rfl⟩ := GpuList.find_of_some S hfind
    have hassigned := sizesOn_append assigned k' size
    refine account_change hq hd rfl (fun d k hne => ?_) (fun flight hflight => ?_) d k
    · rw [hp]
      exact reservedOn_other hassigned hne
    · rw [hp] at hflight
      simp only [Progress.reservedOn, if_true, hassigned] at hflight
      rw [flight_of_cons hflight.symm]
      exact .reserve _ size henough
  | @revoke d' k' size assigned next daemon hp hd =>
    have hassigned := sizesOn_cons k' size assigned
    refine account_change hq hd rfl (fun d k hne => ?_) (fun flight hflight => ?_) d k
    · rw [hp]
      exact (reservedOn_other hassigned hne).symm
    · rw [hp] at hflight
      simp only [Progress.reservedOn, if_true, hassigned] at hflight
      exact .revoke _ size flight (flight_of_cons hflight)
  | @add d' k' size assigned reply address daemon hp hd =>
    have hassigned := sizesOn_cons k' size assigned
    refine account_change hq hd rfl (fun d k hne => ?_) (fun flight hflight => ?_) d k
    · rw [hp]
      exact (reservedOn_other hassigned hne).symm
    · rw [hp] at hflight
      simp only [Progress.reservedOn, if_true, hassigned] at hflight
      exact .settle _ size flight address (flight_of_cons hflight)

variable {address : ServerAddress}

theorem register_moves {uuid : List String} {freeMemory : List UInt64}
    (h : s.registerDaemon S address uuid freeMemory = some t) (d k : Nat) :
    Move (s.account d k) (t.account d k) := by
  rw [registerDaemon] at h
  split_ifs at h
  cases h
  -- the new node is the last one; its account was blank before
  rcases Nat.lt_trichotomy d s.daemons.length with hlt | heq | hgt
  · rw [account, account, entryOf, entryOf, List.getElem?_append_left hlt]
    exact .same _
  · rw [account, account, entryOf, entryOf, heq, List.getElem?_concat_length,
      List.getElem?_eq_none le_rfl]
    exact .register _ _
  · rw [account, account, entryOf, entryOf, List.getElem?_append_right hgt.le,
      List.getElem?_eq_none (l := [_]) (Nat.sub_pos_of_lt hgt), List.getElem?_eq_none hgt.le]
    exact .same _

theorem assign_account (s : Service) (gpuMem : List UInt64) (d k : Nat) :
    (s.assignWorker gpuMem).account d k = s.account d k := by
  have hflight : (s.assignWorker gpuMem).inFlight d k = s.inFlight d k := by
    rw [inFlight, assignWorker, List.map_append, List.sum_append, inFlight]
    split_ifs
    · simp [Progress.reservedOn]
    · simp [Progress.reservedOn]
  rw [account, account, hflight]
  rfl

theorem disconnect_account {d' : Nat} (h : s.step S (.disconnect d') = some t) (d k : Nat) :
    t.account d k = s.account d k := by
  cases h
  rw [account, account]
  refine congrArg (fun e => GpuListEntry.account e (s.inFlight d k)) ?_
  rw [entryOf, entryOf, List.getElem?_modify]
  split_ifs
  · cases s.daemons[d]? <;> rfl
  · cases s.daemons[d]? <;> rfl

/-- A notice about a node that is known is about one of its entries. -/
theorem exit_cases {uuid : String} {pick : Nat}
    (h : s.notifyWorkerExit address uuid pick = some t) :
    t = s ∨ ∃ d daemon k, s.findDaemonByIp address.ip = some d ∧ s.daemons[d]? = some daemon ∧
      daemon.gpuList.findEntryByUuid uuid = some k ∧
      t = s.setGpuList d (daemon.gpuList.modify k fun e => e.removeBusyWorker address pick) := by
  rw [notifyWorkerExit] at h
  cases hd : s.findDaemonByIp address.ip with
  | none =>
    rw [hd] at h
    cases h
    exact Or.inl rfl
  | some d =>
    rw [hd] at h
    dsimp only at h
    cases hdaemon : s.daemons[d]? with
    | none =>
      rw [hdaemon] at h
      cases h
    | some daemon =>
      rw [hdaemon] at h
      dsimp only at h
      cases hk : daemon.gpuList.findEntryByUuid uuid with
      | none =>
        rw [hk] at h
        cases h
      | some k =>
        rw [hk] at h
        cases h
        exact Or.inr ⟨d, daemon, k, rfl, hdaemon, hk, rfl⟩

/-- The exit notice names a server that the manager has noted. -/
def KnownExit (s : Service) (address : ServerAddress) (uuid : String) : Prop :=
  ∀ d daemon k, s.findDaemonByIp address.ip = some d → s.daemons[d]? = some daemon →
    daemon.gpuList.findEntryByUuid uuid = some k → (daemon.gpuList.entry k).Runs address

theorem exit_moves {uuid : String} {pick : Nat} (h : s.notifyWorkerExit address uuid pick = some t)
    (d k : Nat) :
    Move (s.account d k) (t.account d k) ∨
      (¬ s.KnownExit address uuid ∧ Stray (s.account d k) (t.account d k)) := by
  rcases exit_cases h with rfl | ⟨d', daemon, k', hip, hd, hk, rfl⟩
  · exact Or.inl (.same _)
  -- only the entry with the uuid changes
  have hentry := entryOf_setGpuList s hd
    (daemon.gpuList.modify k' fun e => e.removeBusyWorker address pick) d k
  have hflight : (s.setGpuList d' (daemon.gpuList.modify k' fun e =>
      e.removeBusyWorker address pick)).inFlight d k = s.inFlight d k := rfl
  rw [account, account, hentry, hflight]
  by_cases hd' : d' = d
  · subst hd'
    have hold : s.entryOf d' k = daemon.gpuList.entry k := by rw [entryOf, hd]
    rw [if_pos rfl, hold]
    by_cases hk' : k = k'
    · subst hk'
      rw [GpuList.modify_entry_self]
      rcases (daemon.gpuList.entry k).removeBusyWorker_moves address pick (s.inFlight d' k) with
        hmove | ⟨hnot, hstray⟩
      · exact Or.inl hmove
      · exact Or.inr ⟨fun hknown => hnot (hknown d' daemon k hip hd hk), hstray⟩
    · rw [GpuList.modify_entry_of_ne _ _ hk']
      exact Or.inl (.same _)
  · rw [if_neg hd']
    exact Or.inl (.same _)

/-- The request that waited for the reply ends, and the lists stay as they are. -/
theorem throws_cases {reply : List String} (h : s.step S (.throws r reply) = some t) :
    parseReply reply = none ∧ ∃ sizes d assigned,
      s.requests[r]? = some ⟨sizes, .spawning d assigned⟩ ∧ t = s.setProgress r .thrown := by
  rw [step] at h
  split_ifs at h with hparsed
  rw [Option.not_isSome_iff_eq_none] at hparsed
  rw [spawnThrows] at h
  split at h
  · rename_i hq
    exact ⟨hparsed, _, _, _, hq, (Option.some.inj h).symm⟩
  · cases h

/-- The sizes that the request had reserved are not accounted for any more. -/
theorem throws_account {reply : List String} (h : s.step S (.throws r reply) = some t)
    (hq : s.requests[r]? = some q) (d k : Nat) :
    t.entryOf d k = s.entryOf d k ∧
      s.inFlight d k = t.inFlight d k + q.progress.reservedOn d k := by
  obtain ⟨-, sizes, d', assigned, -, rfl⟩ := throws_cases h
  refine ⟨rfl, ?_⟩
  rw [inFlight_setProgress hq .thrown d k]
  exact (add_zero _).symm

/-- Every step is a move of every account, the exit of a server that is not known, or the end of a
request by an exception. -/
theorem step_moves {op : Op} (h : s.step S op = some t) (d k : Nat) :
    Move (s.account d k) (t.account d k) ∨
      (∃ address uuid pick, op = .exit address uuid pick ∧ ¬ s.KnownExit address uuid) ∧
        Stray (s.account d k) (t.account d k) ∨
      ∃ r reply, op = .throws r reply := by
  cases op with
  | register address uuid freeMemory => exact Or.inl (register_moves h d k)
  | disconnect d' =>
    rw [disconnect_account h]
    exact Or.inl (.same _)
  | assign gpuMem =>
    cases h
    rw [assign_account]
    exact Or.inl (.same _)
  | advance r reply =>
    cases hq : s.requests[r]? with
    | none =>
      rw [step, Service.advance, hq] at h
      cases h
    | some q => exact Or.inl (advance_moves hq (advance_cases hq h) d k)
  | throws r reply => exact Or.inr (Or.inr ⟨r, reply, rfl⟩)
  | exit address uuid pick =>
    rcases exit_moves h d k with hmove | ⟨hunknown, hstray⟩
    · exact Or.inl hmove
    · exact Or.inr (Or.inl ⟨⟨address, uuid, pick, rfl, hunknown⟩, hstray⟩)

end Service

end Ava.Manager
