import Ava.Manager.Accounts

/-!
# The memory of a GPU is conserved

The memory with which a GPU was registered is at all times the sum of its free memory, the memory of
its servers, and what requests have reserved on it, as long as every reply of a daemon parses. The
sums are of natural numbers; since they never exceed the registered memory, the additions of the
manager do not wrap around, and it subtracts only what it has found to be free. A reply that does not
parse loses what its request has reserved.
-/

set_option autoImplicit false

namespace Ava.Manager

open Ava.Lib

/-! ## Balanced accounts -/

/-- The memory of some servers. -/
def usedBy (workers : List WorkerInfo) : Nat := (workers.map fun w => w.usedMemory.toNat).sum

/-- The memory of some reservations. -/
def reservedBy (sizes : Multiset UInt64) : Nat := (sizes.map UInt64.toNat).sum

@[simp] theorem reservedBy_cons (size : UInt64) (sizes : Multiset UInt64) :
    reservedBy (size ::ₘ sizes) = size.toNat + reservedBy sizes := by
  rw [reservedBy, Multiset.map_cons, Multiset.sum_cons, reservedBy]

@[simp] theorem usedBy_append (workers : List WorkerInfo) (w : WorkerInfo) :
    usedBy (workers ++ [w]) = usedBy workers + w.usedMemory.toNat := by
  rw [usedBy, List.map_append, List.sum_append, List.map_singleton, List.sum_singleton, usedBy]

theorem usedBy_perm {workers others : List WorkerInfo} {w : WorkerInfo}
    (h : workers.Perm (w :: others)) : usedBy workers = w.usedMemory.toNat + usedBy others :=
  ((h.map _).sum_eq).trans List.sum_cons

/-- No memory is lost or invented. -/
def Account.Balanced (a : Account) : Prop :=
  a.free.toNat + usedBy a.busy + reservedBy a.inFlight = a.registered.toNat

theorem toNat_add_of_fits {a b c : UInt64} (h : a.toNat + b.toNat ≤ c.toNat) :
    (a + b).toNat = a.toNat + b.toNat := by
  rw [UInt64.toNat_add]
  exact Nat.mod_eq_of_lt (lt_of_le_of_lt h c.toNat_lt)

theorem Move.balanced {a b : Account} (h : Move a b) (ha : a.Balanced) : b.Balanced := by
  cases h with
  | same => exact ha
  | register inFlight memory =>
    -- A node that has not registered has nothing to reserve.
    have hnone : reservedBy inFlight = 0 := Nat.eq_zero_of_add_eq_zero_left ha
    change memory.toNat + 0 + reservedBy inFlight = memory.toNat
    rw [hnone, Nat.add_zero]
  | reserve _ size henough =>
    have hsub : (a.free - size).toNat = a.free.toNat - size.toNat :=
      UInt64.toNat_sub_of_le _ _ henough
    have hle := UInt64.le_iff_toNat_le.1 henough
    rw [Account.Balanced] at ha ⊢
    simp only [hsub, reservedBy_cons]
    omega
  | revoke _ size others hheld =>
    -- the sum does not wrap around: together with what is free it is at most what was registered
    rw [Account.Balanced, hheld, reservedBy_cons] at ha
    have hadd : (a.free + size).toNat = a.free.toNat + size.toNat :=
      toNat_add_of_fits (c := a.registered) (by omega)
    rw [Account.Balanced]
    simp only [hadd]
    omega
  | settle _ size others address hheld =>
    rw [Account.Balanced, hheld, reservedBy_cons] at ha
    rw [Account.Balanced]
    simp only [usedBy_append]
    omega
  | exit _ w others hbusy =>
    rw [Account.Balanced, usedBy_perm hbusy] at ha
    have hadd : (a.free + w.usedMemory).toNat = a.free.toNat + w.usedMemory.toNat :=
      toNat_add_of_fits (c := a.registered) (by omega)
    rw [Account.Balanced]
    simp only [hadd]
    omega

/-- The exit of an unknown server releases nothing. -/
theorem Stray.balanced {a b : Account} (h : Stray a b) (ha : a.Balanced) : b.Balanced := by
  rw [Stray] at h
  rw [h]
  exact ha

namespace Service

variable {S : Sorter Nat} {s t : Service}

theorem balanced_empty (d k : Nat) : (empty.account d k).Balanced := rfl

theorem balanced_step {op : Op} (hop : op.Parses) (h : s.step S op = some t)
    (hs : ∀ d k, (s.account d k).Balanced) (d k : Nat) : (t.account d k).Balanced := by
  rcases step_moves h d k with hmove | ⟨-, hstray⟩ | ⟨_, _, rfl⟩
  · exact hmove.balanced (hs d k)
  · exact hstray.balanced (hs d k)
  · exact hop.elim

theorem balanced_of_reaches (h : Reaches (step S) (fun _ op => op.Parses) empty s) (d k : Nat) :
    (s.account d k).Balanced :=
  Reaches.invariant (I := fun s => ∀ d k, (s.account d k).Balanced)
    (fun _ _ _ hs hop hstep => balanced_step hop hstep hs) h balanced_empty d k

/-- What is missing after an exception is what the request had reserved. -/
theorem balanced_throws {r : Nat} {reply : List String} {q : AssignRequest}
    (h : s.step S (.throws r reply) = some t) (hq : s.requests[r]? = some q) {d k : Nat}
    (hs : (s.account d k).Balanced) :
    (t.entryOf d k).freeMemory.toNat + usedBy (t.entryOf d k).busyWorkers +
      reservedBy (t.inFlight d k) + reservedBy (q.progress.reservedOn d k) =
        (t.entryOf d k).registered.toNat := by
  obtain ⟨hentry, hflight⟩ := throws_account h hq d k
  have hsum : reservedBy (s.inFlight d k) =
      reservedBy (t.inFlight d k) + reservedBy (q.progress.reservedOn d k) := by
    rw [hflight, reservedBy, Multiset.map_add, Multiset.sum_add, reservedBy, reservedBy]
  rw [hentry, Nat.add_assoc _ (reservedBy _), ← hsum]
  exact hs

/-- In every state that the service reaches, by any interleaving of messages, requests and replies
that parse, the memory of every GPU is accounted for; and a reservation takes memory that is there.
If the next reply does not parse, then exactly what its request has reserved is missing. -/
theorem memory_conserved (S : Sorter Nat) {s : Service}
    (h : Reaches (step S) (fun _ op => op.Parses) empty s) {d : Nat} {daemon : DaemonInfo}
    (hd : s.daemons[d]? = some daemon) :
    (∀ k, (daemon.gpuList.entry k).freeMemory.toNat +
        ((daemon.gpuList.entry k).busyWorkers.map fun w => w.usedMemory.toNat).sum +
        ((s.inFlight d k).map UInt64.toNat).sum = (daemon.gpuList.entry k).registered.toNat) ∧
      (∀ size k g, daemon.gpuList.findEntryAndReserveMemory S size = some (k, g) →
        size.toNat ≤ (daemon.gpuList.entry k).freeMemory.toNat ∧
        (g.entry k).freeMemory.toNat =
          (daemon.gpuList.entry k).freeMemory.toNat - size.toNat) ∧
      ∀ r reply t q, s.step S (.throws r reply) = some t → s.requests[r]? = some q →
        t.daemons[d]? = some daemon ∧
        ∀ k, (daemon.gpuList.entry k).freeMemory.toNat +
          ((daemon.gpuList.entry k).busyWorkers.map fun w => w.usedMemory.toNat).sum +
          ((t.inFlight d k).map UInt64.toNat).sum +
          ((q.progress.reservedOn d k).map UInt64.toNat).sum =
            (daemon.gpuList.entry k).registered.toNat := by
  refine ⟨fun k => ?_, fun size k g hfind => ?_, fun r reply t q hstep hq => ?_⟩
  · have hbalanced := balanced_of_reaches h d k
    rw [account, entryOf, hd] at hbalanced
    exact hbalanced
  · obtain ⟨-, henough, rfl⟩ := GpuList.find_of_some S hfind
    refine ⟨UInt64.le_iff_toNat_le.1 henough, ?_⟩
    rw [GpuList.unlockedSort_entry, GpuList.modify_entry_self]
    exact UInt64.toNat_sub_of_le _ _ henough
  · obtain ⟨-, _, _, _, -, ht⟩ := throws_cases hstep
    have hd' : t.daemons[d]? = some daemon := ht ▸ hd
    refine ⟨hd', fun k => ?_⟩
    have hbalanced := balanced_throws hstep hq (balanced_of_reaches h d k)
    rw [entryOf, hd'] at hbalanced
    exact hbalanced

/-- Two requests at the same time on a node with two GPUs, the exit of the server of the first, and
the exit of a server that is not known. -/
def twoRequests : List Op :=
  [.register ⟨"10.0.0.1", 3333⟩ ["A", "B"] [100, 90], .assign [60, 50], .assign [30],
    .advance 0 [], .advance 0 [], .advance 1 [], .advance 1 [], .advance 0 [], .advance 0 [],
    .advance 0 [⟨"10.0.0.1", 4000⟩], .advance 0 [], .exit ⟨"10.0.0.1", 4000⟩ "A" 0,
    .exit ⟨"10.0.0.1", 5000⟩ "B" 0]

theorem memory_conserved_two_requests : ∃ s,
    runGuarded (step insertionSorter) (fun _ op => op.Parses) empty twoRequests = some s ∧
    ∃ daemon, s.daemons[0]? = some daemon ∧
      ((daemon.gpuList.entry 0).freeMemory, (daemon.gpuList.entry 1).freeMemory) = (100, 10) ∧
      ∀ k, (daemon.gpuList.entry k).freeMemory.toNat +
        ((daemon.gpuList.entry k).busyWorkers.map fun w => w.usedMemory.toNat).sum +
        ((s.inFlight 0 k).map UInt64.toNat).sum = (daemon.gpuList.entry k).registered.toNat :=
  ⟨_, rfl, _, rfl, rfl, (memory_conserved insertionSorter
    (Reaches.of_runGuarded twoRequests rfl) rfl).1⟩

/-- A daemon that numbers the ports of its servers from 0 on replies with port 0. -/
def portZero : List Op :=
  [.register ⟨"10.0.0.1", 3333⟩ ["A"] [100], .assign [60], .advance 0 [], .advance 0 [],
    .advance 0 [], .throws 0 ["10.0.0.1:0"]]

/-- The request is gone, and nobody has the 60 of the GPU. -/
theorem unparsed_reply_loses_memory : ∃ s daemon,
    Reaches (step insertionSorter) (fun _ _ => True) empty s ∧ s.daemons[0]? = some daemon ∧
      (daemon.gpuList.entry 0).registered = 100 ∧ (daemon.gpuList.entry 0).freeMemory = 40 ∧
      (daemon.gpuList.entry 0).busyWorkers = [] ∧ s.inFlight 0 0 = 0 :=
  ⟨_, _, Reaches.of_runGuarded portZero rfl, rfl, rfl, rfl, rfl, rfl⟩

end Service

end Ava.Manager
