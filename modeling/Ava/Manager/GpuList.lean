import Ava.Lib.StdSort
import Mathlib.Data.List.Perm.Basic
import Mathlib.Logic.Function.Basic

/-!
# The GPUs of a node

The manager keeps for every node a list of its GPUs (`worker/katana/manager.h`). An entry has the
free memory of the GPU, the API servers that run on it with the memory that each of them has been
given, and a counter. The list is meant to be sorted by the counter, and by free memory where the
counters are equal. `FindEntryAndReserveMemory` takes the first entry with enough memory.

The list has shared pointers to entries; here the entries are numbered and the list has the numbers.
`registered` is the memory an entry had at the beginning.
-/

set_option autoImplicit false

namespace Ava.Manager

open Ava.Lib
open Function (update)

structure ServerAddress where
  ip : String
  port : Int
deriving DecidableEq

/-- `ServerAddress::GetAddress`. -/
def ServerAddress.getAddress (a : ServerAddress) : String := a.ip ++ ":" ++ toString a.port

structure WorkerInfo where
  address : ServerAddress
  usedMemory : UInt64
deriving DecidableEq

/-- `WorkerSet::Remove`: the memory of the worker and the other workers. The set is ordered by the
addresses of its elements on the heap; of several workers with the same server address it removes
the first in that order, which is `pick`. -/
def removeWorker (workers : List WorkerInfo) (address : ServerAddress) (pick : Nat) :
    UInt64 × List WorkerInfo :=
  match ((workers.filter fun w =>
      w.address.getAddress == address.getAddress).rotate pick).head? with
  | none => (0, workers)
  | some w => (w.usedMemory, workers.erase w)

structure GpuListEntry where
  uuid : String
  freeMemory : UInt64
  busyWorkers : List WorkerInfo
  workerCounter : Int
  registered : UInt64
deriving DecidableEq

namespace GpuListEntry

def reserveMemory (e : GpuListEntry) (size : UInt64) : GpuListEntry :=
  { e with freeMemory := e.freeMemory - size, workerCounter := e.workerCounter + 1 }

def releaseMemory (e : GpuListEntry) (size : UInt64) : GpuListEntry :=
  { e with freeMemory := e.freeMemory + size, workerCounter := e.workerCounter - 1 }

def addBusyWorker (e : GpuListEntry) (address : ServerAddress) (usedMemory : UInt64) :
    GpuListEntry :=
  { e with busyWorkers := e.busyWorkers ++ [⟨address, usedMemory⟩] }

def removeBusyWorker (e : GpuListEntry) (address : ServerAddress) (pick : Nat) : GpuListEntry :=
  let removed := removeWorker e.busyWorkers address pick
  -- also without a worker of that address the counter is decremented
  { e with busyWorkers := removed.2 }.releaseMemory removed.1

end GpuListEntry

/-- The entries and the order in which the list has them. -/
structure GpuList where
  entry : Nat → GpuListEntry
  gpuList : List Nat

namespace GpuList

variable (S : Sorter Nat)

/-- The comparison of `UnlockedSort`. -/
def before (g : GpuList) (a b : Nat) : Bool :=
  if (g.entry a).workerCounter = (g.entry b).workerCounter then
    (g.entry b).freeMemory < (g.entry a).freeMemory
  else (g.entry a).workerCounter < (g.entry b).workerCounter

def unlockedSort (g : GpuList) : GpuList := { g with gpuList := S.sort g.before g.gpuList }

/-- An entry changes, through its pointer. -/
def modify (g : GpuList) (k : Nat) (f : GpuListEntry → GpuListEntry) : GpuList :=
  { g with entry := update g.entry k (f (g.entry k)) }

/-- `AddEntries`, for the first entries of a list. -/
def addEntries (entry : Nat → GpuListEntry) (count : Nat) : GpuList :=
  unlockedSort S ⟨entry, List.range count⟩

/-- `FindEntryAndReserveMemory`: the entry and the list. -/
def findEntryAndReserveMemory (g : GpuList) (request : UInt64) : Option (Nat × GpuList) :=
  (g.gpuList.find? fun k => request ≤ (g.entry k).freeMemory).map fun k =>
    (k, (g.modify k fun e => e.reserveMemory request).unlockedSort S)

/-- `RevokeEntryWithMemory`. -/
def revokeEntryWithMemory (g : GpuList) (k : Nat) (request : UInt64) : GpuList :=
  (g.modify k fun e => e.releaseMemory request).unlockedSort S

def findEntryByUuid (g : GpuList) (uuid : String) : Option Nat :=
  g.gpuList.find? fun k => (g.entry k).uuid == uuid

/-! ## The comparison -/

theorem before_eq_true_iff (g : GpuList) (a b : Nat) :
    g.before a b = true ↔ (g.entry a).workerCounter < (g.entry b).workerCounter ∨
      ((g.entry a).workerCounter = (g.entry b).workerCounter ∧
        (g.entry b).freeMemory < (g.entry a).freeMemory) := by
  rw [before]
  split_ifs with heq
  · simp [heq]
  · simp [heq]

theorem before_eq_false_iff (g : GpuList) (a b : Nat) :
    g.before a b = false ↔ (g.entry b).workerCounter < (g.entry a).workerCounter ∨
      ((g.entry a).workerCounter = (g.entry b).workerCounter ∧
        (g.entry a).freeMemory ≤ (g.entry b).freeMemory) := by
  rw [before]
  split_ifs with heq
  · simp [heq]
  · simp only [decide_eq_false_iff_not, not_lt, heq, false_and, or_false]
    omega

theorem strictWeak_before (g : GpuList) : StrictWeak g.before := by
  refine ⟨fun a b h => ?_, fun a b c hab hbc => ?_⟩
  · rw [before_eq_true_iff] at h
    rw [before_eq_false_iff]
    rcases h with hlt | ⟨heq, hlt⟩
    · exact Or.inl hlt
    · exact Or.inr ⟨heq.symm, UInt64.le_of_lt hlt⟩
  · rw [before_eq_false_iff] at hab hbc ⊢
    rcases hab with hab | ⟨hab, hab'⟩
    · rcases hbc with hbc | ⟨hbc, -⟩
      · exact Or.inl (hbc.trans hab)
      · exact Or.inl (hbc ▸ hab)
    · rcases hbc with hbc | ⟨hbc, hbc'⟩
      · exact Or.inl (hab ▸ hbc)
      · exact Or.inr ⟨hab.trans hbc, UInt64.le_trans hab' hbc'⟩

/-- The list is sorted. -/
def Sorted (g : GpuList) : Prop := InOrder g.before g.gpuList

theorem sorted_unlockedSort (g : GpuList) : (g.unlockedSort S).Sorted :=
  S.ordered g.before g.strictWeak_before g.gpuList

theorem perm_unlockedSort (g : GpuList) : (g.unlockedSort S).gpuList.Perm g.gpuList :=
  S.perm g.before g.strictWeak_before g.gpuList

/-- Sortedness is about the counters and the free memory. -/
theorem Sorted.of_same {g h : GpuList} (hg : g.Sorted) (hlist : h.gpuList = g.gpuList)
    (hcounter : ∀ k, (h.entry k).workerCounter = (g.entry k).workerCounter)
    (hfree : ∀ k, (h.entry k).freeMemory = (g.entry k).freeMemory) : h.Sorted := by
  rw [Sorted, hlist]
  refine hg.congr fun a b => ?_
  rw [before, before, hcounter, hcounter, hfree, hfree]

/-! ## What the operations do -/

@[simp] theorem unlockedSort_entry (g : GpuList) : (g.unlockedSort S).entry = g.entry := rfl

@[simp] theorem modify_entry_self (g : GpuList) (k : Nat) (f : GpuListEntry → GpuListEntry) :
    (g.modify k f).entry k = f (g.entry k) :=
  Function.update_self ..

theorem modify_entry_of_ne (g : GpuList) {k k' : Nat} (f : GpuListEntry → GpuListEntry)
    (h : k' ≠ k) : (g.modify k f).entry k' = g.entry k' :=
  Function.update_of_ne h ..

/-- What a change of one entry keeps is the same for all entries. -/
theorem modify_keeps {α : Type} (g : GpuList) {k : Nat} {f : GpuListEntry → GpuListEntry}
    (view : GpuListEntry → α) (h : view (f (g.entry k)) = view (g.entry k)) (j : Nat) :
    view ((g.modify k f).entry j) = view (g.entry j) := by
  by_cases hj : j = k
  · subst hj
    rw [modify_entry_self, h]
  · rw [modify_entry_of_ne g f hj]

theorem find_of_some {g g' : GpuList} {request : UInt64} {k : Nat}
    (h : g.findEntryAndReserveMemory S request = some (k, g')) :
    k ∈ g.gpuList ∧ request ≤ (g.entry k).freeMemory ∧
      g' = (g.modify k fun e => e.reserveMemory request).unlockedSort S := by
  obtain ⟨k', hfind, heq⟩ := Option.map_eq_some_iff.1 h
  cases heq
  refine ⟨List.mem_of_find?_eq_some hfind, ?_, rfl⟩
  simpa using List.find?_some hfind

theorem find_eq_none_iff (g : GpuList) (request : UInt64) :
    g.findEntryAndReserveMemory S request = none ↔
      ∀ k ∈ g.gpuList, (g.entry k).freeMemory < request := by
  rw [findEntryAndReserveMemory, Option.map_eq_none_iff, List.find?_eq_none]
  simp

end GpuList

end Ava.Manager
