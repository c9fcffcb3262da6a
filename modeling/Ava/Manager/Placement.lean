import Ava.Manager.Accounts

/-!
# Placement and the order of the list

The policy of the manager is that a request gets a GPU with the fewest running servers, and of these
one with the most free memory. `FindEntryAndReserveMemory` takes the first entry that has enough
memory, which follows the policy as long as the list is sorted and the counters are right. Every
change of the list sorts it again, except the exit of a server: `RemoveBusyWorker` changes the
counter and the memory of an entry where it stands, and takes one from the counter for any notice,
of a known server or not.
-/

set_option autoImplicit false

namespace Ava.Manager

open Ava.Lib

/-! ## Counted accounts -/

/-- The counter is the number of servers, with those that are being started. -/
def Account.Counted (a : Account) : Prop := a.counter = a.busy.length + a.inFlight.card

/-- By how much the counter is below this number. -/
def Account.deficit (a : Account) : Int := a.busy.length + a.inFlight.card - a.counter

theorem Account.counted_iff_deficit (a : Account) : a.Counted ↔ a.deficit = 0 := by
  rw [Counted, deficit]
  omega

variable {a b : Account}

theorem Move.deficit (h : Move a b) : b.deficit = a.deficit := by
  cases h with
  | same => rfl
  | register inFlight memory => rfl
  | reserve _ size _ =>
    simp only [Account.deficit, Multiset.card_cons, Nat.cast_add, Nat.cast_one]
    omega
  | revoke _ size others hheld =>
    simp only [Account.deficit, hheld, Multiset.card_cons, Nat.cast_add, Nat.cast_one]
    omega
  | settle _ size others address hheld =>
    simp only [Account.deficit, hheld, Multiset.card_cons, List.length_append,
      List.length_singleton, Nat.cast_add, Nat.cast_one]
    omega
  | exit _ w others hbusy =>
    simp only [Account.deficit, hbusy.length_eq, List.length_cons, Nat.cast_add, Nat.cast_one]
    omega

/-- The exit of an unknown server is counted, but no server is gone. -/
theorem Stray.deficit (h : Stray a b) : b.deficit = a.deficit + 1 := by
  rw [Stray] at h
  rw [h, Account.deficit, Account.deficit]
  dsimp only
  omega

theorem Move.counted (h : Move a b) (ha : a.Counted) : b.Counted := by
  rw [Account.counted_iff_deficit] at ha ⊢
  rw [h.deficit, ha]

/-! ## An entry that moves forward -/

namespace GpuList

/-- The GPUs ahead of an entry still come first when it has changed: they have fewer servers, or as
many and no less memory. -/
def StaysBehind (g : GpuList) (k : Nat) (e : GpuListEntry) : Prop :=
  ∀ k', [k', k].Sublist g.gpuList → (g.entry k').workerCounter < e.workerCounter ∨
    ((g.entry k').workerCounter = e.workerCounter ∧ e.freeMemory ≤ (g.entry k').freeMemory)

variable {g : GpuList} {k : Nat}

/-- Nothing is ahead of the first. -/
theorem staysBehind_first {rest : List Nat} (h : g.gpuList = k :: rest) (hk : k ∉ rest)
    (e : GpuListEntry) : g.StaysBehind k e := by
  intro k' hahead
  rw [h] at hahead
  exact absurd (List.singleton_sublist.1 hahead.tail) hk

/-- A list stays sorted when the counter of an entry decreases and the entry stays behind those that
are ahead of it. -/
theorem Sorted.modify (h : g.Sorted) {f : GpuListEntry → GpuListEntry}
    (hless : (f (g.entry k)).workerCounter < (g.entry k).workerCounter)
    (hbehind : g.StaysBehind k (f (g.entry k))) : (g.modify k f).Sorted := by
  rw [Sorted, InOrder, List.pairwise_iff_forall_sublist] at h ⊢
  intro a b hab
  have hold := h hab
  rw [before_eq_false_iff] at hold ⊢
  by_cases hb : b = k
  · subst hb
    by_cases ha : a = b
    · subst ha
      exact Or.inr ⟨rfl, UInt64.le_refl _⟩
    · rw [modify_entry_self, modify_entry_of_ne g f ha]
      rcases hbehind a hab with hlt | ⟨heq, hle⟩
      · exact Or.inl hlt
      · exact Or.inr ⟨heq.symm, hle⟩
  · rw [modify_entry_of_ne g f hb]
    by_cases ha : a = k
    · -- The entry has moved away from those behind it.
      subst ha
      rw [modify_entry_self]
      rcases hold with hlt | ⟨heq, -⟩
      · exact Or.inl (hless.trans hlt)
      · exact Or.inl (heq ▸ hless)
    · rw [modify_entry_of_ne g f ha]
      exact hold

/-- In a sorted list the entry that is found is a best one. -/
theorem Sorted.find_best {S : Sorter Nat} {g' : GpuList} (h : g.Sorted) {request : UInt64}
    (hfind : g.findEntryAndReserveMemory S request = some (k, g')) {k' : Nat}
    (hmem : k' ∈ g.gpuList) (henough : request ≤ (g.entry k').freeMemory) :
    (g.entry k).workerCounter < (g.entry k').workerCounter ∨
      ((g.entry k').workerCounter = (g.entry k).workerCounter ∧
        (g.entry k').freeMemory ≤ (g.entry k).freeMemory) := by
  obtain ⟨first, hfirst, heq⟩ := Option.map_eq_some_iff.1 hfind
  cases heq
  exact (g.before_eq_false_iff k' k).1
    (InOrder.find?_best g.strictWeak_before h hfirst k' hmem (decide_eq_true henough))

end GpuList

/-! ## The service -/

namespace Service

variable {S : Sorter Nat} {s t : Service}

/-- The API servers that run on a GPU, with those that are being started: one for every amount of
memory that a server has there. -/
def runningServers (s : Service) (d k : Nat) : Nat :=
  (s.entryOf d k).busyWorkers.length + (s.inFlight d k).card

/-- An exit notice, or a reply that does not parse. -/
def Op.disturbs : Op → Bool
  | .exit .. | .throws .. => true
  | _ => false

/-- A notice of an exit is about a server that the manager knows, and the GPU keeps its place; and
the replies of the daemons parse. -/
def OrderlyExit (s : Service) : Op → Prop
  | .exit address uuid pick => s.KnownExit address uuid ∧
      ∀ d daemon k, s.findDaemonByIp address.ip = some d → s.daemons[d]? = some daemon →
        daemon.gpuList.findEntryByUuid uuid = some k →
        daemon.gpuList.StaysBehind k ((daemon.gpuList.entry k).removeBusyWorker address pick)
  | .throws _ _ => False
  | _ => True

variable {op : Op}

theorem orderlyExit_of_disturbs (h : op.disturbs = false) : s.OrderlyExit op := by
  cases op with
  | exit => cases h
  | throws => cases h
  | _ => trivial

theorem counted_step (hop : s.OrderlyExit op) (h : s.step S op = some t)
    (hs : ∀ d k, (s.account d k).Counted) (d k : Nat) : (t.account d k).Counted := by
  rcases step_moves h d k with hmove | ⟨⟨address, uuid, pick, rfl, hunknown⟩, -⟩ | ⟨_, _, rfl⟩
  · exact hmove.counted (hs d k)
  · exact absurd hop.1 hunknown
  · exact hop.elim

/-- All lists are sorted. -/
def AllSorted (s : Service) : Prop :=
  ∀ (d : Nat) (daemon : DaemonInfo), s.daemons[d]? = some daemon → daemon.gpuList.Sorted

theorem AllSorted.setGpuList (hs : s.AllSorted) {d : Nat} {g : GpuList} (hg : g.Sorted) :
    (s.setGpuList d g).AllSorted := by
  intro d' daemon hd
  rw [Service.setGpuList, List.getElem?_modify] at hd
  obtain ⟨old, hold, rfl⟩ := Option.map_eq_some_iff.1 hd
  split_ifs
  · exact hg
  · exact hs d' old hold

theorem AllSorted.advance {r : Nat} {q : AssignRequest} (hs : s.AllSorted)
    (h : Advance S s r q t) : t.AllSorted := by
  cases h with
  | goes p _ => exact hs
  | reserve hp hd hfind =>
    obtain ⟨-, -, rfl⟩ := GpuList.find_of_some S hfind
    exact hs.setGpuList (GpuList.sorted_unlockedSort S _)
  | revoke hp hd => exact hs.setGpuList (GpuList.sorted_unlockedSort S _)
  | @add d k size assigned reply address daemon hp hd =>
    -- A server is noted without a change of what the order depends on.
    exact hs.setGpuList ((hs d daemon hd).of_same rfl
      (GpuList.modify_keeps _ GpuListEntry.workerCounter rfl)
      (GpuList.modify_keeps _ GpuListEntry.freeMemory rfl))

theorem sorted_step (hop : s.OrderlyExit op) (h : s.step S op = some t) (hs : s.AllSorted) :
    t.AllSorted := by
  cases op with
  | register address uuid freeMemory =>
    rw [step, registerDaemon] at h
    split_ifs at h
    cases h
    intro d daemon hd
    rcases List.mem_append.1 (List.mem_of_getElem? hd) with hold | hnew
    · obtain ⟨d', hd'⟩ := List.mem_iff_getElem?.1 hold
      exact hs d' daemon hd'
    · rw [List.mem_singleton] at hnew
      rw [hnew]
      exact GpuList.sorted_unlockedSort S _
  | disconnect d' =>
    cases h
    intro d daemon hd
    rw [List.getElem?_modify] at hd
    obtain ⟨old, hold, rfl⟩ := Option.map_eq_some_iff.1 hd
    split_ifs
    · exact hs d old hold
    · exact hs d old hold
  | assign gpuMem =>
    cases h
    exact hs
  | advance r reply =>
    cases hq : s.requests[r]? with
    | none =>
      rw [step, Service.advance, hq] at h
      cases h
    | some q => exact hs.advance (advance_cases hq h)
  | throws r reply => exact hop.elim
  | exit address uuid pick =>
    rcases exit_cases h with rfl | ⟨d, daemon, k, hip, hd, hk, rfl⟩
    · exact hs
    · exact hs.setGpuList ((hs d daemon hd).modify (Int.sub_one_lt_of_le le_rfl)
        (hop.2 d daemon k hip hd hk))

theorem AllSorted.of_reaches (h : Reaches (step S) OrderlyExit empty s) : s.AllSorted :=
  Reaches.invariant (fun _ _ _ hs hop hstep => sorted_step hop hstep hs) h
    fun _ _ hd => nomatch hd

theorem counted_of_reaches (h : Reaches (step S) OrderlyExit empty s) (d k : Nat) :
    (s.account d k).Counted :=
  Reaches.invariant (I := fun s => ∀ d k, (s.account d k).Counted)
    (fun _ _ _ hs hop hstep => counted_step hop hstep hs) h (fun _ _ => rfl) d k

/-- As long as every exit is of a known server whose GPU keeps its place in the list and every reply
parses, a request finds a GPU whenever one has enough memory, and of these one with the fewest
running servers and, where there are several, with the most free memory. -/
theorem placement_follows_policy (S : Sorter Nat) {s : Service}
    (h : Reaches (step S) OrderlyExit empty s) {d : Nat} {daemon : DaemonInfo}
    (hd : s.daemons[d]? = some daemon) (request : UInt64) :
    (daemon.gpuList.findEntryAndReserveMemory S request = none ↔
      ∀ k ∈ daemon.gpuList.gpuList, (daemon.gpuList.entry k).freeMemory < request) ∧
    ∀ k g, daemon.gpuList.findEntryAndReserveMemory S request = some (k, g) →
      k ∈ daemon.gpuList.gpuList ∧ request ≤ (daemon.gpuList.entry k).freeMemory ∧
      ∀ k' ∈ daemon.gpuList.gpuList, request ≤ (daemon.gpuList.entry k').freeMemory →
        s.runningServers d k < s.runningServers d k' ∨
          (s.runningServers d k' = s.runningServers d k ∧
            (daemon.gpuList.entry k').freeMemory ≤ (daemon.gpuList.entry k).freeMemory) := by
  refine ⟨GpuList.find_eq_none_iff S _ request, fun k g hfind => ?_⟩
  obtain ⟨hmem, henough, -⟩ := GpuList.find_of_some S hfind
  refine ⟨hmem, henough, fun k' hmem' henough' => ?_⟩
  have hcounter : ∀ j, (daemon.gpuList.entry j).workerCounter = s.runningServers d j := by
    intro j
    have hcounted := counted_of_reaches h d j
    rw [runningServers, Nat.cast_add]
    rw [account, entryOf, hd] at hcounted
    rw [entryOf, hd]
    exact hcounted
  -- the order is by the counters, and these count the servers
  have hbest := (AllSorted.of_reaches h d daemon hd).find_best hfind hmem' henough'
  rw [hcounter, hcounter, Int.ofNat_lt, Int.ofNat_inj] at hbest
  exact hbest

/-- One request from its beginning to its end. -/
def wholeRequest (r : Nat) (address : ServerAddress) : List Op :=
  List.replicate 6 (.advance r [address])

/-- A node with two GPUs gets two requests; the first is placed on `A`, the second on `B`. -/
def bothBusy : List Op :=
  [.register ⟨"10.0.0.1", 3333⟩ ["A", "B"] [100, 90], .assign [10], .assign [10]] ++
    wholeRequest 0 ⟨"10.0.0.1", 4000⟩ ++ wholeRequest 1 ⟨"10.0.0.1", 4001⟩

/-- When the server on `A` has ended, `A` stays the first of the list. -/
theorem placement_follows_policy_first : ∃ s daemon,
    runGuarded (step insertionSorter) (fun _ _ => True) empty
      (bothBusy ++ [.exit ⟨"10.0.0.1", 4000⟩ "A" 0]) = some s ∧
    s.daemons[0]? = some daemon ∧
    ∀ k g, daemon.gpuList.findEntryAndReserveMemory insertionSorter 10 = some (k, g) →
      k ∈ daemon.gpuList.gpuList ∧ 10 ≤ (daemon.gpuList.entry k).freeMemory ∧
      ∀ k' ∈ daemon.gpuList.gpuList, 10 ≤ (daemon.gpuList.entry k').freeMemory →
        s.runningServers 0 k < s.runningServers 0 k' ∨
          (s.runningServers 0 k' = s.runningServers 0 k ∧
            (daemon.gpuList.entry k').freeMemory ≤ (daemon.gpuList.entry k).freeMemory) := by
  have hbusy : ∃ s, runGuarded (step insertionSorter) (fun _ op => op.disturbs = false) empty
      bothBusy = some s ∧ s.OrderlyExit (.exit ⟨"10.0.0.1", 4000⟩ "A" 0) := by
    refine ⟨_, rfl, fun d daemon k hip hd hk => ?_, fun d daemon k hip hd hk => ?_⟩
    · cases hip
      cases hd
      cases hk
      exact ⟨_, List.mem_cons_self, rfl⟩
    · cases hip
      cases hd
      cases hk
      exact GpuList.staysBehind_first (show _ = [0, 1] from rfl) (by decide) _
  obtain ⟨s, hs, hexit⟩ := hbusy
  have hreaches : Reaches (step insertionSorter) OrderlyExit empty s :=
    Reaches.mono (fun _ _ => orderlyExit_of_disturbs) (Reaches.of_runGuarded bothBusy hs)
  cases hs
  exact ⟨_, _, rfl, rfl,
    (placement_follows_policy insertionSorter (hreaches.tail ⟨_, hexit, rfl⟩) rfl 10).2⟩

/-- When the server on `B` has ended, `B` has no server and as much memory as `A`, but `A` with its
server is found. -/
theorem exit_leaves_list_unsorted : ∃ s daemon g,
    runGuarded (step insertionSorter) (fun _ _ => True) empty
      (bothBusy ++ [.exit ⟨"10.0.0.1", 4001⟩ "B" 0]) = some s ∧
    s.daemons[0]? = some daemon ∧
    daemon.gpuList.findEntryAndReserveMemory insertionSorter 10 = some (0, g) ∧
    daemon.gpuList.gpuList = [0, 1] ∧
    (s.runningServers 0 0, (daemon.gpuList.entry 0).freeMemory) = (1, 90) ∧
    (s.runningServers 0 1, (daemon.gpuList.entry 1).freeMemory) = (0, 90) :=
  ⟨_, _, _, rfl, rfl, rfl, rfl, rfl, rfl⟩

end Service

end Ava.Manager
