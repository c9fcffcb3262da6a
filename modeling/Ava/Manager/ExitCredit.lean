import Ava.Manager.Cluster

/-!
# The node of an exit notice

The manager finds the node of an exit notice by the IP of the server: `FindDaemonByIp` takes the
first registration with the IP. `RegisterDaemon` appends a registration and does not look whether
there is one with the IP already, as there is when a daemon has been restarted. So the notice of a
server is credited to the node that runs it exactly if no earlier registration has the IP.
-/

set_option autoImplicit false

namespace Ava.Manager

open Ava.Lib

/-- The loop goes through all uuids that are on the node. -/
theorem removeFromAll_of_known (address : ServerAddress) (pick : Nat → Nat) :
    ∀ {uuid : List String} {g : GpuList},
      (∀ u ∈ uuid, ∃ k ∈ g.gpuList, (g.entry k).uuid = u) →
      ∃ g', removeFromAll address pick uuid g = some g'
  | [], g, _ => ⟨g, rfl⟩
  | u :: rest, g, h => by
    rw [removeFromAll]
    cases hk : g.findEntryByUuid u with
    | none =>
      obtain ⟨k, hmem, heq⟩ := h u (List.mem_cons_self ..)
      exact absurd heq ((g.findEntryByUuid_eq_none_iff u).1 hk k hmem)
    | some k =>
      refine removeFromAll_of_known address pick fun u' hu' => ?_
      obtain ⟨k', hmem, heq⟩ := h u' (List.mem_cons_of_mem _ hu')
      refine ⟨k', hmem, Eq.trans ?_ heq⟩
      exact g.modify_keeps GpuListEntry.uuid (GpuListEntry.removeBusyWorker_uuid ..) k'

namespace Service

variable {s : Service}

/-- The first node with an IP is the one that is found. -/
theorem findDaemonByIp_of_first {ip : String} {d : Nat} {daemon : DaemonInfo}
    (hd : s.daemons[d]? = some daemon) (hip : daemon.address.ip = ip)
    (hfirst : ∀ d' < d, ∀ daemon', s.daemons[d']? = some daemon' → daemon'.address.ip ≠ ip) :
    s.findDaemonByIp ip = some d := by
  obtain ⟨hlt, rfl⟩ := List.getElem?_eq_some_iff.1 hd
  refine List.findIdx?_eq_some_iff_getElem.2 ⟨hlt, beq_iff_eq.2 hip, fun d' hd' heq => ?_⟩
  exact hfirst d' hd' _ (List.getElem?_eq_getElem _) (beq_iff_eq.1 heq)

end Service

namespace Cluster

variable {c : Cluster}

/-- The notice of a server is about the server and its GPUs. -/
theorem Placed.ofString_exitNotify {s : Service} {w : SpawnedWorker} (h : Placed s w) :
    ServerAddress.ofString w.exitNotify.workerAddress = some w.address :=
  h.address.ofString_getAddress

/-- In every reachable state, for every server that a daemon has started: its exit notice is handled
and changes only GPUs of the registration whose client started it, if and only if no earlier
registration has the IP of that one. -/
theorem exit_credited_iff (S : Sorter Nat) (h : Reaches (step S) (fun _ _ => True) empty c)
    {w : SpawnedWorker} (hw : w ∈ c.workers) (pick : Nat → Nat) :
    (∃ t, c.service.handleWorkerExit w.exitNotify pick = some t ∧
        ∀ d k, d ≠ w.daemon → t.entryOf d k = c.service.entryOf d k) ↔
      ∀ d daemon, d < w.daemon → c.service.daemons[d]? = some daemon →
        daemon.address.ip ≠ w.address.ip := by
  have hplaced := (sound_of_reaches h).placed w hw
  have haddress := hplaced.ofString_exitNotify
  obtain ⟨daemon, hd, hip, hgpus⟩ := hplaced.node
  constructor
  · rintro ⟨t, ht, hothers⟩ d other hlt hother heq
    -- the notice is credited to a node that is not later than `d`
    cases hfind : c.service.findDaemonByIp w.address.ip with
    | none =>
      exact (c.service.findDaemonByIp_eq_none_iff _).1 hfind other
        (List.mem_of_getElem? hother) heq
    | some d' =>
      obtain ⟨-, -, -, hfirst⟩ := Service.findDaemonByIp_eq_some hfind
      have hle : d' ≤ d := by
        by_contra hlt'
        exact hfirst d (Nat.lt_of_not_le hlt') other hother heq
      obtain ⟨k, hk⟩ := Service.handleWorkerExit_lowers haddress hplaced.uuid hfind ht
      rw [hothers d' k (by omega)] at hk
      exact absurd hk (lt_irrefl _)
  · intro hfirst
    have hfind := Service.findDaemonByIp_of_first hd hip.symm
      fun d' hlt daemon' hd' => hfirst d' daemon' hlt hd'
    obtain ⟨g, hg⟩ := removeFromAll_of_known w.address pick hgpus
    refine ⟨c.service.setGpuList w.daemon g, ?_, fun d k hne => ?_⟩
    · rw [Service.handleWorkerExit_known haddress hplaced.uuid hfind hd]
      exact Option.map_eq_some_iff.2 ⟨g, hg, rfl⟩
    · rw [Service.entryOf_setGpuList _ hd, if_neg (Ne.symm hne)]

/-- The steps of a request for one GPU on the node it looks at, whose server is at `port`. -/
def wholeRequest (r : Nat) (port : Int) : List Op :=
  [.proceed r, .proceed r, .proceed r, .spawn r port, .receive r, .proceed r, .proceed r]

/-- One node and one server. -/
def oneNode : List Op :=
  [.register "10.0.0.1:3333" ["A"] [100], .assign [40]] ++ wholeRequest 0 4000

theorem exit_credited_one_node : ∃ c w,
    runGuarded (step insertionSorter) (fun _ _ => True) empty oneNode = some c ∧
    c.workers = [w] ∧ w.daemon = 0 ∧
    ∃ t, c.service.handleWorkerExit w.exitNotify (fun _ => 0) = some t ∧
      ∀ d k, d ≠ w.daemon → t.entryOf d k = c.service.entryOf d k := by
  have hrun : ∃ c w, runGuarded (step insertionSorter) (fun _ _ => True) empty oneNode = some c ∧
      c.workers = [w] ∧ w.daemon = 0 := ⟨_, _, rfl, rfl, rfl⟩
  obtain ⟨c, w, hc, hw, hdaemon⟩ := hrun
  refine ⟨c, w, hc, hw, hdaemon, ?_⟩
  refine (exit_credited_iff insertionSorter (Reaches.of_runGuarded oneNode hc)
    (hw ▸ List.mem_singleton_self w) fun _ => 0).2 fun d daemon hlt => ?_
  rw [hdaemon] at hlt
  exact absurd hlt (Nat.not_lt_zero d)

/-- The daemon of the node has been restarted and has registered again; the request is for the
second registration. -/
def restarted : List Op :=
  [.register "10.0.0.1:3333" ["A"] [100], .disconnect 0,
    .register "10.0.0.1:3333" ["A"] [100], .assign [40], .proceed 0] ++ wholeRequest 0 4000

/-- The server of the second registration has been noted there. Its exit notice lowers the counter
of the first registration to -1, and the second keeps the server and its memory. -/
theorem exit_credited_to_first_registration : ∃ c w t,
    runGuarded (step insertionSorter) (fun _ _ => True) empty restarted = some c ∧
    c.workers = [w] ∧ w.daemon = 1 ∧
    c.service.entryOf 1 0 = ⟨"A", 60, [⟨⟨"10.0.0.1", 4000⟩, 40⟩], 1, 100⟩ ∧
    c.service.handleWorkerExit w.exitNotify (fun _ => 0) = some t ∧
    t.entryOf 0 0 = ⟨"A", 100, [], -1, 100⟩ ∧
    t.entryOf 1 0 = ⟨"A", 60, [⟨⟨"10.0.0.1", 4000⟩, 40⟩], 1, 100⟩ :=
  ⟨_, _, _, rfl, rfl, rfl, rfl, rfl, rfl, rfl⟩

end Cluster

end Ava.Manager
