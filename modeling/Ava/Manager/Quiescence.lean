import Ava.Manager.Conservation
import Ava.Manager.ExitCredit
import Ava.Manager.Placement

/-!
# Quiescence

When all requests are finished and all servers have been reported, the GPUs should have all their
memory again, no server and a counter of 0. This is so if every notice finds the server at the GPU
that it is handled for. The manager takes a notice also before it has noted the server; then the
counter is lowered, nothing is released, and the server is noted afterwards and stays.

The memory and the counters are balanced with the servers that are noted and the reservations of
requests (`Balanced`, `Counted`). That no server stays noted is counted: the servers noted at all
GPUs together with the reservations that will still be noted are at most as many as the GPUs that
are still to be reported.
-/

set_option autoImplicit false

namespace Ava.Manager

open Ava.Lib

/-! ## The servers that are noted -/

/-- Without a server of the address only the counter changes. -/
theorem GpuListEntry.removeBusyWorker_of_not_runs {e : GpuListEntry} {address : ServerAddress}
    (h : ¬ e.Runs address) (pick : Nat) :
    e.removeBusyWorker address pick = e.releaseMemory 0 := by
  have hnone : (e.busyWorkers.filter fun w => w.address.getAddress == address.getAddress) = [] := by
    rw [List.filter_eq_nil_iff]
    intro w hw heq
    exact h ⟨w, hw, beq_iff_eq.1 heq⟩
  rw [removeBusyWorker, removeWorker, hnone]
  rfl

namespace Service

variable {S : Sorter Nat} {s t : Service}

/-- `noted` has every GPU as often as there are servers noted at it. -/
def Noted (s : Service) (noted : Multiset (Nat × Nat)) : Prop :=
  ∀ d k, noted.count (d, k) = (s.entryOf d k).busyWorkers.length

variable {noted : Multiset (Nat × Nat)}

theorem Noted.congr (h : s.Noted noted)
    (hsame : ∀ d k, (t.entryOf d k).busyWorkers.length = (s.entryOf d k).busyWorkers.length) :
    t.Noted noted :=
  fun d k => (h d k).trans (hsame d k).symm

variable {d : Nat} {daemon : DaemonInfo}

theorem entryOf_eq (hd : s.daemons[d]? = some daemon) (k : Nat) :
    s.entryOf d k = daemon.gpuList.entry k := by
  rw [entryOf, hd]

variable {f : GpuListEntry → GpuListEntry} {g : GpuList} {k : Nat}

theorem entryOf_modify (hd : s.daemons[d]? = some daemon)
    (hentry : g.entry = (daemon.gpuList.modify k f).entry) (d' k' : Nat) :
    (s.setGpuList d g).entryOf d' k' =
      if (d', k') = (d, k) then f (s.entryOf d k) else s.entryOf d' k' := by
  rw [entryOf_setGpuList s hd, hentry, entryOf_eq hd]
  by_cases hd' : d = d'
  · subst hd'
    rw [if_pos rfl, entryOf_eq hd]
    by_cases hk : k' = k
    · subst hk
      rw [GpuList.modify_entry_self, if_pos rfl]
    · rw [GpuList.modify_entry_of_ne _ _ hk, if_neg fun h => hk (Prod.mk.inj h).2]
  · rw [if_neg hd', if_neg fun h => hd' (Prod.mk.inj h).1.symm]

theorem Noted.modify_same (h : s.Noted noted) (hd : s.daemons[d]? = some daemon)
    (hentry : g.entry = (daemon.gpuList.modify k f).entry)
    (hf : ∀ e, (f e).busyWorkers = e.busyWorkers) : (s.setGpuList d g).Noted noted := by
  refine h.congr fun d' k' => ?_
  rw [entryOf_modify hd hentry]
  split_ifs with heq
  · cases heq
    rw [hf]
  · rfl

theorem Noted.modify_cons (h : s.Noted noted) (hd : s.daemons[d]? = some daemon)
    (hentry : g.entry = (daemon.gpuList.modify k f).entry)
    (hf : ∀ e, (f e).busyWorkers.length = e.busyWorkers.length + 1) :
    (s.setGpuList d g).Noted ((d, k) ::ₘ noted) := by
  intro d' k'
  rw [entryOf_modify hd hentry, Multiset.count_cons, h]
  split_ifs with heq
  · cases heq
    rw [hf]
  · rfl

theorem Noted.modify_erase (h : s.Noted noted) (hd : s.daemons[d]? = some daemon)
    (hentry : g.entry = (daemon.gpuList.modify k f).entry)
    (hf : (f (s.entryOf d k)).busyWorkers.length + 1 = (s.entryOf d k).busyWorkers.length) :
    ∃ noted', noted = (d, k) ::ₘ noted' ∧ (s.setGpuList d g).Noted noted' := by
  have hmem : (d, k) ∈ noted := by
    rw [← Multiset.count_pos, h]
    omega
  obtain ⟨noted', rfl⟩ := Multiset.exists_cons_of_mem hmem
  refine ⟨noted', rfl, fun d' k' => ?_⟩
  have hcount := h d' k'
  rw [Multiset.count_cons] at hcount
  rw [entryOf_modify hd hentry]
  split_ifs at hcount ⊢ with heq
  · cases heq
    omega
  · exact hcount

theorem Noted.register {address : ServerAddress} {uuid : List String} {freeMemory : List UInt64}
    (h : s.Noted noted) (hstep : s.step S (.register address uuid freeMemory) = some t) :
    t.Noted noted := by
  rw [step, registerDaemon] at hstep
  split_ifs at hstep
  cases hstep
  refine h.congr fun d k => ?_
  rcases Nat.lt_trichotomy d s.daemons.length with hlt | rfl | hgt
  · rw [entryOf, entryOf, List.getElem?_append_left hlt]
  · rw [entryOf, entryOf, List.getElem?_concat_length, List.getElem?_eq_none le_rfl]
    rfl
  · rw [entryOf, entryOf, List.getElem?_append_right hgt.le,
      List.getElem?_eq_none (l := [_]) (Nat.sub_pos_of_lt hgt), List.getElem?_eq_none hgt.le]

end Service

/-! ## The reservations that will be noted -/

/-- The reservations of a request that will become servers, as far as it is known: the daemon has
started the server, and the reply has not been lost. -/
def owedBy (p : Progress) (reply : Option (List ServerAddress)) : Nat :=
  match p, reply with
  | .spawning _ assigned, some (_ :: _) => assigned.length
  | .adding _ _ _ assigned, _ => assigned.length
  | _, _ => 0

/-- A request notes what it owes, one server after the other. -/
theorem Service.Noted.turn {S : Sorter Nat} {s t : Service} {sizes : List UInt64}
    {reply : List ServerAddress} {p p' : Progress} {noted : Multiset (Nat × Nat)}
    (h : s.Noted noted) (hturn : Turn S s sizes reply p t p')
    {answer : Option (List ServerAddress)} (hbefore : p.beforeCall = true → answer = none)
    (hanswer : ∀ d assigned, p = .spawning d assigned → answer = some reply) :
    ∃ noted', t.Noted noted' ∧ noted'.card + owedBy p' answer ≤ noted.card + owedBy p answer := by
  cases hturn with
  | @placed d assigned hsome =>
    -- the call is only made now
    rw [hbefore rfl]
    exact ⟨noted, h, Nat.le_add_right ..⟩
  | @reserve d k size rest assigned daemon g hd hfind =>
    obtain ⟨-, -, rfl⟩ := GpuList.find_of_some S hfind
    exact ⟨noted, h.modify_same hd (f := fun e => e.reserveMemory size) rfl fun _ => rfl,
      le_rfl⟩
  | @revoke d k size assigned next daemon hd =>
    exact ⟨noted, h.modify_same hd (f := fun e => e.releaseMemory size) rfl fun _ => rfl,
      le_rfl⟩
  | @spawned d assigned address more hreply =>
    rw [hanswer d assigned rfl, hreply]
    exact ⟨noted, h, le_rfl⟩
  | @add d k size assigned replied address daemon hd =>
    refine ⟨(d, k) ::ₘ noted, h.modify_cons hd rfl fun e => ?_, ?_⟩
    · exact List.length_append
    · rw [Multiset.card_cons]
      change noted.card + 1 + assigned.length ≤ noted.card + (assigned.length + 1)
      omega
  | _ => exact ⟨noted, h, Nat.le_add_right ..⟩

namespace Cluster

variable {S : Sorter Nat} {c c' : Cluster}

/-- What a request owes. -/
def owedIn (x : AssignRequest × SpawnCall) : Nat := owedBy x.1.progress x.2.reply

/-- What all requests owe. -/
def owed (c : Cluster) : Nat := ((c.service.requests.zip c.calls).map owedIn).sum

/-- The GPUs of all servers that are still to be reported. -/
def unreported (c : Cluster) : Nat := (c.workers.map fun w => w.unreported.length).sum

variable {call : SpawnCall} {q : AssignRequest} {r : Nat}

theorem getElem?_requests (hq : c.service.requests[r]? = some q) (hcall : c.calls[r]? = some call) :
    (c.service.requests.zip c.calls)[r]? = some (q, call) := by
  rw [List.getElem?_zip_eq_some]
  exact ⟨hq, hcall⟩

theorem owed_setReply (hq : c.service.requests[r]? = some q) (hcall : c.calls[r]? = some call)
    (reply : List ServerAddress) :
    (c.setReply r reply).owed + owedBy q.progress call.reply =
      c.owed + owedBy q.progress (some reply) := by
  rw [owed, setReply, zip_modify_right]
  exact sum_map_modify owedIn _ _ r (q, call) (getElem?_requests hq hcall)

variable {s : Service}

theorem owed_setProgress (hrequests : s.requests = c.service.requests)
    (hq : c.service.requests[r]? = some q) (hcall : c.calls[r]? = some call) (p : Progress) :
    { c with service := s.setProgress r p }.owed + owedBy q.progress call.reply =
      c.owed + owedBy p call.reply := by
  rw [owed, Service.setProgress, zip_modify_left, hrequests]
  exact sum_map_modify owedIn _ _ r (q, call) (getElem?_requests hq hcall)

theorem owed_report (h : s.requests = c.service.requests) (w : Nat) (rest : List String) :
    (c.report s w rest).owed = c.owed := by
  rw [owed, owed, report, h]

theorem unreported_report {w : Nat} {worker : SpawnedWorker} {uuid : String}
    {rest : List String} (s : Service) (hworker : c.workers[w]? = some worker)
    (hnext : worker.unreported = uuid :: rest) :
    (c.report s w rest).unreported + 1 = c.unreported := by
  have hsum := sum_map_modify (fun w : SpawnedWorker => w.unreported.length)
    (fun worker => { worker with unreported := rest }) c.workers w worker hworker
  rw [hnext, List.length_cons] at hsum
  change (c.report s w rest).unreported + (rest.length + 1) = c.unreported + rest.length at hsum
  omega

/-- Not more servers are noted, or will be, than are still to be reported. -/
def Counts (c : Cluster) : Prop :=
  ∃ noted, c.service.Noted noted ∧ noted.card + c.owed ≤ c.unreported

/-- The next GPU of an exit notice has the server. -/
def KnownExit (c : Cluster) : Op → Prop
  | .exit w _ => ∀ worker uuid rest, c.workers[w]? = some worker →
      worker.unreported = uuid :: rest → ∃ d daemon k,
        c.service.findDaemonByIp worker.address.ip = some d ∧
        c.service.daemons[d]? = some daemon ∧ daemon.gpuList.findEntryByUuid uuid = some k ∧
        (daemon.gpuList.entry k).Runs worker.address
  | _ => True

theorem Counts.advance {reply : List ServerAddress} (hs : c.Sound) (hc : c.Counts)
    (h : c.service.advance S r reply = some s)
    (hanswer : ∀ sizes d assigned call,
      c.service.requests[r]? = some ⟨sizes, .spawning d assigned⟩ → c.calls[r]? = some call →
        call.reply = some reply) :
    { c with service := s }.Counts := by
  obtain ⟨noted, hnoted, hle⟩ := hc
  obtain ⟨q, s', p, hq, hturn, rfl⟩ := Service.turn_of_advance h
  obtain ⟨call, hcall⟩ : ∃ call, c.calls[r]? = some call := by
    have hlt := (List.getElem?_eq_some_iff.1 hq).1
    exact ⟨_, List.getElem?_eq_getElem (hs.length ▸ hlt)⟩
  obtain ⟨noted', hnoted', hle'⟩ := hnoted.turn hturn (hs.paired r q call hq hcall).uncalled
    (fun d assigned hp => hanswer q.sizes d assigned call (by rw [hq, ← hp]) hcall)
  refine ⟨noted', hnoted'.congr fun _ _ => rfl, ?_⟩
  have howed := owed_setProgress (Service.requests_turn hturn) hq hcall p
  have hunreported : { c with service := s'.setProgress r p }.unreported = c.unreported := rfl
  omega

theorem noted_exit {address : ServerAddress} {uuid : String} {pick d k : Nat} {daemon : DaemonInfo}
    {s' : Service} {noted : Multiset (Nat × Nat)} (h : s.Noted noted)
    (hip : s.findDaemonByIp address.ip = some d) (hd : s.daemons[d]? = some daemon)
    (hk : daemon.gpuList.findEntryByUuid uuid = some k)
    (hruns : (daemon.gpuList.entry k).Runs address)
    (hs : s.notifyWorkerExit address uuid pick = some s') :
    ∃ noted', s'.Noted noted' ∧ noted.card = noted'.card + 1 := by
  rw [Service.notifyWorkerExit, hip] at hs
  dsimp only at hs
  rw [hd] at hs
  dsimp only at hs
  rw [hk] at hs
  cases hs
  rcases (daemon.gpuList.entry k).removeBusyWorker_cases address pick with
    ⟨w, hw, heq⟩ | ⟨hnot, -⟩
  · obtain ⟨noted', rfl, hnoted'⟩ := h.modify_erase hd (k := k)
      (f := fun e => e.removeBusyWorker address pick) rfl (by
        rw [Service.entryOf_eq hd, heq]
        have hlen := List.length_erase_add_one hw
        exact hlen)
    exact ⟨noted', hnoted', Multiset.card_cons ..⟩
  · exact absurd hruns hnot

variable {op : Op}

theorem Counts.step (hs : c.Sound) (hc : c.Counts) (hop : c.KnownExit op)
    (h : c.step S op = some c') : c'.Counts := by
  have hstepped := stepped_of_step h
  obtain ⟨noted, hnoted, hle⟩ := hc
  cases hstepped with
  | @register text address uuid freeMemory s hparsed hstep =>
    refine ⟨noted, hnoted.register hstep, ?_⟩
    rw [Service.step, Service.registerDaemon] at hstep
    split_ifs at hstep
    cases hstep
    exact hle
  | @disconnect d s hstep =>
    refine ⟨noted, hnoted.congr fun d' k => ?_, ?_⟩
    · exact congrArg (fun a => a.busy.length) (Service.disconnect_account hstep d' k)
    · cases hstep
      exact hle
  | @assign gpuMem =>
    refine ⟨noted, hnoted.congr fun _ _ => rfl, ?_⟩
    have howed : ({ c with
        service := c.service.assignWorker gpuMem
        calls := c.calls ++ [⟨gpuMem, none⟩] } : Cluster).owed = c.owed := by
      rw [owed, Service.assignWorker, List.zip_append hs.length.symm, List.map_append,
        List.sum_append, owed]
      cases gpuMem with
      | nil => rfl
      | cons size gpuMem => rfl
    rw [howed]
    exact hle
  | proceed hfree hstep =>
    refine Counts.advance hs ⟨noted, hnoted, hle⟩ hstep fun sizes d assigned call hq hcall => ?_
    rw [hfree sizes d assigned hq] at hcall
    cases hcall
  | @spawn r d assigned gpuMem daemon port hwaits hd hport =>
    have hlen := hs.length_assigned hwaits
    obtain ⟨⟨sizes, hq⟩, hcall⟩ := hwaits
    have howed := owed_setReply hq hcall [⟨daemon.address.ip, port⟩]
    change (c.setReply r _).owed + 0 = c.owed + assigned.length at howed
    refine ⟨noted, hnoted, ?_⟩
    rw [unreported, List.map_append, List.sum_append]
    change noted.card + (c.setReply r _).owed ≤ c.unreported +
      ((restoredUuid daemon.gpuList gpuMem assigned).length + 0)
    rw [length_restoredUuid]
    dsimp only at hlen
    omega
  | @refuse r d assigned gpuMem hwaits =>
    obtain ⟨⟨sizes, hq⟩, hcall⟩ := hwaits
    have howed := owed_setReply hq hcall []
    refine ⟨noted, hnoted, ?_⟩
    change noted.card + (c.setReply r []).owed ≤ c.unreported
    change (c.setReply r []).owed + 0 = c.owed + 0 at howed
    omega
  | @lose r d assigned gpuMem address more hwaits =>
    obtain ⟨⟨sizes, hq⟩, hcall⟩ := hwaits
    have howed := owed_setReply hq hcall []
    refine ⟨noted, hnoted, ?_⟩
    change noted.card + (c.setReply r []).owed ≤ c.unreported
    change (c.setReply r []).owed + assigned.length = c.owed + 0 at howed
    omega
  | @receive r d assigned gpuMem reply s hwaits hstep =>
    obtain ⟨⟨sizes, hq⟩, hcall⟩ := hwaits
    refine Counts.advance hs ⟨noted, hnoted, hle⟩ hstep fun _ _ _ call _ hcall' => ?_
    cases hcall.symm.trans hcall'
    rfl
  | @exit w pick worker uuid rest s hworker hnext hstep =>
    obtain ⟨d, daemon, k, hip, hd, hk, hruns⟩ := hop worker uuid rest hworker hnext
    obtain ⟨noted', hnoted', hcard⟩ := noted_exit hnoted hip hd hk hruns hstep
    have howed := owed_report (Service.requests_of_exit hstep) w rest
    have hreported := unreported_report s hworker hnext
    exact ⟨noted', hnoted', by omega⟩

/-! ## Runs -/

theorem balanced_step (h : c.step S op = some c') (hc : ∀ d k, (c.service.account d k).Balanced)
    (d k : Nat) : (c'.service.account d k).Balanced := by
  rcases service_step (stepped_of_step h) with heq | ⟨sop, hs, hparses, -⟩
  · rw [heq]
    exact hc d k
  · exact Service.balanced_step hparses hs hc d k

/-- A counter is below the number of servers by the exits that did not find their server. -/
theorem deficit_step (h : c.step S op = some c') (d k : Nat) :
    (c'.service.account d k).deficit = (c.service.account d k).deficit ∨
      ¬ c.KnownExit op ∧
        (c'.service.account d k).deficit = (c.service.account d k).deficit + 1 := by
  rcases service_step (stepped_of_step h) with heq | ⟨sop, hs, hparses, hexit⟩
  · rw [heq]
    exact Or.inl rfl
  · rcases Service.step_moves hs d k with
      hmove | ⟨⟨address, uuid, pick, rfl, hunknown⟩, hstray⟩ | ⟨_, _, rfl⟩
    · exact Or.inl hmove.deficit
    · obtain ⟨w, worker, rest, rfl, hworker, rfl, hnext⟩ := hexit address uuid pick rfl
      refine Or.inr ⟨fun hknown => hunknown ?_, hstray.deficit⟩
      obtain ⟨d, daemon, k, hip, hd, hk, hruns⟩ := hknown worker uuid rest hworker hnext
      intro d' daemon' k' hip' hd' hk'
      cases hip.symm.trans hip'
      cases hd.symm.trans hd'
      cases hk.symm.trans hk'
      exact hruns
    · exact hparses.elim

/-- The GPUs of a node stay. -/
theorem hasGpu_of_reaches {ok : Cluster → Op → Prop} (h : Reaches (Cluster.step S) ok c c')
    {d k : Nat} (hgpu : c.service.HasGpu d k) : c'.service.HasGpu d k := by
  refine h.invariant (I := fun x => x.service.HasGpu d k) (fun x op y hx _ hstep => ?_) hgpu
  rcases service_step (stepped_of_step hstep) with heq | ⟨sop, hs, -, -⟩
  · rw [heq]
    exact hx
  · exact hx.of_extends (Service.extends_step hs)

theorem deficit_le_of_reaches {ok : Cluster → Op → Prop} (h : Reaches (Cluster.step S) ok c c')
    (d k : Nat) : (c.service.account d k).deficit ≤ (c'.service.account d k).deficit := by
  refine h.invariant
    (I := fun x => (c.service.account d k).deficit ≤ (x.service.account d k).deficit)
    (fun x op y hx _ hstep => ?_) le_rfl
  rcases deficit_step hstep d k with heq | ⟨-, heq⟩
  · omega
  · omega

/-- An exit that does not find its server leaves the counter of the GPU too low. -/
theorem deficit_of_unknown (hs : c.Sound) (hop : ¬ c.KnownExit op) (h : c.step S op = some c') :
    ∃ d k, c.service.HasGpu d k ∧
      (c'.service.account d k).deficit = (c.service.account d k).deficit + 1 := by
  cases stepped_of_step h with
  | @exit w pick worker uuid rest s hworker hnext hstep =>
    -- the node with the IP of the server exists, since the server was started on it
    obtain ⟨node, hnode, hnodeIp, -⟩ := (hs.placed worker (List.mem_of_getElem? hworker)).node
    cases hip : c.service.findDaemonByIp worker.address.ip with
    | none =>
      rw [Service.findDaemonByIp_eq_none_iff] at hip
      exact absurd hnodeIp.symm (hip node (List.mem_of_getElem? hnode))
    | some d =>
      obtain ⟨daemon, hd, -⟩ := Service.findDaemonByIp_eq_some hip
      rw [Service.notifyWorkerExit, hip] at hstep
      dsimp only at hstep
      rw [hd] at hstep
      dsimp only at hstep
      cases hk : daemon.gpuList.findEntryByUuid uuid with
      | none =>
        rw [hk] at hstep
        cases hstep
      | some k =>
        rw [hk] at hstep
        cases hstep
        refine ⟨d, k, ⟨daemon, hd, List.mem_of_find?_eq_some hk⟩, Stray.deficit ?_⟩
        have hnot : ¬ (daemon.gpuList.entry k).Runs worker.address := by
          intro hruns
          refine hop fun worker' uuid' rest' hworker' hnext' => ?_
          cases hworker.symm.trans hworker'
          cases hnext.symm.trans hnext'
          exact ⟨d, daemon, k, hip, hd, hk, hruns⟩
        rw [Stray, Service.account, report, Service.entryOf_modify hd rfl, if_pos rfl,
          Service.entryOf_eq hd, GpuListEntry.removeBusyWorker_of_not_runs hnot,
          Service.account, Service.entryOf_eq hd]
        rw [GpuListEntry.account, GpuListEntry.releaseMemory, UInt64.add_zero]
        rfl
  | _ => exact absurd trivial hop

/-- All requests are finished, and all servers have ended and have been reported. -/
structure Quiescent (c : Cluster) : Prop where
  finished : ∀ q ∈ c.service.requests, ∃ reply, q.progress = .finished reply
  reported : ∀ w ∈ c.workers, w.unreported = []

/-- Every GPU has its registered memory, a counter of 0 and no server. -/
def Returned (c : Cluster) : Prop :=
  ∀ (d : Nat) (daemon : DaemonInfo), c.service.daemons[d]? = some daemon →
    ∀ k ∈ daemon.gpuList.gpuList, (daemon.gpuList.entry k).freeMemory =
        (daemon.gpuList.entry k).registered ∧
      (daemon.gpuList.entry k).workerCounter = 0 ∧ (daemon.gpuList.entry k).busyWorkers = []

/-- Finished requests have reserved nothing. -/
theorem Quiescent.inFlight (h : c.Quiescent) (d k : Nat) : c.service.inFlight d k = 0 := by
  refine List.sum_eq_zero fun x hx => ?_
  obtain ⟨q, hq, rfl⟩ := List.mem_map.1 hx
  obtain ⟨reply, hp⟩ := h.finished q hq
  rw [hp]
  rfl

theorem Quiescent.unreported (h : c.Quiescent) : c.unreported = 0 := by
  refine List.sum_eq_zero fun x hx => ?_
  obtain ⟨w, hw, rfl⟩ := List.mem_map.1 hx
  rw [h.reported w hw]
  rfl

/-- What holds in every run whose exits find their servers. -/
structure Orderly (c : Cluster) : Prop where
  sound : c.Sound
  counts : c.Counts
  balanced : ∀ d k, (c.service.account d k).Balanced
  counted : ∀ d k, (c.service.account d k).deficit = 0

theorem orderly_of_reaches (h : Reaches (Cluster.step S) KnownExit empty c) : c.Orderly := by
  refine h.invariant (fun x op y hx hop hstep => ?_) ?_
  · refine ⟨hx.sound.step hstep, hx.counts.step hx.sound hop hstep,
      balanced_step hstep hx.balanced, fun d k => ?_⟩
    rcases deficit_step hstep d k with heq | ⟨hunknown, -⟩
    · rw [heq, hx.counted]
    · exact absurd hop hunknown
  · exact ⟨sound_empty, ⟨0, fun _ _ => rfl, le_rfl⟩, Service.balanced_empty, fun _ _ => rfl⟩

theorem Orderly.returned (h : c.Orderly) (hq : c.Quiescent) : c.Returned := by
  intro d daemon hd k _
  obtain ⟨noted, hnoted, hle⟩ := h.counts
  rw [hq.unreported] at hle
  have hzero : noted = 0 := Multiset.card_eq_zero.1 (by omega)
  have hbusy : (daemon.gpuList.entry k).busyWorkers = [] := by
    rw [← List.length_eq_zero_iff, ← Service.entryOf_eq hd, ← hnoted d k, hzero]
    rfl
  have hbalanced := h.balanced d k
  have hcounted := h.counted d k
  rw [Service.account, Service.entryOf_eq hd, hq.inFlight] at hbalanced hcounted
  refine ⟨?_, ?_, hbusy⟩
  · rw [Account.Balanced, GpuListEntry.account, hbusy] at hbalanced
    exact UInt64.toNat_inj.1 hbalanced
  · rw [Account.deficit, GpuListEntry.account, hbusy] at hcounted
    simpa using hcounted

/-- In every run whose exits find their servers, when all requests are finished and all servers
have ended, every GPU has everything back. In a run with an exit that does not find its server, no
such state is reached any more. -/
theorem returned_at_quiescence (S : Sorter Nat) :
    (∀ c, Reaches (Cluster.step S) KnownExit empty c → c.Quiescent → c.Returned) ∧
    ∀ c op c' c'', Reaches (Cluster.step S) (fun _ _ => True) empty c →
      c.step S op = some c' → ¬ c.KnownExit op →
      Reaches (Cluster.step S) (fun _ _ => True) c' c'' → c''.Quiescent → ¬ c''.Returned := by
  refine ⟨fun c h hq => (orderly_of_reaches h).returned hq, ?_⟩
  intro c op c' c'' h hstep hunknown hrest hq hreturned
  have hsound := sound_of_reaches h
  obtain ⟨d, k, hgpu, hdeficit⟩ := deficit_of_unknown hsound hunknown hstep
  -- the counter of the GPU was not above the number of its servers, and is below from now on
  have hbefore := deficit_le_of_reaches h d k
  have hafter := deficit_le_of_reaches hrest d k
  have hpositive : 0 < (c''.service.account d k).deficit := by
    change 0 ≤ (c.service.account d k).deficit at hbefore
    omega
  obtain ⟨daemon, hd, hk⟩ := hasGpu_of_reaches (.head ⟨op, trivial, hstep⟩ hrest) hgpu
  obtain ⟨-, hcounter, hbusy⟩ := hreturned d daemon hd k hk
  rw [Service.account, Service.entryOf_eq hd, hq.inFlight, Account.deficit, GpuListEntry.account,
    hcounter, hbusy] at hpositive
  exact lt_irrefl (0 : Int) hpositive

def Op.isExit : Op → Bool
  | .exit .. => true
  | _ => false

theorem knownExit_of_isExit (h : op.isExit = false) : c.KnownExit op := by
  cases op with
  | exit => cases h
  | _ => trivial

theorem quiescent_of_map {reply : List ServerAddress}
    (hfinished : c.service.requests.map (fun q => q.progress) = [.finished reply])
    (hreported : c.workers.map (fun w => w.unreported) = [[]]) : c.Quiescent where
  finished _ hq := ⟨reply, List.mem_singleton.1 (hfinished ▸ List.mem_map_of_mem hq)⟩
  reported _ hw := List.mem_singleton.1 (hreported ▸ List.mem_map_of_mem hw)

/-- The server of a request ends when it has been noted. -/
theorem returned_at_quiescence_one_server : ∃ c c',
    runGuarded (Cluster.step insertionSorter) (fun _ op => op.isExit = false) empty oneNode =
      some c ∧
    c.step insertionSorter (.exit 0 0) = some c' ∧ c'.Quiescent ∧ c'.Returned := by
  have hrun : ∃ c c',
      runGuarded (Cluster.step insertionSorter) (fun _ op => op.isExit = false) empty oneNode =
        some c ∧
      c.step insertionSorter (.exit 0 0) = some c' ∧ c.KnownExit (.exit 0 0) ∧
      c'.service.requests.map (fun q => q.progress) = [.finished [⟨"10.0.0.1", 4000⟩]] ∧
      c'.workers.map (fun w => w.unreported) = [[]] := by
    refine ⟨_, _, rfl, rfl, fun worker uuid rest hworker hnext => ?_, rfl, rfl⟩
    cases hworker
    cases hnext
    exact ⟨_, _, _, rfl, rfl, rfl, _, List.mem_singleton_self _, rfl⟩
  obtain ⟨c, c', hc, hc', hknown, hfinished, hreported⟩ := hrun
  have hquiescent := quiescent_of_map hfinished hreported
  have hreaches : Reaches (Cluster.step insertionSorter) KnownExit empty c :=
    Reaches.mono (fun _ _ => knownExit_of_isExit) (Reaches.of_runGuarded oneNode hc)
  exact ⟨c, c', hc, hc', hquiescent,
    (returned_at_quiescence insertionSorter).1 c' (hreaches.tail ⟨_, hknown, hc'⟩) hquiescent⟩

/-- The same request, but the server ends before the reply of the daemon is read. -/
def earlyExit : List Op :=
  [.register "10.0.0.1:3333" ["A"] [100], .assign [40], .proceed 0, .proceed 0, .proceed 0,
    .spawn 0 4000, .exit 0 0, .receive 0, .proceed 0, .proceed 0]

/-- The request is finished and the server has been reported, but the GPU still has the server and
not its memory. -/
theorem early_exit_never_returned : ∃ c,
    runGuarded (Cluster.step insertionSorter) (fun _ _ => True) empty earlyExit = some c ∧
    c.Quiescent ∧ ¬ c.Returned ∧
    c.service.entryOf 0 0 = ⟨"A", 60, [⟨⟨"10.0.0.1", 4000⟩, 40⟩], 0, 100⟩ := by
  have hrun : ∃ c daemon,
      runGuarded (Cluster.step insertionSorter) (fun _ _ => True) empty earlyExit = some c ∧
      c.service.requests.map (fun q => q.progress) = [.finished [⟨"10.0.0.1", 4000⟩]] ∧
      c.workers.map (fun w => w.unreported) = [[]] ∧ c.service.daemons[0]? = some daemon ∧
      daemon.gpuList.gpuList = [0] ∧
      daemon.gpuList.entry 0 = ⟨"A", 60, [⟨⟨"10.0.0.1", 4000⟩, 40⟩], 0, 100⟩ :=
    ⟨_, _, rfl, rfl, rfl, rfl, rfl, rfl⟩
  obtain ⟨c, daemon, hc, hfinished, hreported, hd, hlist, hentry⟩ := hrun
  refine ⟨c, hc, quiescent_of_map hfinished hreported, fun hreturned => ?_,
    (Service.entryOf_eq hd 0).trans hentry⟩
  obtain ⟨hfree, -⟩ := hreturned 0 daemon hd 0 (hlist ▸ List.mem_singleton_self 0)
  rw [hentry] at hfree
  exact absurd hfree (by decide)

end Cluster

end Ava.Manager
