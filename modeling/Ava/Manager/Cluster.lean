import Ava.Manager.ExitNotice
import Ava.Manager.RestoredOrder

/-!
# The manager and its daemons

In `Service` the reply of a daemon and the exit notices are inputs. Here they come from the daemons
(`worker/katana/spawn_daemon.cpp`). When a request waits for a daemon, the daemon starts the API
server at a port of its own, watches it, and sends the address of the server back. When the server
ends the daemon sends the notice, which travels independently of the reply: it may be handled
before the manager has read the reply. A call may also fail, before or after the server was
started.

A notice is handled GPU by GPU; `unreported` are the GPUs of a server that the manager has not
handled yet.
-/

set_option autoImplicit false

namespace Ava.Manager

open Ava.Lib

/-- What a request asks for, and the answer to its `SpawnWorker` call once there is one. -/
structure SpawnCall where
  gpuMem : List UInt64
  reply : Option (List ServerAddress)

/-- An API server. `daemon` is the registration whose client asked for it. -/
structure SpawnedWorker where
  daemon : Nat
  address : ServerAddress
  uuid : List String
  unreported : List String

/-- The notice that the daemon sends when the server has ended. -/
def SpawnedWorker.exitNotify (w : SpawnedWorker) : WorkerExitNotifyRequest :=
  ⟨w.address.getAddress, w.uuid⟩

/-- `calls` are those of the requests of the service, in the same order. -/
structure Cluster where
  service : Service
  calls : List SpawnCall
  workers : List SpawnedWorker

namespace Cluster

variable (S : Sorter Nat)

def empty : Cluster := ⟨.empty, [], []⟩

/-- The node, the reserved entries and the call of a request that waits for a daemon. -/
def waiting (c : Cluster) (r : Nat) : Option (Nat × Reservations × SpawnCall) :=
  match c.service.requests[r]?, c.calls[r]? with
  | some ⟨_, .spawning d assigned⟩, some call => some (d, assigned, call)
  | _, _ => none

/-- The answer to the call of a request. -/
def setReply (c : Cluster) (r : Nat) (reply : List ServerAddress) : Cluster :=
  { c with calls := c.calls.modify r fun call => { call with reply := some reply } }

/-- `SpawnWorker` of the daemon. The port is that of `GetWorkerPort`, an `int`. It is 0 for the first
server of a daemon with the option `-b 0`; the address of this server does not parse, neither in the
reply nor in a notice, and it is left out here. -/
def spawnWorker (c : Cluster) (r : Nat) (port : Int) : Option Cluster :=
  match c.waiting r with
  | some (d, assigned, ⟨gpuMem, none⟩) =>
    match c.service.daemons[d]? with
    | none => none
    | some daemon =>
      if port = 0 ∨ port < -2 ^ 31 ∨ 2 ^ 31 ≤ port then none
      else
        let address : ServerAddress := ⟨daemon.address.ip, port⟩
        let uuid := restoredUuid daemon.gpuList gpuMem assigned
        some { c.setReply r [address] with
          workers := c.workers ++ [⟨d, address, uuid, uuid⟩] }
  | _ => none

/-- The call fails before the daemon has started a server. -/
def refuse (c : Cluster) (r : Nat) : Option Cluster :=
  match c.waiting r with
  | some (_, _, ⟨_, none⟩) => some (c.setReply r [])
  | _ => none

/-- The call fails after the daemon has started a server. -/
def lose (c : Cluster) (r : Nat) : Option Cluster :=
  match c.waiting r with
  | some (_, _, ⟨_, some (_ :: _)⟩) => some (c.setReply r [])
  | _ => none

/-- The request reads the answer to its call. -/
def receive (c : Cluster) (r : Nat) : Option Cluster :=
  match c.waiting r with
  | some (_, _, ⟨_, some reply⟩) =>
    (c.service.advance S r reply).map fun s => { c with service := s }
  | _ => none

/-- A step of a request that does not wait for a daemon. -/
def proceed (c : Cluster) (r : Nat) : Option Cluster :=
  match c.waiting r with
  | some _ => none
  | none => (c.service.advance S r []).map fun s => { c with service := s }

/-- A GPU of a server has been reported, and `rest` is left. -/
def report (c : Cluster) (s : Service) (w : Nat) (rest : List String) : Cluster :=
  { c with
    service := s
    workers := c.workers.modify w fun worker => { worker with unreported := rest } }

/-- The manager handles the next GPU of the exit notice of a server. -/
def exit (c : Cluster) (w pick : Nat) : Option Cluster :=
  match c.workers[w]? with
  | none => none
  | some worker =>
    match worker.unreported with
    | [] => none
    | uuid :: rest =>
      (c.service.notifyWorkerExit worker.address uuid pick).map fun s => c.report s w rest

inductive Op where
  | register (address : String) (uuid : List String) (freeMemory : List UInt64)
  | disconnect (daemon : Nat)
  | assign (gpuMem : List UInt64)
  | proceed (request : Nat)
  | spawn (request : Nat) (port : Int)
  | refuse (request : Nat)
  | lose (request : Nat)
  | receive (request : Nat)
  | exit (worker pick : Nat)

def step (c : Cluster) : Op → Option Cluster
  | .register address uuid freeMemory =>
    match ServerAddress.ofString address with
    -- the constructor throws and nothing is registered
    | none => none
    | some address =>
      (c.service.registerDaemon S address uuid freeMemory).map fun s => { c with service := s }
  | .disconnect d =>
    (c.service.step S (.disconnect d)).map fun s => { c with service := s }
  | .assign gpuMem => some
      { c with service := c.service.assignWorker gpuMem, calls := c.calls ++ [⟨gpuMem, none⟩] }
  | .proceed r => c.proceed S r
  | .spawn r port => c.spawnWorker r port
  | .refuse r => c.refuse r
  | .lose r => c.lose r
  | .receive r => c.receive S r
  | .exit w pick => c.exit w pick

/-! ## What a step does -/

/-- The request waits for the daemon of node `d`. -/
structure Waits (c : Cluster) (r d : Nat) (assigned : Reservations) (call : SpawnCall) :
    Prop where
  request : ∃ sizes, c.service.requests[r]? = some ⟨sizes, .spawning d assigned⟩
  call : c.calls[r]? = some call

inductive Stepped (c : Cluster) : Op → Cluster → Prop where
  | register {text : String} {address uuid freeMemory s}
      (parsed : ServerAddress.ofString text = some address)
      (step : c.service.step S (.register address uuid freeMemory) = some s) :
      Stepped c (.register text uuid freeMemory) { c with service := s }
  | disconnect {d s} (step : c.service.step S (.disconnect d) = some s) :
      Stepped c (.disconnect d) { c with service := s }
  | assign {gpuMem} : Stepped c (.assign gpuMem)
      { c with service := c.service.assignWorker gpuMem, calls := c.calls ++ [⟨gpuMem, none⟩] }
  | proceed {r s} (free : ∀ sizes d assigned,
        c.service.requests[r]? = some ⟨sizes, .spawning d assigned⟩ → c.calls[r]? = none)
      (step : c.service.advance S r [] = some s) : Stepped c (.proceed r) { c with service := s }
  | spawn {r d assigned gpuMem daemon port} (waits : c.Waits r d assigned ⟨gpuMem, none⟩)
      (node : c.service.daemons[d]? = some daemon)
      (range : port ≠ 0 ∧ -2 ^ 31 ≤ port ∧ port < 2 ^ 31) :
      Stepped c (.spawn r port) { c.setReply r [⟨daemon.address.ip, port⟩] with
        workers := c.workers ++ [⟨d, ⟨daemon.address.ip, port⟩,
          restoredUuid daemon.gpuList gpuMem assigned,
          restoredUuid daemon.gpuList gpuMem assigned⟩] }
  | refuse {r d assigned gpuMem} (waits : c.Waits r d assigned ⟨gpuMem, none⟩) :
      Stepped c (.refuse r) (c.setReply r [])
  | lose {r d assigned gpuMem address more}
      (waits : c.Waits r d assigned ⟨gpuMem, some (address :: more)⟩) :
      Stepped c (.lose r) (c.setReply r [])
  | receive {r d assigned gpuMem reply s} (waits : c.Waits r d assigned ⟨gpuMem, some reply⟩)
      (step : c.service.advance S r reply = some s) : Stepped c (.receive r) { c with service := s }
  | exit {w pick worker uuid rest s} (ended : c.workers[w]? = some worker)
      (next : worker.unreported = uuid :: rest)
      (step : c.service.notifyWorkerExit worker.address uuid pick = some s) :
      Stepped c (.exit w pick) (c.report s w rest)

variable {S} {c c' : Cluster}

theorem waits_of_waiting {r d : Nat} {assigned : Reservations} {call : SpawnCall}
    (h : c.waiting r = some (d, assigned, call)) : c.Waits r d assigned call := by
  rw [waiting] at h
  split at h
  · rename_i hq hcall
    cases h
    exact ⟨⟨_, hq⟩, hcall⟩
  · cases h

theorem stepped_of_step {op : Op} (h : c.step S op = some c') : Stepped S c op c' := by
  cases op with
  | register text uuid freeMemory =>
    rw [step] at h
    cases hparsed : ServerAddress.ofString text with
    | none =>
      rw [hparsed] at h
      cases h
    | some address =>
      rw [hparsed] at h
      obtain ⟨s, hs, rfl⟩ := Option.map_eq_some_iff.1 h
      exact .register hparsed hs
  | disconnect d =>
    rw [step] at h
    obtain ⟨s, hs, rfl⟩ := Option.map_eq_some_iff.1 h
    exact .disconnect hs
  | assign gpuMem =>
    cases h
    exact .assign
  | proceed r =>
    rw [step, proceed] at h
    cases hwaiting : c.waiting r with
    | some call =>
      rw [hwaiting] at h
      cases h
    | none =>
      rw [hwaiting] at h
      obtain ⟨s, hs, rfl⟩ := Option.map_eq_some_iff.1 h
      refine .proceed (fun sizes d assigned hq => ?_) hs
      rw [waiting, hq] at hwaiting
      cases hcall : c.calls[r]? with
      | none => rfl
      | some call =>
        rw [hcall] at hwaiting
        cases hwaiting
  | spawn r port =>
    rw [step, spawnWorker] at h
    split at h
    · rename_i d assigned gpuMem hwaiting
      cases hd : c.service.daemons[d]? with
      | none =>
        rw [hd] at h
        cases h
      | some daemon =>
        rw [hd] at h
        dsimp only at h
        split_ifs at h with hport
        cases h
        exact .spawn (waits_of_waiting hwaiting) hd (by omega)
    · cases h
  | refuse r =>
    rw [step, refuse] at h
    split at h
    · rename_i hwaiting
      cases h
      exact .refuse (waits_of_waiting hwaiting)
    · cases h
  | lose r =>
    rw [step, lose] at h
    split at h
    · rename_i hwaiting
      cases h
      exact .lose (waits_of_waiting hwaiting)
    · cases h
  | receive r =>
    rw [step, receive] at h
    split at h
    · rename_i hwaiting
      obtain ⟨s, hs, rfl⟩ := Option.map_eq_some_iff.1 h
      exact .receive (waits_of_waiting hwaiting) hs
    · cases h
  | exit w pick =>
    rw [step, exit] at h
    cases hworker : c.workers[w]? with
    | none =>
      rw [hworker] at h
      cases h
    | some worker =>
      rw [hworker] at h
      dsimp only at h
      cases hnext : worker.unreported with
      | nil =>
        rw [hnext] at h
        cases h
      | cons uuid rest =>
        rw [hnext] at h
        obtain ⟨s, hs, rfl⟩ := Option.map_eq_some_iff.1 h
        exact .exit hworker hnext hs

/-- A step of the cluster is a step of the service, or the service stays as it is. -/
theorem service_step {op : Op} (h : Stepped S c op c') : c'.service = c.service ∨
    ∃ sop : Service.Op, c.service.step S sop = some c'.service ∧ sop.Parses ∧
      ∀ address uuid pick, sop = .exit address uuid pick → ∃ w worker rest,
        op = .exit w pick ∧ c.workers[w]? = some worker ∧ worker.address = address ∧
          worker.unreported = uuid :: rest := by
  cases h with
  | register _ hs => exact Or.inr ⟨_, hs, trivial, fun _ _ _ heq => by cases heq⟩
  | disconnect hs => exact Or.inr ⟨_, hs, trivial, fun _ _ _ heq => by cases heq⟩
  | @assign gpuMem => exact Or.inr ⟨.assign gpuMem, rfl, trivial, fun _ _ _ heq => by cases heq⟩
  | @proceed r s _ hs => exact Or.inr ⟨.advance r [], hs, trivial, fun _ _ _ heq => by cases heq⟩
  | spawn => exact Or.inl rfl
  | refuse => exact Or.inl rfl
  | lose => exact Or.inl rfl
  | @receive r _ _ _ reply s _ hs =>
    exact Or.inr ⟨.advance r reply, hs, trivial, fun _ _ _ heq => by cases heq⟩
  | @exit w pick worker uuid rest s hworker hnext hs =>
    refine Or.inr ⟨.exit worker.address uuid pick, hs, trivial, ?_⟩
    rintro _ _ _ heq
    cases heq
    exact ⟨w, worker, rest, rfl, hworker, rfl, hnext⟩

end Cluster

/-! ## The nodes stay -/

namespace Service

variable {S : Sorter Nat} {s t u : Service}

/-- The nodes of `s` are nodes of `t`, with the same addresses and the same GPUs. -/
def Extends (s t : Service) : Prop :=
  ∀ (d : Nat) (x : DaemonInfo), s.daemons[d]? = some x →
    ∃ y, t.daemons[d]? = some y ∧ y.address = x.address ∧
      y.gpuList.gpuList.Perm x.gpuList.gpuList ∧
      ∀ k, (y.gpuList.entry k).uuid = (x.gpuList.entry k).uuid

theorem extends_of_daemons (h : t.daemons = s.daemons) : s.Extends t :=
  fun _ x hx => ⟨x, h ▸ hx, rfl, .refl _, fun _ => rfl⟩

theorem Extends.refl (s : Service) : s.Extends s := extends_of_daemons rfl

variable {d : Nat}

theorem extends_setGpuList {daemon : DaemonInfo} {g : GpuList} (hd : s.daemons[d]? = some daemon)
    (horder : g.gpuList.Perm daemon.gpuList.gpuList)
    (huuid : ∀ k, (g.entry k).uuid = (daemon.gpuList.entry k).uuid) :
    s.Extends (s.setGpuList d g) := by
  intro d' x hx
  by_cases heq : d = d'
  · subst heq
    cases hd.symm.trans hx
    refine ⟨{ daemon with gpuList := g }, ?_, rfl, horder, huuid⟩
    rw [setGpuList, List.getElem?_modify, hx, Option.map_eq_map, Option.map_some, if_pos rfl]
  · refine ⟨x, ?_, rfl, .refl _, fun _ => rfl⟩
    rw [setGpuList, List.getElem?_modify, hx, Option.map_eq_map, Option.map_some, if_neg heq]

theorem extends_modify {k : Nat} {daemon : DaemonInfo} {g : GpuList}
    {f : GpuListEntry → GpuListEntry} (hd : s.daemons[d]? = some daemon)
    (hentry : g.entry = (daemon.gpuList.modify k f).entry)
    (horder : g.gpuList.Perm daemon.gpuList.gpuList) (huuid : ∀ e, (f e).uuid = e.uuid) :
    s.Extends (s.setGpuList d g) := by
  refine extends_setGpuList hd horder fun j => ?_
  rw [hentry]
  exact daemon.gpuList.modify_keeps GpuListEntry.uuid (huuid _) j

variable {p p' : Progress} {reply : List ServerAddress} {sizes : List UInt64}

theorem extends_turn (h : Turn S s sizes reply p t p') : s.Extends t := by
  cases h with
  | @reserve d k size rest assigned daemon g hd hfind =>
    obtain ⟨-, -, rfl⟩ := GpuList.find_of_some S hfind
    exact extends_modify hd (f := fun e => e.reserveMemory size) rfl
      (GpuList.perm_unlockedSort S _) fun _ => rfl
  | @revoke d k size assigned next daemon hd =>
    exact extends_modify hd (f := fun e => e.releaseMemory size) rfl
      (GpuList.perm_unlockedSort S _) fun _ => rfl
  | add hd => exact extends_modify hd rfl (.refl _) fun _ => rfl
  | _ => exact .refl s

theorem length_turn (h : Turn S s sizes reply p t p') : t.daemons.length = s.daemons.length := by
  cases h with
  | reserve => exact List.length_modify ..
  | revoke => exact List.length_modify ..
  | add => exact List.length_modify ..
  | _ => rfl

theorem extends_step {op : Op} (h : s.step S op = some t) : s.Extends t := by
  cases op with
  | register address uuid freeMemory =>
    rw [step, registerDaemon] at h
    split_ifs at h
    cases h
    intro d x hx
    exact ⟨x, List.getElem?_append_left (List.getElem?_eq_some_iff.1 hx).1 ▸ hx, rfl, .refl _,
      fun _ => rfl⟩
  | disconnect d' =>
    cases h
    intro d x hx
    refine ⟨if d' = d then { x with isDead := true } else x, ?_, ?_⟩
    · rw [List.getElem?_modify, hx]
      rfl
    · split_ifs
      · exact ⟨rfl, .refl _, fun _ => rfl⟩
      · exact ⟨rfl, .refl _, fun _ => rfl⟩
  | assign gpuMem =>
    cases h
    exact .refl s
  | advance r reply =>
    obtain ⟨q, s', p, -, hturn, rfl⟩ := turn_of_advance h
    exact extends_turn (t := s') hturn
  | throws r reply =>
    obtain ⟨-, _, _, _, -, rfl⟩ := throws_cases h
    exact .refl s
  | exit address uuid pick =>
    rcases exit_cases h with rfl | ⟨d, daemon, k, -, hd, -, rfl⟩
    · exact .refl _
    · exact extends_modify hd rfl (.refl _) fun _ => rfl

theorem requests_turn (h : Turn S s sizes reply p t p') : t.requests = s.requests := by
  cases h <;> rfl

/-- Without a registration the nodes are the same. -/
theorem length_step {op : Op} (h : s.step S op = some t)
    (hop : ∀ address uuid freeMemory, op ≠ .register address uuid freeMemory) :
    t.daemons.length = s.daemons.length := by
  cases op with
  | register address uuid freeMemory => exact absurd rfl (hop address uuid freeMemory)
  | disconnect d =>
    cases h
    exact List.length_modify ..
  | assign gpuMem =>
    cases h
    rfl
  | advance r reply =>
    obtain ⟨q, s', p, -, hturn, rfl⟩ := turn_of_advance h
    exact length_turn (t := s') hturn
  | throws r reply =>
    obtain ⟨-, _, _, _, -, rfl⟩ := throws_cases h
    rfl
  | exit address uuid pick =>
    rcases exit_cases h with rfl | ⟨d, daemon, k, -, hd, -, rfl⟩
    · rfl
    · exact List.length_modify ..

/-- The addresses of all nodes are valid. -/
def AllValid (s : Service) : Prop := ∀ daemon ∈ s.daemons, daemon.address.Valid

theorem AllValid.of_extends (h : s.AllValid) (hext : s.Extends t)
    (hlen : t.daemons.length = s.daemons.length) : t.AllValid := by
  intro y hy
  obtain ⟨d, hd, rfl⟩ := List.mem_iff_getElem.1 hy
  obtain ⟨y, hy', haddress, -⟩ := hext d _ (List.getElem?_eq_getElem (hlen ▸ hd))
  cases (List.getElem?_eq_getElem hd).symm.trans hy'
  rw [haddress]
  exact h _ (List.getElem_mem _)

theorem AllValid.register {address : ServerAddress} {uuid : List String}
    {freeMemory : List UInt64} (h : s.AllValid) (haddress : address.Valid)
    (hstep : s.step S (.register address uuid freeMemory) = some t) : t.AllValid := by
  rw [step, registerDaemon] at hstep
  split_ifs at hstep
  cases hstep
  intro daemon hmem
  rcases List.mem_append.1 hmem with hold | hnew
  · exact h daemon hold
  · rw [List.mem_singleton] at hnew
    rw [hnew]
    exact haddress

/-- The node has a GPU with this number. -/
def HasGpu (s : Service) (d k : Nat) : Prop :=
  ∃ daemon, s.daemons[d]? = some daemon ∧ k ∈ daemon.gpuList.gpuList

theorem HasGpu.of_extends {k : Nat} (h : s.HasGpu d k) (hext : s.Extends t) : t.HasGpu d k := by
  obtain ⟨x, hx, hk⟩ := h
  obtain ⟨y, hy, -, horder, -⟩ := hext d x hx
  exact ⟨y, hy, horder.mem_iff.2 hk⟩

theorem requests_of_exit {address : ServerAddress} {uuid : String} {pick : Nat}
    (h : s.notifyWorkerExit address uuid pick = some t) : t.requests = s.requests := by
  rcases exit_cases h with rfl | ⟨d, daemon, k, -, -, -, rfl⟩
  · rfl
  · rfl

/-! ## What a request holds -/

/-- The reserved sizes are the first ones of the request, on GPUs of the node. -/
def Held (s : Service) (sizes : List UInt64) : Progress → Prop
  | .reserving d rest assigned =>
    assigned.map Prod.snd ++ rest = sizes ∧ ∀ a ∈ assigned, s.HasGpu d a.1
  | .spawning d assigned =>
    assigned.map Prod.snd = sizes ∧ assigned ≠ [] ∧ ∀ a ∈ assigned, s.HasGpu d a.1
  | _ => True

theorem Held.of_extends (h : s.Held sizes p) (hext : s.Extends t) : t.Held sizes p := by
  cases p with
  | reserving d rest assigned => exact ⟨h.1, fun a ha => (h.2 a ha).of_extends hext⟩
  | spawning d assigned => exact ⟨h.1, h.2.1, fun a ha => (h.2.2 a ha).of_extends hext⟩
  | _ => trivial

theorem Held.turn (h : s.Held sizes p) (hturn : Turn S s sizes reply p t p') : t.Held sizes p' := by
  have hext := extends_turn hturn
  cases hturn with
  | enter hd => exact ⟨rfl, fun a ha => absurd ha List.not_mem_nil⟩
  | placed hsome => exact ⟨by simpa using h.1, hsome, h.2⟩
  | @reserve d k size rest assigned daemon g hd hfind =>
    refine ⟨?_, fun a ha => ?_⟩
    · rw [← h.1, List.map_append, List.append_assoc]
      rfl
    · rcases List.mem_append.1 ha with hmem | hmem
      · exact (h.2 a hmem).of_extends hext
      · rw [List.mem_singleton] at hmem
        subst hmem
        exact HasGpu.of_extends ⟨daemon, hd, (GpuList.find_of_some S hfind).1⟩ hext
  | _ => trivial

end Service

/-- The request has not called a daemon yet. -/
def Progress.beforeCall : Progress → Bool
  | .looking _ => true
  | .reserving _ _ _ => true
  | .revoking _ _ (some _) => true
  | _ => false

/-- A request makes one call. -/
theorem Service.Turn.beforeCall {S : Sorter Nat} {s t : Service} {sizes : List UInt64}
    {reply : List ServerAddress} {p p' : Progress} (h : Turn S s sizes reply p t p')
    (hp : p'.beforeCall = true) : p.beforeCall = true := by
  cases h with
  | @revoke d k size assigned next daemon hd =>
    cases next with
    | none => exact hp
    | some n => rfl
  | refused => cases hp
  | spawned => cases hp
  | add => cases hp
  | done => cases hp
  | failed => cases hp
  | _ => rfl

namespace Cluster

variable {S : Sorter Nat} {c c' : Cluster}

/-! ## Runs -/

/-- A request and its call. -/
structure Paired (s : Service) (q : AssignRequest) (call : SpawnCall) : Prop where
  sizes : q.sizes = sortedSizes call.gpuMem
  held : s.Held q.sizes q.progress
  uncalled : q.progress.beforeCall = true → call.reply = none

/-- A server has an address of its node, and its GPUs are GPUs of the node. -/
structure Placed (s : Service) (w : SpawnedWorker) : Prop where
  node : ∃ daemon, s.daemons[w.daemon]? = some daemon ∧ w.address.ip = daemon.address.ip ∧
    ∀ uuid ∈ w.uuid, ∃ k ∈ daemon.gpuList.gpuList, (daemon.gpuList.entry k).uuid = uuid
  address : w.address.Valid
  uuid : w.uuid ≠ []
  unreported : ∀ uuid ∈ w.unreported, uuid ∈ w.uuid

variable {call : SpawnCall} {s : Service}

theorem Paired.of_extends {t : Service} {q : AssignRequest} (h : Paired s q call)
    (hext : s.Extends t) : Paired t q call :=
  ⟨h.sizes, h.held.of_extends hext, h.uncalled⟩

theorem Placed.of_extends {t : Service} {w : SpawnedWorker} (h : Placed s w) (hext : s.Extends t) :
    Placed t w := by
  obtain ⟨x, hx, hip, hgpus⟩ := h.node
  obtain ⟨y, hy, haddress, horder, huuid⟩ := hext _ x hx
  refine ⟨⟨y, hy, haddress ▸ hip, fun uuid hmem => ?_⟩, h.address, h.uuid, h.unreported⟩
  obtain ⟨k, hk, heq⟩ := hgpus uuid hmem
  exact ⟨k, horder.mem_iff.2 hk, (huuid k).trans heq⟩

/-- What holds in every reachable state. -/
structure Sound (c : Cluster) : Prop where
  length : c.calls.length = c.service.requests.length
  paired : ∀ (r : Nat) (q : AssignRequest) (call : SpawnCall), c.service.requests[r]? = some q →
    c.calls[r]? = some call → Paired c.service q call
  placed : ∀ w ∈ c.workers, Placed c.service w
  valid : c.service.AllValid

theorem sound_empty : empty.Sound where
  length := rfl
  paired _ _ _ h := by cases h
  placed _ h := absurd h List.not_mem_nil
  valid _ h := absurd h List.not_mem_nil

variable {assigned : Reservations} {d r : Nat}

/-- A request that waits has an entry for each of its sizes. -/
theorem Sound.length_assigned (hc : c.Sound) (hwaits : c.Waits r d assigned call) :
    call.gpuMem.length = assigned.length := by
  obtain ⟨⟨sizes, hq⟩, hcall⟩ := hwaits
  obtain ⟨hsizes, ⟨hassigned, -⟩, -⟩ := hc.paired r _ _ hq hcall
  have hlen := congrArg List.length hassigned
  rw [List.length_map, hsizes, sortedSizes, List.length_insertionSort] at hlen
  exact hlen.symm

/-- A server that is started is placed. -/
theorem placed_spawn {gpuMem : List UInt64} {daemon : DaemonInfo} {port : Int} (hc : c.Sound)
    (hwaits : c.Waits r d assigned ⟨gpuMem, none⟩) (hd : c.service.daemons[d]? = some daemon)
    (hport : port ≠ 0 ∧ -2 ^ 31 ≤ port ∧ port < 2 ^ 31) :
    Placed c.service ⟨d, ⟨daemon.address.ip, port⟩,
      restoredUuid daemon.gpuList gpuMem assigned,
      restoredUuid daemon.gpuList gpuMem assigned⟩ := by
  have hlen := hc.length_assigned hwaits
  obtain ⟨⟨sizes, hq⟩, hcall⟩ := hwaits
  obtain ⟨hsizes, ⟨hassigned, hsome, hgpus⟩, -⟩ := hc.paired r _ _ hq hcall
  rw [hsizes] at hassigned
  have hvalid := hc.valid daemon (List.mem_of_getElem? hd)
  refine ⟨⟨daemon, hd, rfl, fun uuid huuid => ?_⟩,
    ⟨hvalid.ip, hvalid.colon, hport.1, hport.2.1, hport.2.2⟩, ?_, fun _ h => h⟩
  · obtain ⟨a, ha, heq⟩ := mem_restoredUuid hassigned huuid
    obtain ⟨daemon', hd', hk⟩ := hgpus a ha
    cases hd.symm.trans hd'
    exact ⟨a.1, hk, heq⟩
  · rw [← List.length_pos_iff, length_restoredUuid, hlen, List.length_pos_iff]
    exact hsome

theorem Sound.setReply (hc : c.Sound) (hwaits : c.Waits r d assigned call)
    (reply : List ServerAddress) : (c.setReply r reply).Sound := by
  obtain ⟨⟨sizes, hq⟩, hcall⟩ := hwaits
  refine ⟨(List.length_modify ..).trans hc.length, ?_, hc.placed, hc.valid⟩
  intro r' q' call' hq' hcall'
  rw [Cluster.setReply, List.getElem?_modify] at hcall'
  obtain ⟨old, hold, rfl⟩ := Option.map_eq_some_iff.1 hcall'
  have hpaired := hc.paired r' q' old hq' hold
  split_ifs with heq
  · subst heq
    cases hq.symm.trans hq'
    exact ⟨hpaired.sizes, hpaired.held, fun h => by cases h⟩
  · exact hpaired

theorem Sound.nodes (hc : c.Sound) (hext : c.service.Extends s)
    (hrequests : s.requests = c.service.requests) (hvalid : s.AllValid) :
    { c with service := s }.Sound where
  length := hrequests ▸ hc.length
  paired r q call hq hcall := (hc.paired r q call (hrequests ▸ hq) hcall).of_extends hext
  placed w hw := (hc.placed w hw).of_extends hext
  valid := hvalid

theorem Sound.advance {reply : List ServerAddress} (hc : c.Sound)
    (h : c.service.advance S r reply = some s) : { c with service := s }.Sound := by
  obtain ⟨q, s', p, hq, hturn, rfl⟩ := Service.turn_of_advance h
  have hnodes := hc.nodes (Service.extends_turn hturn) (Service.requests_turn hturn)
    (hc.valid.of_extends (Service.extends_turn hturn) (Service.length_turn hturn))
  have hlast : s'.Extends (s'.setProgress r p) := Service.extends_of_daemons rfl
  refine ⟨hnodes.length.trans (List.length_modify ..).symm, ?_,
    fun w hw => (hnodes.placed w hw).of_extends hlast, hnodes.valid⟩
  intro r' q' call hq' hcall
  obtain ⟨old, hold, rfl⟩ := Option.map_eq_some_iff.1
    ((List.getElem?_modify (l := s'.requests) ..).symm.trans hq')
  have hpaired := (hnodes.paired r' old call hold hcall).of_extends hlast
  split_ifs with heq
  · subst heq
    rw [Service.requests_turn hturn] at hold
    cases hq.symm.trans hold
    have hheld := (hc.paired r q call hq hcall).held.turn hturn
    exact ⟨hpaired.sizes, hheld.of_extends hlast,
      fun hbefore => hpaired.uncalled (hturn.beforeCall hbefore)⟩
  · exact hpaired

/-- Of the servers only one changes, and only in what is left of its notice. -/
theorem Sound.report {w : Nat} {worker : SpawnedWorker} {uuid : String} {rest : List String}
    (hc : { c with service := s }.Sound) (hworker : c.workers[w]? = some worker)
    (hnext : worker.unreported = uuid :: rest) : (c.report s w rest).Sound := by
  refine ⟨hc.length, hc.paired, fun w' hw' => ?_, hc.valid⟩
  obtain ⟨i, hi⟩ := List.mem_iff_getElem?.1 hw'
  rw [Cluster.report, List.getElem?_modify] at hi
  obtain ⟨old, hold, rfl⟩ := Option.map_eq_some_iff.1 hi
  have hplaced := hc.placed old (List.mem_of_getElem? hold)
  split_ifs with heq
  · subst heq
    cases hworker.symm.trans hold
    refine ⟨hplaced.node, hplaced.address, hplaced.uuid, fun u hu => hplaced.unreported u ?_⟩
    rw [hnext]
    exact List.mem_cons_of_mem _ hu
  · exact hplaced

theorem Sound.step {op : Op} (hc : c.Sound) (h : c.step S op = some c') : c'.Sound := by
  cases stepped_of_step h with
  | register hparsed hs =>
    refine hc.nodes (Service.extends_step hs) ?_
      (hc.valid.register (ServerAddress.valid_of_ofString hparsed) hs)
    rw [Service.step, Service.registerDaemon] at hs
    split_ifs at hs
    cases hs
    rfl
  | disconnect hs =>
    have hext := Service.extends_step hs
    have hvalid := hc.valid.of_extends hext
      (Service.length_step hs fun _ _ _ heq => by cases heq)
    cases hs
    exact hc.nodes hext rfl hvalid
  | @assign gpuMem =>
    have hext : c.service.Extends (c.service.assignWorker gpuMem) :=
      Service.extends_of_daemons rfl
    refine ⟨?_, fun r q call hq hcall => ?_, fun w hw => (hc.placed w hw).of_extends hext,
      hc.valid⟩
    · rw [List.length_append, hc.length, Service.assignWorker, List.length_append]
      rfl
    · rcases Nat.lt_or_ge r c.calls.length with hlt | hge
      · rw [List.getElem?_append_left hlt] at hcall
        rw [Service.assignWorker, List.getElem?_append_left (hc.length ▸ hlt)] at hq
        exact (hc.paired r q call hq hcall).of_extends hext
      · -- the new request is the last one
        rw [List.getElem?_append_right hge, List.getElem?_singleton] at hcall
        rw [Service.assignWorker, List.getElem?_append_right (hc.length ▸ hge),
          List.getElem?_singleton, ← hc.length] at hq
        split_ifs at hcall hq
        · cases hcall
          cases hq
          exact ⟨rfl, trivial, fun _ => rfl⟩
        · cases hcall
          cases hq
          exact ⟨rfl, trivial, fun _ => rfl⟩
  | proceed _ hs => exact hc.advance hs
  | @spawn r d assigned gpuMem daemon port hwaits hd hport =>
    have hset := hc.setReply hwaits [⟨daemon.address.ip, port⟩]
    refine ⟨hset.length, hset.paired, fun w hw => ?_, hset.valid⟩
    rcases List.mem_append.1 hw with hold | hnew
    · exact hc.placed w hold
    · rw [List.mem_singleton] at hnew
      rw [hnew]
      exact placed_spawn (c := c) hc hwaits hd hport
  | refuse hwaits => exact hc.setReply hwaits []
  | lose hwaits => exact hc.setReply hwaits []
  | receive _ hs => exact hc.advance hs
  | @exit w pick worker uuid rest s hworker hnext hs =>
    have hs' : c.service.step S (.exit worker.address uuid pick) = some s := hs
    have hext := Service.extends_step hs'
    have hlen := Service.length_step hs' fun _ _ _ heq => by cases heq
    have hnodes := hc.nodes hext (Service.requests_of_exit hs) (hc.valid.of_extends hext hlen)
    exact hnodes.report hworker hnext

theorem sound_of_reaches {ok : Cluster → Op → Prop} (h : Reaches (Cluster.step S) ok empty c) :
    c.Sound :=
  h.invariant (fun _ _ _ hc _ hstep => hc.step hstep) sound_empty

end Cluster

end Ava.Manager
