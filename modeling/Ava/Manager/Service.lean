import Ava.Lib.Decimal
import Ava.Lib.Transition
import Ava.Manager.GpuList

/-!
# The manager service

`worker/katana/manager.cpp` answers three kinds of messages. A daemon registers the GPUs of its
node. An application asks for an API server that can use GPUs with given amounts of memory: the
manager reserves the memory on the first node that has enough, asks the daemon of the node to start
the server, and notes the server at the GPUs, or gives the memory back. A daemon reports the end of
a server.

`doAssignWorker` is the code of a request, run by itself. In the service requests run at the same
time; `advance` is the next step of a request up to the point where the lock of a list is released.
The reply of the daemon, as `SpawnWorker` returns it, is part of the step. If an address in the reply
is not valid, `SpawnWorker` throws instead, and nothing catches the exception: this is the end of the
request (`spawnThrows`).
-/

set_option autoImplicit false

namespace Ava.Manager

open Ava.Lib

/-- `ServerAddress(std::string)`. There is no result if it throws: without a colon, an IP or a port
number. -/
def ServerAddress.ofString (address : String) : Option ServerAddress :=
  match address.toList.dropWhile (· ≠ ':') with
  | [] => none
  | _ :: port =>
    let ip := address.toList.takeWhile (· ≠ ':')
    match stoi port with
    | none => none
    | some port => if ip = [] ∨ port = 0 then none else some ⟨String.ofList ip, port⟩

/-- The loop of `DaemonServiceClient::SpawnWorker` over the addresses that the daemon sends back.
There is no result if one of them throws. -/
def parseReply (reply : List String) : Option (List ServerAddress) :=
  reply.mapM ServerAddress.ofString

/-- `isDead` is the state of the connection to the daemon. -/
structure DaemonInfo where
  address : ServerAddress
  isDead : Bool
  gpuList : GpuList

/-- The memory that a request has reserved: the entry and the size. -/
abbrev Reservations := List (Nat × UInt64)

/-- The sizes that are assigned to one entry, in order. -/
def sizesAt (assigned : Reservations) (k : Nat) : List UInt64 :=
  (assigned.filter fun a => a.1 = k).map Prod.snd

section Assign

variable (S : Sorter Nat)

/-! ## A request by itself -/

/-- The requested sizes, the largest first. -/
def sortedSizes (gpuMem : List UInt64) : List UInt64 := gpuMem.insertionSort fun a b => b ≤ a

/-- The loops that revoke assigned entries. -/
def revokeAll (g : GpuList) (assigned : Reservations) : GpuList :=
  assigned.foldl (fun g a => g.revokeEntryWithMemory S a.1 a.2) g

/-- The loop over the sizes on one node. If a size does not fit nothing stays assigned. -/
def reserveAll : GpuList → List UInt64 → Reservations → Reservations × GpuList
  | g, [], assigned => (assigned, g)
  | g, size :: sizes, assigned =>
    match g.findEntryAndReserveMemory S size with
    -- the list that is searched for the next size is sorted anew
    | some (k, g') => reserveAll g' sizes (assigned ++ [(k, size)])
    | none => ([], revokeAll S g assigned)

/-- The loop over the nodes: the index of the node and what is assigned on it. -/
def lookUp (sizes : List UInt64) :
    List DaemonInfo → Option (Nat × Reservations) × List DaemonInfo
  | [] => (none, [])
  | daemon :: daemons =>
    if daemon.isDead then
      let r := lookUp sizes daemons
      (r.1.map fun found => (found.1 + 1, found.2), daemon :: r.2)
    else
      let r := reserveAll S daemon.gpuList sizes []
      let daemon := { daemon with gpuList := r.2 }
      if r.1.isEmpty then
        let r := lookUp sizes daemons
        (r.1.map fun found => (found.1 + 1, found.2), daemon :: r.2)
      else (some (0, r.1), daemon :: daemons)

/-- The index of the first free place of a size. -/
def freePlace (gpuMem : List UInt64) (restored : List String) (size : UInt64) : Option Nat :=
  (List.range gpuMem.length).find? fun j => size == gpuMem.getD j 0 && (restored.getD j "").isEmpty

/-- One round of the loop that restores the order of the request. -/
def placeUuid (g : GpuList) (gpuMem : List UInt64) (restored : List String) (a : Nat × UInt64) :
    List String :=
  match freePlace gpuMem restored a.2 with
  | some j => restored.set j (g.entry a.1).uuid
  | none => restored

/-- The uuids of the assigned GPUs in the order of the request. -/
def restoredUuid (g : GpuList) (gpuMem : List UInt64) (assigned : Reservations) : List String :=
  assigned.foldl (placeUuid g gpuMem) (List.replicate gpuMem.length "")

/-- The loop that notes the server at its GPUs. -/
def addAll (g : GpuList) (address : ServerAddress) (assigned : Reservations) : GpuList :=
  assigned.foldl (fun g a => g.modify a.1 fun e => e.addBusyWorker address a.2) g

/-- `DoAssignWorker`, where `spawn` is what `SpawnWorker` returns. -/
def doAssignWorker (spawn : ServerAddress → List String → List UInt64 → List ServerAddress)
    (daemons : List DaemonInfo) (gpuMem : List UInt64) : List ServerAddress × List DaemonInfo :=
  if gpuMem.isEmpty then ([], daemons)
  else
    match lookUp S (sortedSizes gpuMem) daemons with
    | (none, daemons) => ([], daemons)
    | (some (d, assigned), daemons) =>
      match daemons[d]? with
      | none => ([], daemons)
      | some daemon =>
        match spawn daemon.address (restoredUuid daemon.gpuList gpuMem assigned) gpuMem with
        | [] => ([], daemons.set d
            { daemon with gpuList := revokeAll S daemon.gpuList assigned })
        | address :: more => (address :: more, daemons.set d
            { daemon with gpuList := addAll daemon.gpuList address assigned })

/-! ## The service -/

/-- Where a request is. -/
inductive Progress where
  | looking (daemon : Nat)
  | reserving (daemon : Nat) (sizes : List UInt64) (assigned : Reservations)
  | revoking (daemon : Nat) (assigned : Reservations) (next : Option Nat)
  | spawning (daemon : Nat) (assigned : Reservations)
  | adding (daemon : Nat) (reply : List ServerAddress) (address : ServerAddress)
      (assigned : Reservations)
  | finished (reply : List ServerAddress)
  | thrown

/-- A request and its progress. -/
structure AssignRequest where
  sizes : List UInt64
  progress : Progress

structure Service where
  daemons : List DaemonInfo
  requests : List AssignRequest

namespace Service

def empty : Service := ⟨[], []⟩

/-- The list of a node is replaced. -/
def setGpuList (s : Service) (d : Nat) (g : GpuList) : Service :=
  { s with daemons := s.daemons.modify d fun daemon => { daemon with gpuList := g } }

/-- A request goes on. -/
def setProgress (s : Service) (r : Nat) (progress : Progress) : Service :=
  { s with requests := s.requests.modify r fun q => { q with progress := progress } }

/-- `RegisterDaemon`. There is no result if there are more sizes than GPUs; the free memory of a GPU
without a size is 0. -/
def registerDaemon (s : Service) (address : ServerAddress) (uuid : List String)
    (freeMemory : List UInt64) : Option Service :=
  if uuid.length < freeMemory.length then none
  else
    let entry := fun k => ⟨uuid.getD k "", freeMemory.getD k 0, [], 0, freeMemory.getD k 0⟩
    some { s with daemons := s.daemons ++ [⟨address, false, .addEntries S entry uuid.length⟩] }

/-- `AssignWorker`, up to the search. -/
def assignWorker (s : Service) (gpuMem : List UInt64) : Service :=
  { s with requests := s.requests ++
      [⟨sortedSizes gpuMem, if gpuMem.isEmpty then .finished [] else .looking 0⟩] }

/-- The next step of a request. -/
def advance (s : Service) (r : Nat) (reply : List ServerAddress) : Option Service :=
  match s.requests[r]? with
  | none => none
  | some q =>
    match q.progress with
    | .looking d =>
      -- the head of the loop over the daemons, and the check of the connection
      match s.daemons[d]? with
      | none => some (s.setProgress r (.finished []))
      | some daemon =>
        if daemon.isDead then some (s.setProgress r (.looking (d + 1)))
        else some (s.setProgress r (.reserving d q.sizes []))
    | .reserving d [] assigned =>
      -- all sizes have an entry; the loop over the daemons ends unless there were no sizes
      if assigned.isEmpty then some (s.setProgress r (.looking (d + 1)))
      else some (s.setProgress r (.spawning d assigned))
    | .reserving d (size :: sizes) assigned =>
      match s.daemons[d]? with
      | none => none
      | some daemon =>
        match daemon.gpuList.findEntryAndReserveMemory S size with
        | some (k, g) => some ((s.setGpuList d g).setProgress r
            (.reserving d sizes (assigned ++ [(k, size)])))
        | none => some (s.setProgress r (.revoking d assigned (some (d + 1))))
    -- the entries are revoked one by one, after a size that does not fit or without a server
    | .revoking _ [] (some next) => some (s.setProgress r (.looking next))
    | .revoking _ [] none => some (s.setProgress r (.finished []))
    | .revoking d ((k, size) :: assigned) next =>
      match s.daemons[d]? with
      | none => none
      | some daemon => some ((s.setGpuList d
          (daemon.gpuList.revokeEntryWithMemory S k size)).setProgress r
            (.revoking d assigned next))
    | .spawning d assigned =>
      -- no list is locked while the daemon starts the server
      match reply with
      | [] => some (s.setProgress r (.revoking d assigned none))
      | address :: _ => some (s.setProgress r (.adding d reply address assigned))
    | .adding _ reply _ [] => some (s.setProgress r (.finished reply))
    | .adding d reply address ((k, size) :: assigned) =>
      match s.daemons[d]? with
      | none => none
      | some daemon => some ((s.setGpuList d
          (daemon.gpuList.modify k fun e => e.addBusyWorker address size)).setProgress r
            (.adding d reply address assigned))
    | .finished _ | .thrown => none

/-- `SpawnWorker` throws while it parses the reply. The exception leaves `DoAssignWorker`: what the
request has reserved is neither revoked nor noted. -/
def spawnThrows (s : Service) (r : Nat) : Option Service :=
  match s.requests[r]? with
  | some ⟨_, .spawning _ _⟩ => some (s.setProgress r .thrown)
  | _ => none

/-- `FindDaemonByIp`. -/
def findDaemonByIp (s : Service) (ip : String) : Option Nat :=
  s.daemons.findIdx? fun daemon => daemon.address.ip == ip

/-- `NotifyWorkerExit`, for one of the GPUs of the server. There is no result if the GPU is unknown,
and the pointer to its entry null. -/
def notifyWorkerExit (s : Service) (address : ServerAddress) (uuid : String) (pick : Nat) :
    Option Service :=
  match s.findDaemonByIp address.ip with
  | none => some s
  | some d =>
    match s.daemons[d]? with
    | none => none
    | some daemon =>
      match daemon.gpuList.findEntryByUuid uuid with
      | none => none
      | some k => some (s.setGpuList d
          (daemon.gpuList.modify k fun e => e.removeBusyWorker address pick))

inductive Op where
  | register (address : ServerAddress) (uuid : List String) (freeMemory : List UInt64)
  | disconnect (daemon : Nat)
  | assign (gpuMem : List UInt64)
  | advance (request : Nat) (reply : List ServerAddress)
  | throws (request : Nat) (reply : List String)
  | exit (address : ServerAddress) (uuid : String) (pick : Nat)

/-- The reply of a daemon, where there is one, parses. -/
def Op.Parses : Op → Prop
  | .throws _ _ => False
  | _ => True

instance : DecidablePred Op.Parses
  | .throws _ _ => inferInstanceAs (Decidable False)
  | .register _ _ _ | .disconnect _ | .assign _ | .advance _ _ | .exit _ _ _ =>
    inferInstanceAs (Decidable True)

def step (s : Service) : Op → Option Service
  | .register address uuid freeMemory => s.registerDaemon S address uuid freeMemory
  | .disconnect d => some
      { s with daemons := s.daemons.modify d fun daemon => { daemon with isDead := true } }
  | .assign gpuMem => some (s.assignWorker gpuMem)
  | .advance r reply => s.advance S r reply
  | .throws r reply => if (parseReply reply).isSome then none else s.spawnThrows r
  | .exit address uuid pick => s.notifyWorkerExit address uuid pick

end Service

end Assign

end Ava.Manager
