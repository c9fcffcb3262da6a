import Ava.Manager.Accounts

/-!
# Exit notices

A daemon reports the end of an API server with the address of the server and the uuids of its GPUs.
`NotifyWorkerExit` parses the address, finds the first node with the IP, and for every uuid takes
the server out of the entry and gives its memory back. `notifyWorkerExit` is one turn of the loop;
here is the whole handler, and what it does with a notice about a server that is not known.
-/

set_option autoImplicit false

namespace Ava.Manager

open Ava.Lib

/-- `WorkerExitNotifyRequest`. -/
structure WorkerExitNotifyRequest where
  workerAddress : String
  uuid : List String

/-- The loop over the GPUs of the server; `pick` is for each of them, by the number of those that
follow. -/
def removeFromAll (address : ServerAddress) (pick : Nat → Nat) :
    List String → GpuList → Option GpuList
  | [], g => some g
  | uuid :: rest, g =>
    match g.findEntryByUuid uuid with
    -- the pointer to the entry is null
    | none => none
    | some k =>
      removeFromAll address pick rest
        (g.modify k fun e => e.removeBusyWorker address (pick rest.length))

namespace Service

/-- `NotifyWorkerExit`. There is no result if it reads the first of no uuids or goes through a null
pointer. An address that is not valid, or of an unknown node, is an error for the daemon. -/
def handleWorkerExit (s : Service) (request : WorkerExitNotifyRequest) (pick : Nat → Nat) :
    Option Service :=
  match ServerAddress.ofString request.workerAddress with
  | none => some s
  | some address =>
    if request.uuid.isEmpty then none
    else
      match s.findDaemonByIp address.ip with
      | none => some s
      | some d =>
        match s.daemons[d]? with
        | none => none
        | some daemon =>
          (removeFromAll address pick request.uuid daemon.gpuList).map (s.setGpuList d)

end Service

/-! ## Addresses -/

/-- An address that can be sent as a text. -/
structure ServerAddress.Valid (a : ServerAddress) : Prop where
  ip : a.ip ≠ ""
  colon : ':' ∉ a.ip.toList
  port : a.port ≠ 0
  lower : -2 ^ 31 ≤ a.port
  upper : a.port < 2 ^ 31

theorem ServerAddress.toList_getAddress (a : ServerAddress) :
    a.getAddress.toList = a.ip.toList ++ ':' :: (toString a.port).toList := by
  rw [getAddress, String.toList_append, String.toList_append, List.append_assoc]
  rfl

variable {a : ServerAddress}

theorem ServerAddress.ofString_eq_some_iff {address : String} :
    ofString address = some a ↔ ∃ c port, address.toList.dropWhile (· ≠ ':') = c :: port ∧
      stoi port = some a.port ∧ a.port ≠ 0 ∧
      a.ip.toList = address.toList.takeWhile (· ≠ ':') ∧ a.ip ≠ "" := by
  rw [ofString]
  cases hrest : address.toList.dropWhile (· ≠ ':') with
  | nil => simp
  | cons c port =>
    cases hport : stoi port with
    | none => simp [hport]
    | some p =>
      -- the texts of two addresses are compared as lists of characters
      have hip : ∀ ip : String, String.ofList (address.toList.takeWhile (· ≠ ':')) = ip ↔
          ip.toList = address.toList.takeWhile (· ≠ ':') := by
        intro ip
        rw [← String.toList_inj, String.toList_ofList, eq_comm]
      obtain ⟨ip, port'⟩ := a
      constructor
      · intro h
        dsimp only at h
        rw [hport] at h
        dsimp only at h
        split_ifs at h with hbad
        obtain ⟨hne, hzero⟩ := not_or.1 hbad
        obtain ⟨htext, rfl⟩ := ServerAddress.mk.inj (Option.some.inj h)
        refine ⟨c, port, rfl, hport, hzero, (hip ip).1 htext, ?_⟩
        rintro rfl
        exact hne ((hip "").1 htext).symm
      · rintro ⟨c', port'', heq, hport', hzero, htext, hne⟩
        cases heq
        dsimp only
        rw [hport']
        dsimp only
        rw [if_neg, (hip ip).2 htext]
        rintro (hempty | hzero')
        · rw [hempty] at htext
          exact hne (String.toList_eq_nil_iff.1 htext)
        · exact hzero hzero'

/-- What the daemon sends is what it means. -/
theorem ServerAddress.Valid.ofString_getAddress (h : a.Valid) : ofString a.getAddress = some a := by
  have hip : ∀ c ∈ a.ip.toList, decide (c ≠ ':') = true := by
    intro c hc
    rw [decide_eq_true_iff]
    rintro rfl
    exact h.colon hc
  have hrest : a.getAddress.toList.dropWhile (· ≠ ':') = ':' :: (toString a.port).toList := by
    rw [toList_getAddress, List.dropWhile_append_of_pos hip]
    rfl
  have htext : a.getAddress.toList.takeWhile (· ≠ ':') = a.ip.toList := by
    rw [toList_getAddress, List.takeWhile_append_of_pos hip]
    exact List.append_nil _
  rw [ofString_eq_some_iff, htext]
  exact ⟨_, _, hrest, stringToSigned_eq_some (strtol_toString a.port) h.lower h.upper, h.port,
    rfl, h.ip⟩

/-- An address that has been parsed is valid. -/
theorem ServerAddress.valid_of_ofString {address : String} (h : ofString address = some a) :
    a.Valid := by
  obtain ⟨c, port, -, hport, hzero, htext, hne⟩ := ofString_eq_some_iff.1 h
  obtain ⟨hle, hlt⟩ := stringToSigned_bounds hport
  refine ⟨hne, ?_, hzero, hle, hlt⟩
  rw [htext]
  intro hmem
  have hcolon := List.mem_takeWhile_imp hmem
  exact absurd hcolon (by decide)

/-! ## The loop -/

theorem GpuListEntry.removeBusyWorker_counter (e : GpuListEntry) (address : ServerAddress)
    (pick : Nat) : (e.removeBusyWorker address pick).workerCounter = e.workerCounter - 1 := rfl

theorem GpuListEntry.removeBusyWorker_uuid (e : GpuListEntry) (address : ServerAddress)
    (pick : Nat) : (e.removeBusyWorker address pick).uuid = e.uuid := rfl

theorem GpuList.findEntryByUuid_eq_none_iff (g : GpuList) (uuid : String) :
    g.findEntryByUuid uuid = none ↔ ∀ k ∈ g.gpuList, (g.entry k).uuid ≠ uuid := by
  rw [findEntryByUuid, List.find?_eq_none]
  simp

/-- A turn of the loop raises no counter. -/
theorem counter_modify_le (g : GpuList) (k : Nat) (address : ServerAddress) (pick j : Nat) :
    ((g.modify k fun e => e.removeBusyWorker address pick).entry j).workerCounter ≤
      (g.entry j).workerCounter := by
  by_cases hj : j = k
  · subst hj
    rw [GpuList.modify_entry_self, GpuListEntry.removeBusyWorker_counter]
    omega
  · rw [GpuList.modify_entry_of_ne g _ hj]

/-- A turn of the loop finds the entry of its uuid. -/
theorem removeFromAll_cons {address : ServerAddress} {pick : Nat → Nat} {u : String}
    {rest : List String} {g g' : GpuList}
    (h : removeFromAll address pick (u :: rest) g = some g') :
    ∃ k, g.findEntryByUuid u = some k ∧ removeFromAll address pick rest
      (g.modify k fun e => e.removeBusyWorker address (pick rest.length)) = some g' := by
  rw [removeFromAll] at h
  cases hk : g.findEntryByUuid u with
  | none =>
    rw [hk] at h
    cases h
  | some k =>
    rw [hk] at h
    exact ⟨k, rfl, h⟩

/-- The loop raises no counter. -/
theorem counter_removeFromAll_le {address : ServerAddress} {pick : Nat → Nat} :
    ∀ {uuid : List String} {g g' : GpuList}, removeFromAll address pick uuid g = some g' →
      ∀ j, (g'.entry j).workerCounter ≤ (g.entry j).workerCounter
  | [], g, g', h, j => by
    cases h
    exact le_rfl
  | u :: rest, g, g', h, j => by
    obtain ⟨k, -, hrest⟩ := removeFromAll_cons h
    exact (counter_removeFromAll_le hrest j).trans (counter_modify_le g k address _ j)

/-- With at least one uuid the loop lowers a counter, whether or not it finds the server. -/
theorem counter_removeFromAll_lt {address : ServerAddress} {pick : Nat → Nat} {u : String}
    {rest : List String} {g g' : GpuList} (h : removeFromAll address pick (u :: rest) g = some g') :
    ∃ k, (g'.entry k).workerCounter < (g.entry k).workerCounter := by
  obtain ⟨k, -, hrest⟩ := removeFromAll_cons h
  refine ⟨k, (counter_removeFromAll_le hrest k).trans_lt ?_⟩
  rw [GpuList.modify_entry_self, GpuListEntry.removeBusyWorker_counter]
  omega

namespace Service

/-! ## The handler -/

theorem findDaemonByIp_eq_none_iff (s : Service) (ip : String) :
    s.findDaemonByIp ip = none ↔ ∀ daemon ∈ s.daemons, daemon.address.ip ≠ ip := by
  rw [findDaemonByIp, List.findIdx?_eq_none_iff]
  simp

variable {d : Nat} {s : Service}

/-- The node that is found is the first one with the IP. -/
theorem findDaemonByIp_eq_some {ip : String} (h : s.findDaemonByIp ip = some d) :
    ∃ daemon, s.daemons[d]? = some daemon ∧ daemon.address.ip = ip ∧
      ∀ d' < d, ∀ daemon', s.daemons[d']? = some daemon' → daemon'.address.ip ≠ ip := by
  obtain ⟨hlt, hip, hfirst⟩ := List.findIdx?_eq_some_iff_getElem.1 h
  refine ⟨s.daemons[d], List.getElem?_eq_getElem hlt, beq_iff_eq.1 hip, ?_⟩
  intro d' hd' daemon' hdaemon' heq
  obtain ⟨hlt', rfl⟩ := List.getElem?_eq_some_iff.1 hdaemon'
  exact hfirst d' hd' (beq_iff_eq.2 heq)

theorem findDaemonByIp_eq (s : Service) (ip : String) :
    s.findDaemonByIp ip = (s.daemons.map fun daemon => daemon.address.ip).findIdx? (· == ip) := by
  rw [findDaemonByIp, List.findIdx?_map]
  rfl

theorem findDaemonByIp_setGpuList (s : Service) (d : Nat) (g : GpuList) (ip : String) :
    (s.setGpuList d g).findDaemonByIp ip = s.findDaemonByIp ip := by
  have hips : (s.setGpuList d g).daemons.map (fun daemon => daemon.address.ip) =
      s.daemons.map fun daemon => daemon.address.ip := by
    refine map_modify_of_keeps (F := fun daemon : DaemonInfo => daemon.address.ip) ?_ s.daemons d
    exact fun _ => rfl
  rw [findDaemonByIp_eq, findDaemonByIp_eq, hips]

theorem setGpuList_self {daemon : DaemonInfo} (hd : s.daemons[d]? = some daemon) :
    s.setGpuList d daemon.gpuList = s := by
  rw [setGpuList]
  refine congrArg (fun daemons => (⟨daemons, s.requests⟩ : Service)) (List.ext_getElem? fun i => ?_)
  rw [List.getElem?_modify]
  split_ifs with hi
  · subst hi
    rw [hd]
    rfl
  · cases s.daemons[i]? <;> rfl

theorem setGpuList_setGpuList (s : Service) (d : Nat) (g h : GpuList) :
    (s.setGpuList d g).setGpuList d h = s.setGpuList d h := by
  rw [setGpuList, setGpuList, setGpuList, List.modify_modify_eq]
  rfl

/-- The turns of the loop are steps of the service. -/
theorem reaches_removeFromAll (S : Sorter Nat) {address : ServerAddress} {pick : Nat → Nat}
    {d : Nat} :
    ∀ {uuid : List String} {s : Service} {daemon : DaemonInfo} {g' : GpuList},
      s.findDaemonByIp address.ip = some d → s.daemons[d]? = some daemon →
      removeFromAll address pick uuid daemon.gpuList = some g' →
      Reaches (step S) (fun _ op => ∃ u ∈ uuid, ∃ p, op = .exit address u p)
        s (s.setGpuList d g')
  | [], s, daemon, g', hip, hd, h => by
    cases h
    rw [setGpuList_self hd]
  | u :: rest, s, daemon, g', hip, hd, h => by
    obtain ⟨k, hk, hturns⟩ := removeFromAll_cons h
    set g := daemon.gpuList.modify k fun e => e.removeBusyWorker address (pick rest.length)
      with hg
    have hfirst : s.step S (.exit address u (pick rest.length)) =
        some (s.setGpuList d g) := by
      rw [step, notifyWorkerExit, hip]
      dsimp only
      rw [hd]
      dsimp only
      rw [hk]
    have hnode : (s.setGpuList d g).daemons[d]? = some { daemon with gpuList := g } := by
      rw [setGpuList, List.getElem?_modify, hd, Option.map_eq_map, Option.map_some,
        if_pos rfl]
    have hrest := reaches_removeFromAll S
      ((findDaemonByIp_setGpuList s d g address.ip).trans hip) hnode hturns
    rw [setGpuList_setGpuList] at hrest
    refine .head ⟨_, ⟨u, List.mem_cons_self .., _, rfl⟩, hfirst⟩ (hrest.mono ?_)
    rintro _ op ⟨u', hu', p, rfl⟩
    exact ⟨u', List.mem_cons_of_mem _ hu', p, rfl⟩

variable {pick : Nat → Nat} {request : WorkerExitNotifyRequest}

/-- Handling a notice is a run of the service. -/
theorem reaches_handleWorkerExit (S : Sorter Nat) {t : Service}
    (h : s.handleWorkerExit request pick = some t) : Reaches (step S) (fun _ _ => True) s t := by
  rw [handleWorkerExit] at h
  cases haddress : ServerAddress.ofString request.workerAddress with
  | none =>
    rw [haddress] at h
    cases h
    exact .refl
  | some address =>
    rw [haddress] at h
    dsimp only at h
    split_ifs at h
    cases hip : s.findDaemonByIp address.ip with
    | none =>
      rw [hip] at h
      cases h
      exact .refl
    | some d =>
      obtain ⟨daemon, hd, -⟩ := findDaemonByIp_eq_some hip
      rw [hip] at h
      dsimp only at h
      rw [hd] at h
      obtain ⟨g, hg, rfl⟩ := Option.map_eq_some_iff.1 h
      exact (reaches_removeFromAll S hip hd hg).mono fun _ _ _ => trivial

/-! ## Notices about unknown servers -/

/-- The handler reaches the loop. -/
theorem handleWorkerExit_known {address : ServerAddress} {daemon : DaemonInfo}
    (haddress : ServerAddress.ofString request.workerAddress = some address)
    (huuid : request.uuid ≠ []) (hip : s.findDaemonByIp address.ip = some d)
    (hd : s.daemons[d]? = some daemon) :
    s.handleWorkerExit request pick =
      (removeFromAll address pick request.uuid daemon.gpuList).map (s.setGpuList d) := by
  rw [handleWorkerExit, haddress]
  dsimp only
  rw [if_neg (by rwa [List.isEmpty_iff]), hip]
  dsimp only
  rw [hd]

/-- A notice that reaches the loop lowers a counter of the node, if it is handled at all. -/
theorem handleWorkerExit_lowers {t : Service} {address : ServerAddress}
    (haddress : ServerAddress.ofString request.workerAddress = some address)
    (huuid : request.uuid ≠ []) (hip : s.findDaemonByIp address.ip = some d)
    (h : s.handleWorkerExit request pick = some t) :
    ∃ k, (t.entryOf d k).workerCounter < (s.entryOf d k).workerCounter := by
  obtain ⟨daemon, hd, -⟩ := findDaemonByIp_eq_some hip
  rw [handleWorkerExit_known haddress huuid hip hd] at h
  obtain ⟨g, hg, rfl⟩ := Option.map_eq_some_iff.1 h
  obtain ⟨u, rest, hcons⟩ := List.exists_cons_of_ne_nil huuid
  rw [hcons] at hg
  obtain ⟨k, hk⟩ := counter_removeFromAll_lt hg
  refine ⟨k, ?_⟩
  rw [entryOf_setGpuList s hd, if_pos rfl, entryOf, hd]
  exact hk

/-- For every state and every notice, whichever server and GPUs it names: the handler returns and
no GPU changes if and only if the address does not parse, or there are uuids and no node has the
IP. -/
theorem exit_notice_neutral_iff (s : Service) (request : WorkerExitNotifyRequest)
    (pick : Nat → Nat) :
    (∃ t, s.handleWorkerExit request pick = some t ∧ ∀ d k, t.entryOf d k = s.entryOf d k) ↔
      (∀ address, ServerAddress.ofString request.workerAddress = some address →
        request.uuid ≠ [] ∧ ∀ daemon ∈ s.daemons, daemon.address.ip ≠ address.ip) := by
  constructor
  · rintro ⟨t, ht, hsame⟩ address haddress
    have huuid : request.uuid ≠ [] := by
      intro hempty
      rw [handleWorkerExit, haddress] at ht
      dsimp only at ht
      rw [if_pos (by rw [hempty]; rfl)] at ht
      cases ht
    refine ⟨huuid, ?_⟩
    rw [← findDaemonByIp_eq_none_iff]
    cases hip : s.findDaemonByIp address.ip with
    | none => rfl
    | some d =>
      obtain ⟨k, hk⟩ := handleWorkerExit_lowers haddress huuid hip ht
      rw [hsame] at hk
      exact absurd hk (lt_irrefl _)
  · intro h
    refine ⟨s, ?_, fun _ _ => rfl⟩
    rw [handleWorkerExit]
    cases haddress : ServerAddress.ofString request.workerAddress with
    | none => rfl
    | some address =>
      obtain ⟨huuid, hnone⟩ := h address haddress
      rw [← findDaemonByIp_eq_none_iff] at hnone
      dsimp only
      rw [if_neg (by rwa [List.isEmpty_iff]), hnone]

/-- One node with the GPU `A`, on which the server at port 4000 runs. -/
def oneServer : Service where
  daemons := [⟨⟨"10.0.0.1", 3333⟩, false,
    ⟨fun _ => ⟨"A", 60, [⟨⟨"10.0.0.1", 4000⟩, 40⟩], 1, 100⟩, [0]⟩⟩]
  requests := []

/-- A notice about a server that the manager does not know lowers the counter of the GPU. So does a
second notice about a server that has already been reported; and with an unknown uuid the handler
goes through a null pointer. -/
theorem bogus_exit_notices_take_effect :
    (oneServer.handleWorkerExit ⟨"10.0.0.1:5000", ["A"]⟩ (fun _ => 0)).map
        (fun t => t.entryOf 0 0) =
      some ⟨"A", 60, [⟨⟨"10.0.0.1", 4000⟩, 40⟩], 0, 100⟩ ∧
    (((oneServer.handleWorkerExit ⟨"10.0.0.1:4000", ["A"]⟩ (fun _ => 0)).bind fun s =>
        s.handleWorkerExit ⟨"10.0.0.1:4000", ["A"]⟩ (fun _ => 0)).map fun t => t.entryOf 0 0) =
      some ⟨"A", 100, [], -1, 100⟩ ∧
    (oneServer.handleWorkerExit ⟨"10.0.0.1:4000", ["B"]⟩ (fun _ => 0)).isNone := by
  refine ⟨?_, ?_, ?_⟩
  · decide
  · decide
  · decide

end Service

end Ava.Manager
