import Ava.Lib.Decimal
import Ava.Lib.Environ
import Mathlib.Algebra.GroupWithZero.Nat
import Mathlib.Data.UInt

/-!
# Provisioning through the environment

The daemon of a node starts an API server with the GPUs that the manager has assigned
(`SpawnWorker` in `worker/katana/spawn_daemon.cpp`). It writes the GPUs and their memory into three
variables of the environment: the visible devices, each once; the uuids, with repetitions; and the
sizes, where a size of 0 stands for all the free memory of the device. The server reads them
(`worker/worker.cpp`) and builds its `ProvisionGpu` (`worker/provision_gpu.cpp`), which maps every
provisioned GPU to the position of its device.
-/

set_option autoImplicit false

namespace Ava.Worker

open Ava.Lib

/-! ## The daemon -/

/-- A device of the node, as NVML reports it. -/
structure GpuInfo where
  uuid : Text
  freeMemory : UInt64

/-- `std::to_string`. -/
def toText (n : UInt64) : Text := Nat.toDigits 10 n.toNat

/-- The loop over the uuids after the first: those that have not been there are appended. `seen`
are the uuids of the smaller indexes. -/
def appendNew : List Text → Text → List Text → Text
  | _, s, [] => s
  | seen, s, u :: rest =>
    appendNew (seen ++ [u]) (if seen.contains u then s else s ++ ',' :: u) rest

/-- The size for a GPU: instead of 0 the free memory of the device, if the daemon knows it. -/
def adjustMemory (devices : List GpuInfo) (uuid : Text) (size : UInt64) : UInt64 :=
  if size = 0 then
    match devices.find? fun gi => gi.uuid == uuid with
    | some gi => gi.freeMemory
    | none => size
  else size

/-- The environment of the server in `SpawnWorker`. There is none if the request is refused; of no
uuids the first is not there. -/
def spawnEnviron (devices : List GpuInfo) (uuid : List Text) (gpuMem : List UInt64) :
    Option (List Text) :=
  if uuid.length ≠ gpuMem.length then none
  else
    match uuid, List.zipWith (adjustMemory devices) uuid gpuMem with
    | first :: rest, size :: sizes =>
      let visibleDev := "CUDA_VISIBLE_DEVICES=".toList ++ appendNew [first] first rest
      let gpuUuidStr := "AVA_GPU_UUID=".toList ++ appendAll first rest
      let gpuMemStr := "AVA_GPU_MEMORY=".toList ++ appendAll (toText size) (sizes.map toText)
      some [cStr visibleDev, "AVA_CHANNEL=TCP".toList, cStr gpuMemStr, cStr gpuUuidStr]
    | _, _ => none

/-! ## The server -/

structure ProvisionGpu where
  index : List Nat
  uuid : List Text
  memory : List UInt64
  freeMemory : List UInt64

/-- `ProvisionGpu::ParseGpuUuidList`. -/
def parseGpuUuidList (uuidList : Text) : List Text := getFields uuidList

/-- `ProvisionGpu::ParseGpuMemoryList`. There is no result if `std::stol` throws. -/
def parseGpuMemoryList (memList : Text) : Option (List UInt64) :=
  (getFields memList).mapM fun mem => (stol mem).map UInt64.ofInt

/-- `ProvisionGpu::Init`. There is no result if the process exits. -/
def init (cudaUuid uuid : List Text) (memory : List UInt64) : Option ProvisionGpu :=
  if uuid.length ≠ memory.length then none
  else
    (uuid.mapM fun u => cudaUuid.findIdx? (· == u)).map fun index => ⟨index, uuid, memory, memory⟩

/-- The object that `main` builds from the environment. -/
def provisionGpu (environ : List Text) : Option ProvisionGpu :=
  let read := fun name : String => (getenv environ name.toList).getD []
  match parseGpuMemoryList (read "AVA_GPU_MEMORY") with
  | none => none
  | some memory =>
    init (parseGpuUuidList (read "CUDA_VISIBLE_DEVICES"))
      (parseGpuUuidList (read "AVA_GPU_UUID")) memory

/-! ## The visible devices -/

/-- A uuid is appended to the distinct ones if it is new. -/
theorem eraseDups_concat (seen : List Text) (u : Text) :
    (seen ++ [u]).eraseDups =
      if seen.contains u then seen.eraseDups else seen.eraseDups ++ [u] := by
  rw [List.eraseDups_append]
  split_ifs with hmem
  · rw [List.removeAll, List.filter_cons_of_neg (by simpa using hmem)]
    simp
  · rw [List.removeAll, List.filter_cons_of_pos (by simpa using hmem)]
    simp [List.eraseDups_cons]

theorem intercalate_concat {values : List Text} (h : values ≠ []) (u : Text) :
    [','].intercalate (values ++ [u]) = [','].intercalate values ++ ',' :: u := by
  obtain ⟨value, values, rfl⟩ := List.exists_cons_of_ne_nil h
  rw [List.cons_append, ← appendAll_eq_intercalate, ← appendAll_eq_intercalate, appendAll,
    List.foldl_append]
  rfl

/-- The loop writes every uuid once, at its first place. -/
theorem appendNew_eq (rest : List Text) {seen : List Text} (h : seen ≠ []) :
    appendNew seen ([','].intercalate seen.eraseDups) rest =
      [','].intercalate (seen ++ rest).eraseDups := by
  induction rest generalizing seen with
  | nil => rw [List.append_nil, appendNew]
  | cons u rest ih =>
    have hdups : seen.eraseDups ≠ [] := by
      obtain ⟨u', seen', rfl⟩ := List.exists_cons_of_ne_nil h
      rw [List.eraseDups_cons]
      exact List.cons_ne_nil _ _
    have hnext : (if seen.contains u then [','].intercalate seen.eraseDups
        else [','].intercalate seen.eraseDups ++ ',' :: u) =
        [','].intercalate (seen ++ [u]).eraseDups := by
      rw [eraseDups_concat]
      split_ifs
      · rfl
      · rw [intercalate_concat hdups]
    rw [appendNew, hnext, ih (by simp), List.append_assoc]
    rfl

/-! ## Round trips -/

/-- Characters that a variable of the environment can have. -/
theorem nul_notMem_intercalate {values : List Text} (h : ∀ value ∈ values, '\x00' ∉ value) :
    '\x00' ∉ [','].intercalate values := by
  intro hmem
  rcases mem_intercalate hmem with hcomma | ⟨value, hvalue, hnul⟩
  · exact absurd hcomma (by decide)
  · exact h value hvalue hnul

theorem cStr_variable {name value : Text} (hname : '\x00' ∉ name) (hvalue : '\x00' ∉ value) :
    cStr (name ++ value) = name ++ value := by
  refine cStr_eq_self fun hmem => ?_
  rcases List.mem_append.1 hmem with h | h
  · exact hname h
  · exact hvalue h

/-- The digits of a number are not empty, and neither a comma nor a NUL is among them. -/
theorem toText_field (n : UInt64) : toText n ≠ [] ∧ ',' ∉ toText n ∧ '\x00' ∉ toText n := by
  refine ⟨Nat.toDigits_ne_nil, fun h => ?_, fun h => ?_⟩
  · exact absurd (Nat.isDigit_of_mem_toDigits (by decide) (by decide) h) (by decide)
  · exact absurd (Nat.isDigit_of_mem_toDigits (by decide) (by decide) h) (by decide)

theorem stol_toText {n : UInt64} (h : n.toNat < 2 ^ 63) :
    (stol (toText n)).map UInt64.ofInt = some n := by
  have hread : stol (toText n) = some (n.toNat : Int) := stringToSigned_toDigits h
  have hmod : ((n.toNat : Int) % 2 ^ 64).toNat = n.toNat := by omega
  rw [hread, Option.map_some, UInt64.ofInt, hmod, UInt64.ofNat_toNat]

theorem mapM_eq_some_map {α β : Type} {f : α → Option β} {g : α → β} {l : List α}
    (h : ∀ x ∈ l, f x = some (g x)) : l.mapM f = some (l.map g) := by
  induction l with
  | nil => rfl
  | cons x l ih =>
    have hx := h x (by simp)
    have hl := ih fun y hy => h y (List.mem_cons_of_mem _ hy)
    simp [List.mapM_cons, hx, hl]

theorem parseGpuMemoryList_written {sizes : List UInt64} (hne : sizes ≠ [])
    (h : ∀ size ∈ sizes, size.toNat < 2 ^ 63) :
    parseGpuMemoryList ([','].intercalate (sizes.map toText)) = some sizes := by
  rw [parseGpuMemoryList, getFields_intercalate (by simpa using hne)]
  · rw [List.mapM_map]
    have hread := mapM_eq_some_map (l := sizes)
      (f := fun size => (stol (toText size)).map UInt64.ofInt) (g := id)
      fun size hsize => stol_toText (h size hsize)
    rw [List.map_id] at hread
    exact hread
  · intro value hvalue
    obtain ⟨size, -, rfl⟩ := List.mem_map.1 hvalue
    exact ⟨(toText_field size).1, (toText_field size).2.1⟩

theorem init_of_eraseDups {uuid : List Text} {memory : List UInt64}
    (h : uuid.length = memory.length) : init uuid.eraseDups uuid memory =
      some ⟨uuid.map fun u => uuid.eraseDups.idxOf u, uuid, memory, memory⟩ := by
  have hindex : (uuid.mapM fun u => uuid.eraseDups.findIdx? (· == u)) =
      some (uuid.map fun u => uuid.eraseDups.idxOf u) := by
    refine mapM_eq_some_map fun u hu => ?_
    refine List.findIdx?_eq_some_of_exists ⟨u, List.mem_eraseDups.2 hu, ?_⟩
    exact beq_self_eq_true u
  rw [init, if_neg (not_not.2 h), hindex, Option.map_some]

/-! ## The whole way -/

/-- A uuid: it is not empty and has no comma. As every text that NVML or a C string gives, it has
no NUL. -/
structure GpuUuid where
  text : Text
  nonempty : text ≠ []
  comma : ',' ∉ text
  nul : '\x00' ∉ text

/-- The environment of a server. -/
def serverEnviron (visibleDev gpuMem gpuUuid : Text) : List Text :=
  ["CUDA_VISIBLE_DEVICES=".toList ++ visibleDev, "AVA_CHANNEL=TCP".toList,
    "AVA_GPU_MEMORY=".toList ++ gpuMem, "AVA_GPU_UUID=".toList ++ gpuUuid]

/-- The variables are found under their names. -/
theorem provisionGpu_serverEnviron (visibleDev gpuMem gpuUuid : Text) :
    provisionGpu (serverEnviron visibleDev gpuMem gpuUuid) =
      (parseGpuMemoryList gpuMem).bind
        (init (parseGpuUuidList visibleDev) (parseGpuUuidList gpuUuid)) := by
  have hdev : getenv (serverEnviron visibleDev gpuMem gpuUuid) "CUDA_VISIBLE_DEVICES".toList =
      some visibleDev := by
    have hname : "CUDA_VISIBLE_DEVICES=".toList = "CUDA_VISIBLE_DEVICES".toList ++ ['='] := by
      decide
    rw [serverEnviron, hname]
    exact getenv_first visibleDev _
  have hmem : getenv (serverEnviron visibleDev gpuMem gpuUuid) "AVA_GPU_MEMORY".toList =
      some gpuMem := by
    have hname : "AVA_GPU_MEMORY=".toList = "AVA_GPU_MEMORY".toList ++ ['='] := by decide
    rw [serverEnviron, hname, getenv_skip (by decide) (by decide),
      ← List.append_nil "AVA_CHANNEL=TCP".toList, getenv_skip (by decide) (by decide)]
    exact getenv_first gpuMem _
  have huuid : getenv (serverEnviron visibleDev gpuMem gpuUuid) "AVA_GPU_UUID".toList =
      some gpuUuid := by
    have hname : "AVA_GPU_UUID=".toList = "AVA_GPU_UUID".toList ++ ['='] := by decide
    rw [serverEnviron, hname, getenv_skip (by decide) (by decide),
      ← List.append_nil "AVA_CHANNEL=TCP".toList, getenv_skip (by decide) (by decide),
      getenv_skip (by decide) (by decide)]
    exact getenv_first gpuUuid _
  rw [provisionGpu]
  dsimp only
  rw [hmem, hdev, huuid]
  simp only [Option.getD_some]
  cases parseGpuMemoryList gpuMem with
  | none => rfl
  | some memory => rfl

/-- What the server finds in the environment that the daemon writes. -/
theorem provisionGpu_spawnEnviron {devices : List GpuInfo} {first : Text} {rest : List Text}
    {gpuMem : List UInt64} (hlen : gpuMem.length = rest.length + 1)
    (huuid : ∀ u ∈ first :: rest, u ≠ [] ∧ ',' ∉ u ∧ '\x00' ∉ u)
    (hsizes : ∀ size ∈ List.zipWith (adjustMemory devices) (first :: rest) gpuMem,
      size.toNat < 2 ^ 63) :
    ∃ environ, spawnEnviron devices (first :: rest) gpuMem = some environ ∧
      provisionGpu environ = some
        ⟨(first :: rest).map fun u => (first :: rest).eraseDups.idxOf u, first :: rest,
          List.zipWith (adjustMemory devices) (first :: rest) gpuMem,
          List.zipWith (adjustMemory devices) (first :: rest) gpuMem⟩ := by
  obtain ⟨size, sizes, hcons⟩ : ∃ size sizes,
      List.zipWith (adjustMemory devices) (first :: rest) gpuMem = size :: sizes := by
    obtain ⟨m, ms, rfl⟩ := List.exists_cons_of_length_eq_add_one hlen
    exact ⟨_, _, rfl⟩
  have hvisible : appendNew [first] first rest = [','].intercalate (first :: rest).eraseDups := by
    have hloop := appendNew_eq rest (List.cons_ne_nil first [])
    simpa [List.eraseDups_cons] using hloop
  have hdistinct : ∀ u ∈ (first :: rest).eraseDups, u ≠ [] ∧ ',' ∉ u ∧ '\x00' ∉ u :=
    fun u hu => huuid u (List.mem_eraseDups.1 hu)
  have hspawn : spawnEnviron devices (first :: rest) gpuMem = some (serverEnviron
      ([','].intercalate (first :: rest).eraseDups)
      ([','].intercalate ((size :: sizes).map toText)) ([','].intercalate (first :: rest))) := by
    unfold spawnEnviron
    rw [if_neg (by simp [hlen]), hcons]
    dsimp only
    rw [hvisible, appendAll_eq_intercalate, appendAll_eq_intercalate,
      cStr_variable (by decide) (nul_notMem_intercalate fun u hu => (hdistinct u hu).2.2),
      cStr_variable (by decide) (nul_notMem_intercalate fun u hu => (huuid u hu).2.2),
      cStr_variable (by decide)]
    · rfl
    · rw [← List.map_cons]
      refine nul_notMem_intercalate fun value hvalue => ?_
      obtain ⟨n, -, rfl⟩ := List.mem_map.1 hvalue
      exact (toText_field n).2.2
  refine ⟨_, hspawn, ?_⟩
  rw [hcons] at hsizes ⊢
  rw [provisionGpu_serverEnviron, parseGpuMemoryList_written (by simp) hsizes, Option.bind_some,
    parseGpuUuidList, parseGpuUuidList, getFields_intercalate (by simp [List.eraseDups_cons])
      fun u hu => ⟨(hdistinct u hu).1, (hdistinct u hu).2.1⟩,
    getFields_intercalate (by simp) fun u hu => ⟨(huuid u hu).1, (huuid u hu).2.1⟩]
  refine init_of_eraseDups ?_
  have hcount := congrArg List.length hcons
  simpa [hlen] using hcount

/-- The sizes that are written are below 2^63 if those of the request and of the devices are. -/
theorem adjustMemory_lt {devices : List GpuInfo} {size : UInt64} {bound : Nat}
    (hdevices : ∀ gi ∈ devices, gi.freeMemory.toNat < bound) (hsize : size.toNat < bound)
    (uuid : Text) : (adjustMemory devices uuid size).toNat < bound := by
  rw [adjustMemory]
  split_ifs with hzero
  · cases hfind : devices.find? fun gi => gi.uuid == uuid with
    | none => exact hsize
    | some gi => exact hdevices gi (List.mem_of_find?_eq_some hfind)
  · exact hsize

/-- For every non-empty list of uuids with as many sizes below 2^63, on a node whose devices report
less than 2^63 bytes: the server does not exit, and its object has the uuids in their order; the
sizes, where the free memory of the first device with the uuid replaces a 0; and for each GPU the
position of its uuid among the distinct uuids in the order of their first appearance. -/
theorem provisioning_survives_environ (devices : List GpuInfo)
    (hdevices : ∀ gi ∈ devices, gi.freeMemory.toNat < 2 ^ 63) (uuid : List GpuUuid)
    (hne : uuid ≠ []) (gpuMem : List UInt64) (hlen : gpuMem.length = uuid.length)
    (hsizes : ∀ size ∈ gpuMem, size.toNat < 2 ^ 63) :
    ∃ environ gpu, spawnEnviron devices (uuid.map GpuUuid.text) gpuMem = some environ ∧
      provisionGpu environ = some gpu ∧
      gpu.uuid = uuid.map GpuUuid.text ∧
      gpu.memory.length = gpuMem.length ∧
      (∀ (i : Nat) (u : GpuUuid) (size : UInt64), uuid[i]? = some u → gpuMem[i]? = some size →
        (size ≠ 0 → gpu.memory[i]? = some size) ∧
        (∀ gi, size = 0 → devices.find? (fun gi => gi.uuid == u.text) = some gi →
          gpu.memory[i]? = some gi.freeMemory) ∧
        (size = 0 → (∀ gi ∈ devices, gi.uuid ≠ u.text) → gpu.memory[i]? = some 0)) ∧
      gpu.index = uuid.map fun u => (uuid.map GpuUuid.text).eraseDups.idxOf u.text := by
  obtain ⟨first, rest, hcons⟩ := List.exists_cons_of_ne_nil
    (show uuid.map GpuUuid.text ≠ [] by simpa using hne)
  have hcount : (first :: rest).length = gpuMem.length := by
    rw [← hcons, List.length_map, hlen]
  have htexts : ∀ u ∈ first :: rest, u ≠ [] ∧ ',' ∉ u ∧ '\x00' ∉ u := by
    intro u hu
    rw [← hcons] at hu
    obtain ⟨v, -, rfl⟩ := List.mem_map.1 hu
    exact ⟨v.nonempty, v.comma, v.nul⟩
  have hwritten : ∀ size ∈ List.zipWith (adjustMemory devices) (first :: rest) gpuMem,
      size.toNat < 2 ^ 63 := by
    intro size hsize
    obtain ⟨i, hi, rfl⟩ := List.mem_iff_getElem.1 hsize
    rw [List.getElem_zipWith]
    exact adjustMemory_lt hdevices (hsizes _ (List.getElem_mem _)) _
  obtain ⟨environ, hspawn, hgpu⟩ := provisionGpu_spawnEnviron hcount.symm htexts hwritten
  rw [← hcons] at hspawn hgpu
  refine ⟨environ, _, hspawn, hgpu, rfl, ?_, fun i u size hu hsize => ?_, ?_⟩
  · simp [hlen]
  · have hmemory : (List.zipWith (adjustMemory devices) (uuid.map GpuUuid.text) gpuMem)[i]? =
        some (adjustMemory devices u.text size) := by
      rw [List.getElem?_zipWith, List.getElem?_map, hu, hsize]
      rfl
    dsimp only
    rw [hmemory]
    refine ⟨fun hsome => ?_, fun gi hzero hfind => ?_, fun hzero hunknown => ?_⟩
    · rw [adjustMemory, if_neg hsome]
    · rw [adjustMemory, if_pos hzero, hfind]
    · have hnone : devices.find? (fun gi => gi.uuid == u.text) = none := by
        rw [List.find?_eq_none]
        intro gi hgi
        simpa using hunknown gi hgi
      rw [adjustMemory, if_pos hzero, hnone, hzero]
  · rw [List.map_map]
    rfl

/-- Three GPUs on two devices; the second size stands for all memory of the device. -/
theorem provisioning_survives_environ_three : ∃ environ gpu,
    spawnEnviron [⟨"GPU-a".toList, 300⟩, ⟨"GPU-b".toList, 500⟩]
      ["GPU-b".toList, "GPU-a".toList, "GPU-b".toList] [10, 0, 20] = some environ ∧
    provisionGpu environ = some gpu ∧
    gpu.uuid = ["GPU-b".toList, "GPU-a".toList, "GPU-b".toList] ∧ gpu.index = [0, 1, 0] ∧
    gpu.memory[1]? = some 300 := by
  obtain ⟨environ, gpu, hspawn, hgpu, huuid, -, hmemory, hindex⟩ := provisioning_survives_environ
    [⟨"GPU-a".toList, 300⟩, ⟨"GPU-b".toList, 500⟩] (by decide)
    [⟨"GPU-b".toList, by decide, by decide, by decide⟩,
      ⟨"GPU-a".toList, by decide, by decide, by decide⟩,
      ⟨"GPU-b".toList, by decide, by decide, by decide⟩] (by simp) [10, 0, 20] rfl (by simp)
  refine ⟨environ, gpu, hspawn, hgpu, huuid, hindex, ?_⟩
  exact (hmemory 1 _ 0 rfl rfl).2.1 _ rfl rfl

end Ava.Worker
