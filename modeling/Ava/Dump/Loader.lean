import Ava.Dump.Writer
import Ava.Lib.HashTable

/-!
# Loading a dump

The preloading helpers of the optimized specifications (`cava/samples/tensorflow/tf_opt.c`,
`cava/samples/onnxruntime/onnx_opt.c`), which differ in `MAX_KERNEL_ARG`. The guest library loads
the argument files (`__helper_guestlib_init_prologue`), the worker loads the fat binaries with their
arguments and registers the functions (`__helper_worker_init_epilogue`).

`loadFatbins_run` says what the worker does with files that have been written for a list of fat
binaries, however the functions have got there.
-/

set_option autoImplicit false

namespace Ava.Dump

open Ava.Lib

variable {cuda : Cuda} {maxKernelArg : Nat}

/-! ## The arguments of the kernels -/

/-- The array of functions, whose first entry is `NULL`, the table from names to indexes, and what
has been written to the buffer `func_name`. -/
structure ArgTable where
  funcName : Bytes
  fatbinFuncs : List (Option FatbinFunction)
  ht : HashTable Bytes Nat

/-- A record is added to the array, and its name to the table unless it is there. -/
def ArgTable.add (maxKernelArg : Nat) (t : ArgTable) (r : ArgRecord) : Except Fault ArgTable := do
  let funcName := r.name ++ t.funcName.drop r.name.length
  let name ← cString funcName
  let fatbinFuncs := t.fatbinFuncs ++ [some (.ofBytes maxKernelArg r.func)]
  .ok ⟨funcName, fatbinFuncs,
    if name ∈ t.ht then t.ht else t.ht.insert name (fatbinFuncs.length - 1)⟩

def nextArg (size : Nat) (bs : Bytes) : Except Fault (Found ArgRecord Unit) :=
  if bs = [] then .ok (.stop ())
  else (readArg size bs).map fun r => .record r.1 r.2

/-- The array is created with the entry 0. An empty list stands for an array that is not there. -/
def withNull (fatbinFuncs : List (Option FatbinFunction)) : List (Option FatbinFunction) :=
  if fatbinFuncs = [] then [none] else fatbinFuncs

/-- `__helper_load_function_arg_info` and `__helper_load_function_arg_info_guest`, which differ in
the table: the worker makes a new one. -/
def loadFunctionArgInfo (maxKernelArg : Nat) (dir : Directory) (numFatbins : Nat)
    (fatbinFuncs : List (Option FatbinFunction)) (ht : HashTable Bytes Nat) :
    Except Fault (Reading ArgTable ArgRecord Unit) :=
  match dir.functionArg numFatbins with
  | none => .error .exit
  | some file => readAll .undetermined (nextArg (functionSize maxKernelArg))
      (ArgTable.add maxKernelArg) ⟨[], withNull fatbinFuncs, ht⟩ file

/-- The number in `fatbin-info.ava`, an `int`, as the bound of a loop. -/
def fatbinCount (bs : Bytes) : Except Fault (Nat × Bytes) := do
  let (count, bs) ← take 4 bs
  .ok (if leNat count < 2 ^ 31 then leNat count else 0, bs)

/-! ## The guest -/

structure Guest where
  numFatbins : Nat
  fatbinFuncs : List (Option FatbinFunction)
  htName2idx : HashTable Bytes Nat

def Guest.load (maxKernelArg : Nat) (dir : Directory) (g : Guest) : Except Fault Guest :=
  (loadFunctionArgInfo maxKernelArg dir g.numFatbins g.fatbinFuncs g.htName2idx).map fun r =>
    ⟨g.numFatbins + 1, r.state.fatbinFuncs, r.state.ht⟩

/-- The loop of `__helper_guestlib_init_prologue`. -/
def Guest.loadAll (maxKernelArg : Nat) (dir : Directory) : Nat → Guest → Except Fault Guest
  | 0, g => .ok g
  | count + 1, g => do
      let g ← g.load maxKernelArg dir
      loadAll maxKernelArg dir count g

/-- `__helper_guestlib_init_prologue`. -/
def guestlibInitPrologue (maxKernelArg : Nat) (dir : Directory) : Except Fault Guest :=
  match dir.fatbinInfo with
  | none => .error .exit
  | some info => do
      let (count, _) ← fatbinCount info
      Guest.loadAll maxKernelArg dir count ⟨0, [], ∅⟩

/-- `__helper_assosiate_function`, for a host function that has not been associated: the id and the
function. -/
def Guest.assosiateFunction (g : Guest) (deviceName : Bytes) :
    Except Fault (Nat × Option FatbinFunction) :=
  match g.htName2idx.lookup deviceName with
  | none => .error .assertion
  | some funcId => .ok (funcId, (g.fatbinFuncs[funcId]?).getD none)

/-! ## The worker -/

/-- `fatfunction_fd`: 0, a descriptor with the bytes behind its position, or one that has been
closed. -/
inductive FunctionFile where
  | unopened
  | opened (rest : Bytes)
  | closed
deriving DecidableEq

/-- What can be read. A file that is not there and a closed descriptor give an error, at which the
worker exits. -/
def FunctionFile.contents (dir : Directory) : FunctionFile → Except Fault Bytes
  | .unopened =>
    match dir.fatfunction with
    | none => .error .exit
    | some stream => .ok stream
  | .opened rest => .ok rest
  | .closed => .error .exit

def nextFunction (bs : Bytes) : Except Fault (Found FunctionRecord FunctionFile) :=
  if bs = [] then .ok (.stop .closed)
  else do
    let (size, rest) ← take 8 bs
    if leNat size = 0 then .ok (.stop (.opened rest))
    else
      let (f, rest) ← readFunction bs
      .ok (.record f rest)

/-- `__helper_register_function`. -/
def registerFunction (cuda : Cuda) (func : Option FatbinFunction) (hostFun module : Nat)
    (deviceName : Bytes) : Except Fault (Option FatbinFunction) :=
  if module = 0 then .ok func
  else
    match func with
    | none => .error .assertion
    | some func =>
      if func.hostfunc ≠ 0 then .ok (some func)
      else
        match cuda.moduleGetFunction module deviceName with
        | none => .error .assertion
        | some cufunc =>
          .ok (some { func with cufunc := cufunc, hostfunc := hostFun, module := module })

/-- What is done with a function that has been read. -/
def registerRead (cuda : Cuda) (module : Nat) (ht : HashTable Bytes Nat)
    (fatbinFuncs : List (Option FatbinFunction)) (f : FunctionRecord) :
    Except Fault (List (Option FatbinFunction)) :=
  match ht.lookup f.deviceName with
  | none => .error .assertion
  | some funcId =>
    (registerFunction cuda ((fatbinFuncs[funcId]?).getD none) funcId module f.deviceName).map
      fun func => fatbinFuncs.set funcId func

structure Worker where
  numFatbins : Nat
  fatbinFuncs : List (Option FatbinFunction)
  fatfunction : FunctionFile

/-- What has been read for a fat binary. The pointer of the wrapper is replaced. -/
structure LoadedFatbin where
  magic : UInt32
  seq : UInt32
  dataPtr : UInt64
  image : Bytes
  args : List ArgRecord
  functions : List FunctionRecord
deriving DecidableEq

/-- `__helper_load_and_register_fatbin`. -/
def Worker.loadAndRegisterFatbin (cuda : Cuda) (maxKernelArg : Nat) (dir : Directory) (w : Worker)
    (wrapper : Wrapper) : Except Fault (Worker × LoadedFatbin) :=
  match dir.fatbin w.numFatbins with
  | none => .error .exit
  | some image =>
    if image.length ≠ cuda.binarySize image then .error .assertion
    else
      match cuda.moduleLoadData w.numFatbins image with
      | none => .error .assertion
      | some module => do
          let args ← loadFunctionArgInfo maxKernelArg dir w.numFatbins w.fatbinFuncs ∅
          let stream ← w.fatfunction.contents dir
          let functions ← readAll .undetermined nextFunction
            (registerRead cuda module args.state.ht) args.state.fatbinFuncs stream
          .ok (⟨w.numFatbins + 1, functions.state, functions.last⟩,
            ⟨wrapper.magic, wrapper.seq, wrapper.dataPtr, image, args.records,
              functions.records⟩)

/-- The loop of `__helper_worker_init_epilogue`. -/
def Worker.loadFatbins (cuda : Cuda) (maxKernelArg : Nat) (dir : Directory) :
    Nat → Worker → Bytes → Except Fault (Worker × List LoadedFatbin)
  | 0, w, _ => .ok (w, [])
  | count + 1, w, info => do
      let (wrapper, info) ← readWrapper info
      let (w, b) ← w.loadAndRegisterFatbin cuda maxKernelArg dir wrapper
      let (w, bs) ← loadFatbins cuda maxKernelArg dir count w info
      .ok (w, b :: bs)

/-- `__helper_worker_init_epilogue`. -/
def workerInitEpilogue (cuda : Cuda) (maxKernelArg : Nat) (dir : Directory) :
    Except Fault (Worker × List LoadedFatbin) :=
  match dir.fatbinInfo with
  | none => .error .exit
  | some info => do
      let (count, info) ← fatbinCount info
      Worker.loadFatbins cuda maxKernelArg dir count ⟨0, [], .unopened⟩ info

/-! ## The files of a fat binary are read -/

/-- Names that follow each other in the array, from an index on. -/
def addNames : HashTable Bytes Nat → Nat → List Bytes → HashTable Bytes Nat
  | ht, _, [] => ht
  | ht, index, name :: names =>
    addNames (if name ∈ ht then ht else ht.insert name index) (index + 1) names

theorem lookup_addNames (ht : HashTable Bytes Nat) (index : Nat) (names : List Bytes)
    (name : Bytes) : (addNames ht index names).lookup name =
      (ht.lookup name).or ((names.idxOf? name).map fun i => index + i) := by
  induction names generalizing ht index with
  | nil => simp [addNames]
  | cons first names ih =>
    have hshift : ((names.idxOf? name).map fun i => i + 1).map (fun i => index + i) =
        (names.idxOf? name).map fun i => index + 1 + i := by
      rw [Option.map_map]
      congr 1
      funext i
      simp only [Function.comp_apply]
      omega
    rw [addNames, ih, List.idxOf?_cons]
    by_cases hmem : first ∈ ht
    · obtain ⟨i, hi⟩ := (HashTable.mem_iff_lookup ht first).1 hmem
      rw [if_pos hmem]
      by_cases hname : first = name
      · rw [hname] at hi
        simp [hi]
      · rw [if_neg (by simpa using hname), hshift]
    · rw [if_neg hmem, HashTable.lookup_insert_eq]
      by_cases hname : first = name
      · have hnone : ht.lookup name = none := by
          rw [← hname]
          exact AList.lookup_eq_none.2 hmem
        simp [hname, hnone]
      · rw [if_neg (Ne.symm hname), if_neg (by simpa using hname), hshift]

theorem mem_addNames (index : Nat) (names : List Bytes) (name : Bytes) :
    name ∈ addNames ∅ index names ↔ name ∈ names := by
  rw [HashTable.mem_iff_lookup, ← Option.isSome_iff_exists, lookup_addNames, ← List.isSome_idxOf?]
  cases names.idxOf? name with
  | none => rfl
  | some i => rfl

theorem nextArg_record (k : Kernel maxKernelArg) (rest : Bytes) :
    nextArg (functionSize maxKernelArg) (k.record.toBytes ++ rest) =
      .ok (.record k.record rest) := by
  have hne : k.record.toBytes ++ rest ≠ [] := by
    intro hnil
    have hpos := k.record.length_pos
    rw [(List.append_eq_nil_iff.1 hnil).1] at hpos
    exact absurd hpos (Nat.lt_irrefl 0)
  rw [nextArg, if_neg hne, k.readArg_record]
  rfl

/-- What the kernels of a fat binary add. -/
theorem foldlM_add (ks : List (Kernel maxKernelArg)) (t : ArgTable) :
    ∃ funcName, (ks.map Kernel.record).foldlM (ArgTable.add maxKernelArg) t =
      .ok ⟨funcName, t.fatbinFuncs ++ ks.map fun k => some k.function,
        addNames t.ht t.fatbinFuncs.length (ks.map Kernel.name)⟩ := by
  induction ks generalizing t with
  | nil =>
    refine ⟨t.funcName, ?_⟩
    rw [List.map_nil, List.map_nil, List.append_nil]
    rfl
  | cons k ks ih =>
    have hadd : t.add maxKernelArg k.record =
        .ok ⟨k.record.name ++ t.funcName.drop k.record.name.length,
          t.fatbinFuncs ++ [some k.function],
          if k.name ∈ t.ht then t.ht else t.ht.insert k.name t.fatbinFuncs.length⟩ := by
      simp only [ArgTable.add, k.cString_name, bind, Except.bind, k.ofBytes_record,
        List.length_append, List.length_singleton, Nat.add_sub_cancel]
    obtain ⟨funcName, hrest⟩ := ih ⟨k.record.name ++ t.funcName.drop k.record.name.length,
      t.fatbinFuncs ++ [some k.function],
      if k.name ∈ t.ht then t.ht else t.ht.insert k.name t.fatbinFuncs.length⟩
    refine ⟨funcName, ?_⟩
    rw [List.map_cons, List.foldlM_cons, hadd]
    refine hrest.trans ?_
    simp only [List.append_assoc, List.singleton_append, List.length_append,
      List.length_singleton, List.map_cons, addNames]

variable {b : Fatbin cuda maxKernelArg} {i : Nat}

theorem loadFunctionArgInfo_written {dir : Directory} (h : dir.functionArg i = some b.argFile)
    (fatbinFuncs : List (Option FatbinFunction)) (ht : HashTable Bytes Nat) :
    ∃ funcName, loadFunctionArgInfo maxKernelArg dir i fatbinFuncs ht =
      .ok ⟨⟨funcName, withNull fatbinFuncs ++ b.kernels.map fun k => some k.function,
        addNames ht (withNull fatbinFuncs).length (b.kernels.map Kernel.name)⟩,
        b.kernels.map Kernel.record, ()⟩ := by
  obtain ⟨funcName, hfold⟩ := foldlM_add b.kernels ⟨[], withNull fatbinFuncs, ht⟩
  have hfile : b.argFile = (b.kernels.map Kernel.record).flatMap ArgRecord.toBytes ++ [] := by
    rw [List.append_nil, List.flatMap_map]
    rfl
  refine ⟨funcName, ?_⟩
  rw [loadFunctionArgInfo, h]
  dsimp only
  rw [hfile, readAll_stop (fun r _ => r.length_pos) _ rfl, hfold]
  · rfl
  · intro r hr rest
    obtain ⟨k, -, rfl⟩ := List.mem_map.1 hr
    exact nextArg_record k rest

/-! ### Functions -/

variable {f : FunctionRecord}

theorem nextFunction_record (hf : f.Valid) (rest : Bytes) :
    nextFunction (f.toBytes ++ rest) = .ok (.record f rest) := by
  have hlt : f.deviceFun.length + 1 < 256 ^ 8 :=
    hf.1.2.trans_lt (by norm_num [File.maxTransfer])
  have hne : f.toBytes ++ rest ≠ [] := by
    intro hnil
    have hpos := f.length_pos
    rw [(List.append_eq_nil_iff.1 hnil).1] at hpos
    exact absurd hpos (Nat.lt_irrefl 0)
  have hsize : ∃ more, f.toBytes ++ rest = leBytes 8 (f.deviceFun.length + 1) ++ more := by
    rw [FunctionRecord.toBytes, textBytes, List.append_assoc, List.append_assoc]
    exact ⟨_, rfl⟩
  obtain ⟨more, hmore⟩ := hsize
  have htake : take 8 (f.toBytes ++ rest) = .ok (leBytes 8 (f.deviceFun.length + 1), more) := by
    rw [hmore]
    exact take_append (length_leBytes 8 _) more
  rw [nextFunction, if_neg hne, htake]
  simp only [bind, Except.bind, leNat_leBytes_of_lt hlt, Nat.succ_ne_zero, if_false,
    readFunction_append hf]

theorem nextFunction_separator (rest : Bytes) :
    nextFunction (separator ++ rest) = .ok (.stop (.opened rest)) := by
  have htake : take 8 (separator ++ rest) = .ok (separator, rest) :=
    take_append (length_leBytes 8 0) rest
  rw [nextFunction, if_neg (by simp [separator, leBytes]), htake]
  rfl

/-- The functions of fat binaries with separators between them, and one at the end or not. -/
def delimited (trailing : Bool) (segments : List (List FunctionRecord)) : Bytes :=
  joined segments ++ if trailing then separator else []

/-- Where the functions of the first fat binary have been read. -/
def afterFirst (trailing : Bool) (rest : List (List FunctionRecord)) : FunctionFile :=
  if rest = [] then if trailing then .opened [] else .closed
  else .opened (delimited trailing rest)

theorem delimited_cons (trailing : Bool) (fs : List FunctionRecord)
    (rest : List (List FunctionRecord)) :
    ∃ tail, delimited trailing (fs :: rest) = segment fs ++ tail ∧
      nextFunction tail = .ok (.stop (afterFirst trailing rest)) := by
  cases rest with
  | nil =>
    refine ⟨if trailing then separator else [], by simp [delimited, joined], ?_⟩
    cases trailing with
    | false => rfl
    | true =>
      have hstop := nextFunction_separator []
      rw [List.append_nil] at hstop
      exact hstop
  | cons gs rest =>
    refine ⟨separator ++ delimited trailing (gs :: rest), ?_, nextFunction_separator _⟩
    simp [delimited, joined]

theorem readAll_segment {σ : Type} {fs : List FunctionRecord} (hfs : ∀ f ∈ fs, f.Valid)
    (trailing : Bool) (rest : List (List FunctionRecord))
    (act : σ → FunctionRecord → Except Fault σ) (s : σ) :
    readAll .undetermined nextFunction act s (delimited trailing (fs :: rest)) =
      (fs.foldlM act s).map fun s => ⟨s, fs, afterFirst trailing rest⟩ := by
  obtain ⟨tail, hbytes, hstop⟩ := delimited_cons trailing fs rest
  rw [hbytes, segment]
  exact readAll_stop (fun f _ => f.length_pos) (fun f hf => nextFunction_record (hfs f hf)) hstop s

/-! ## A fat binary is loaded -/

/-- The names of the argument file. -/
def Fatbin.names (b : Fatbin cuda maxKernelArg) : List Bytes := b.kernels.map Kernel.name

/-- What is read for a fat binary that has been written. -/
def Fatbin.loaded (b : Fatbin cuda maxKernelArg) : LoadedFatbin :=
  ⟨b.wrapper.magic, b.wrapper.seq, b.wrapper.dataPtr, b.image, b.kernels.map Kernel.record,
    b.functions⟩

/-- The table of a fat binary whose kernels begin at an index. -/
def Fatbin.table (b : Fatbin cuda maxKernelArg) (index : Nat) : HashTable Bytes Nat :=
  addNames ∅ index b.names

variable {module : Nat}

theorem loadAndRegisterFatbin_written {dir : Directory} {w : Worker}
    (hfatbin : dir.fatbin w.numFatbins = some b.image)
    (harg : dir.functionArg w.numFatbins = some b.argFile) {trailing : Bool}
    {rest : List (List FunctionRecord)}
    (hstream : w.fatfunction.contents dir = .ok (delimited trailing (b.functions :: rest)))
    (hmodule : cuda.moduleLoadData w.numFatbins b.image = some module) (ptr : UInt64) :
    w.loadAndRegisterFatbin cuda maxKernelArg dir { b.wrapper with ptr := ptr } =
      (b.functions.foldlM (registerRead cuda module (b.table (withNull w.fatbinFuncs).length))
        (withNull w.fatbinFuncs ++ b.kernels.map fun k => some k.function)).map fun fatbinFuncs =>
          (⟨w.numFatbins + 1, fatbinFuncs, afterFirst trailing rest⟩, b.loaded) := by
  obtain ⟨funcName, hload⟩ := loadFunctionArgInfo_written harg w.fatbinFuncs ∅
  rw [Worker.loadAndRegisterFatbin, hfatbin]
  dsimp only
  rw [if_neg (not_not.2 b.image_size.symm), hmodule]
  have htable : addNames ∅ (withNull w.fatbinFuncs).length (b.kernels.map Kernel.name) =
      b.table (withNull w.fatbinFuncs).length := rfl
  simp only [hload, hstream, bind, Except.bind, readAll_segment b.valid, htable]
  cases b.functions.foldlM (registerRead cuda module (b.table (withNull w.fatbinFuncs).length))
    (withNull w.fatbinFuncs ++ b.kernels.map fun k => some k.function) with
  | error e => rfl
  | ok fatbinFuncs => rfl

/-! ### Registration -/

/-- The entry of a kernel in the array: as it has been loaded, or with the function that has been
looked up under the name of the kernel, if a function of the fat binary leads to it. -/
def IsEntry (module index : Nat) (b : Fatbin cuda maxKernelArg) (j : Nat) (k : Kernel maxKernelArg)
    (func : FatbinFunction) : Prop :=
  func.argc = k.function.argc ∧ func.args = k.function.args ∧
    (func.hostfunc = 0 ∨ module ≠ 0 ∧ func.hostfunc = index + j ∧ func.module = module ∧
      cuda.moduleGetFunction module k.name = some func.cufunc ∧
      ∃ f ∈ b.functions, b.names.idxOf? f.deviceName = some j)

/-- The array while the functions of a fat binary are registered: what was `before`, and the entries
of its kernels. -/
structure Filled (module : Nat) (b : Fatbin cuda maxKernelArg)
    (before fatbinFuncs : List (Option FatbinFunction)) : Prop where
  length : fatbinFuncs.length = before.length + b.kernels.length
  kept : ∀ i, i < before.length → fatbinFuncs[i]? = before[i]?
  entry : ∀ (j : Nat) (k : Kernel maxKernelArg), b.kernels[j]? = some k →
    ∃ func, fatbinFuncs[before.length + j]? = some (some func) ∧
      IsEntry module before.length b j k func

/-- The function has been registered. -/
def Done (ht : HashTable Bytes Nat) (fatbinFuncs : List (Option FatbinFunction)) (name : Bytes) :
    Prop :=
  ∃ i func, ht.lookup name = some i ∧ fatbinFuncs[i]? = some (some func) ∧ func.hostfunc ≠ 0

/-- Entries that have been registered stay as they are. -/
def Stays (fatbinFuncs fatbinFuncs' : List (Option FatbinFunction)) : Prop :=
  ∀ (i : Nat) (func : FatbinFunction), fatbinFuncs[i]? = some (some func) → func.hostfunc ≠ 0 →
    fatbinFuncs'[i]? = some (some func)

theorem filled_start (module : Nat) (b : Fatbin cuda maxKernelArg)
    (before : List (Option FatbinFunction)) :
    Filled module b before (before ++ b.kernels.map fun k => some k.function) := by
  refine ⟨by simp, fun i hi => List.getElem?_append_left hi, fun j k hk => ⟨k.function, ?_, ?_⟩⟩
  · rw [List.getElem?_append_right (Nat.le_add_right _ _), Nat.add_sub_cancel_left,
      List.getElem?_map, hk]
    rfl
  · exact ⟨rfl, rfl, Or.inl rfl⟩

/-- A listed function is found at the first kernel of its name. -/
theorem Fatbin.lookup_table (b : Fatbin cuda maxKernelArg) (index : Nat) {name : Bytes}
    (h : ∃ k ∈ b.kernels, k.name = name) :
    ∃ j k, b.kernels[j]? = some k ∧ k.name = name ∧ (b.table index).lookup name = some (index + j) ∧
      b.names.idxOf? name = some j := by
  obtain ⟨k, hk, hname⟩ := h
  have hmem : name ∈ b.names := List.mem_map.2 ⟨k, hk, hname⟩
  obtain ⟨j, hj⟩ := Option.isSome_iff_exists.1 (List.isSome_idxOf?.2 hmem)
  obtain ⟨hlt, hat, -⟩ := List.idxOf?_eq_some_iff.1 hj
  rw [names, List.length_map] at hlt
  simp only [names, List.getElem_map] at hat
  refine ⟨j, b.kernels[j], List.getElem?_eq_getElem hlt, hat, ?_, hj⟩
  rw [table, lookup_addNames, hj]
  rfl

variable {before fatbinFuncs : List (Option FatbinFunction)} {func : FatbinFunction}

theorem Filled.set (h : Filled module b before fatbinFuncs) {j : Nat} {k : Kernel maxKernelArg}
    (hk : b.kernels[j]? = some k) (hfunc : IsEntry module before.length b j k func) :
    Filled module b before (fatbinFuncs.set (before.length + j) (some func)) := by
  have hlt : before.length + j < fatbinFuncs.length := by
    have hj := (List.getElem?_eq_some_iff.1 hk).1
    rw [h.length]
    omega
  refine ⟨?_, fun i hi => ?_, fun j' k' hk' => ?_⟩
  · rw [List.length_set, h.length]
  · rw [List.getElem?_set_ne (by omega), h.kept i hi]
  · by_cases hj : j = j'
    · subst hj
      cases hk.symm.trans hk'
      exact ⟨func, List.getElem?_set_self hlt, hfunc⟩
    · rw [List.getElem?_set_ne (by omega)]
      exact h.entry j' k' hk'

theorem registerRead_eq {ht : HashTable Bytes Nat} (hlookup : ht.lookup f.deviceName = some i)
    (hfunc : fatbinFuncs[i]? = some (some func)) :
    registerRead cuda module ht fatbinFuncs f =
      (registerFunction cuda (some func) i module f.deviceName).map fun func =>
        fatbinFuncs.set i func := by
  rw [registerRead, hlookup]
  dsimp only
  rw [hfunc]
  rfl

theorem set_self (h : fatbinFuncs[i]? = some (some func)) :
    fatbinFuncs.set i (some func) = fatbinFuncs := by
  obtain ⟨hlt, hat⟩ := List.getElem?_eq_some_iff.1 h
  rw [← hat]
  exact List.set_getElem_self hlt

/-- A function is registered, or it has been. -/
theorem Filled.registerRead (h : Filled module b before fatbinFuncs) (hpos : 0 < before.length)
    (hfound : module ≠ 0 → ∀ k ∈ b.kernels, ∃ cufunc,
      cuda.moduleGetFunction module k.name = some cufunc)
    (hf : f ∈ b.functions) :
    ∃ fatbinFuncs', Dump.registerRead cuda module (b.table before.length) fatbinFuncs f =
        .ok fatbinFuncs' ∧ Filled module b before fatbinFuncs' ∧ Stays fatbinFuncs fatbinFuncs' ∧
      (module ≠ 0 → Done (b.table before.length) fatbinFuncs' f.deviceName) := by
  obtain ⟨j, k, hk, hname, hlookup, hj⟩ := b.lookup_table before.length (b.listed f hf)
  obtain ⟨func, hfunc, hargc, hargs, -⟩ := h.entry j k hk
  rw [registerRead_eq hlookup hfunc, registerFunction]
  by_cases hmodule : module = 0
  · refine ⟨fatbinFuncs, ?_, h, fun _ _ hi _ => hi, fun hne => absurd hmodule hne⟩
    rw [if_pos hmodule]
    exact congrArg Except.ok (set_self hfunc)
  by_cases hhost : func.hostfunc = 0
  · obtain ⟨cufunc, hcufunc⟩ := hfound hmodule k (List.mem_of_getElem? hk)
    have hlt := (List.getElem?_eq_some_iff.1 hfunc).1
    refine ⟨fatbinFuncs.set (before.length + j) (some { func with
      cufunc := cufunc, hostfunc := before.length + j, module := module }), ?_,
      h.set hk ⟨hargc, hargs, Or.inr ⟨hmodule, rfl, rfl, hcufunc, f, hf, hj⟩⟩,
      fun i func' hi hne => ?_, fun _ => ?_⟩
    · rw [if_neg hmodule, if_neg (not_not.2 hhost), ← hname, hcufunc]
      rfl
    · -- the entry that changes had not been registered
      rw [List.getElem?_set_ne, hi]
      rintro rfl
      cases hfunc.symm.trans hi
      exact hne hhost
    · exact ⟨_, _, hlookup, List.getElem?_set_self hlt, Nat.ne_of_gt (Nat.add_pos_left hpos j)⟩
  · refine ⟨fatbinFuncs, ?_, h, fun _ _ hi _ => hi, fun _ => ⟨_, func, hlookup, hfunc, hhost⟩⟩
    rw [if_neg hmodule, if_pos hhost]
    exact congrArg Except.ok (set_self hfunc)

theorem Filled.registerAll (h : Filled module b before fatbinFuncs) (hpos : 0 < before.length)
    (hfound : module ≠ 0 → ∀ k ∈ b.kernels, ∃ cufunc,
      cuda.moduleGetFunction module k.name = some cufunc)
    {fs : List FunctionRecord} (hfs : ∀ f ∈ fs, f ∈ b.functions) :
    ∃ fatbinFuncs', fs.foldlM (Dump.registerRead cuda module (b.table before.length)) fatbinFuncs =
        .ok fatbinFuncs' ∧ Filled module b before fatbinFuncs' ∧ Stays fatbinFuncs fatbinFuncs' ∧
      (module ≠ 0 → ∀ f ∈ fs, Done (b.table before.length) fatbinFuncs' f.deviceName) := by
  induction fs generalizing fatbinFuncs with
  | nil => exact ⟨fatbinFuncs, rfl, h, fun _ _ hi _ => hi, fun _ f hf => by cases hf⟩
  | cons f fs ih =>
    obtain ⟨hf, hrest⟩ := List.forall_mem_cons.1 hfs
    obtain ⟨middle, hstep, hfilled, hstays, hdone⟩ := h.registerRead hpos hfound hf
    obtain ⟨after, hfold, hfilled', hstays', hdone'⟩ := ih hfilled hrest
    refine ⟨after, ?_, hfilled', fun i func hi hne => ?_, fun hmodule => ?_⟩
    · rw [List.foldlM_cons, hstep]
      exact hfold
    · exact hstays' i func (hstays i func hi hne) hne
    · rw [List.forall_mem_cons]
      obtain ⟨i, func, hlookup, hi, hne⟩ := hdone hmodule
      exact ⟨⟨i, func, hlookup, hstays' i func hi hne, hne⟩, hdone' hmodule⟩

/-! ## All fat binaries are loaded -/

/-- The driver loads the images, or has no binary in them for the GPU, and finds the kernels that
are listed. -/
def Cuda.Knows (cuda : Cuda) (bs : List (Fatbin cuda maxKernelArg)) : Prop :=
  ∀ (i : Nat) (b : Fatbin cuda maxKernelArg), bs[i]? = some b →
    ∃ module, cuda.moduleLoadData i b.image = some module ∧
      (module ≠ 0 → ∀ k ∈ b.kernels, ∃ cufunc,
        cuda.moduleGetFunction module k.name = some cufunc)

/-- The wrappers of fat binaries, with any pointers. -/
def Wrappers : Bytes → List (Fatbin cuda maxKernelArg) → Prop
  | info, [] => info = []
  | info, b :: bs => ∃ ptr rest, info = { b.wrapper with ptr := ptr }.toBytes ++ rest ∧
      Wrappers rest bs

/-- A directory with fat binaries. -/
structure Holds (dir : Directory) (trailing : Bool) (bs : List (Fatbin cuda maxKernelArg)) :
    Prop where
  count : bs.length < 2 ^ 31
  info : ∃ wrappers, dir.fatbinInfo = some (leBytes 4 bs.length ++ wrappers) ∧ Wrappers wrappers bs
  fatbin : ∀ (i : Nat) (b : Fatbin cuda maxKernelArg), bs[i]? = some b →
    dir.fatbin i = some b.image
  functionArg : ∀ (i : Nat) (b : Fatbin cuda maxKernelArg), bs[i]? = some b →
    dir.functionArg i = some b.argFile
  fatfunction : bs ≠ [] → dir.fatfunction = some (delimited trailing (bs.map Fatbin.functions))

theorem fatbinCount_append {n : Nat} (h : n < 2 ^ 31) (rest : Bytes) :
    fatbinCount (leBytes 4 n ++ rest) = .ok (n, rest) := by
  have hlt : n < 256 ^ 4 := h.trans (by norm_num)
  rw [fatbinCount, take_append (length_leBytes 4 n)]
  simp only [bind, Except.bind, leNat_leBytes_of_lt hlt, if_pos h]

/-- What has been registered when a fat binary has been loaded. -/
structure Registered (i : Nat) (b : Fatbin cuda maxKernelArg)
    (before after : List (Option FatbinFunction)) (module : Nat) : Prop where
  loaded : cuda.moduleLoadData i b.image = some module
  filled : Filled module b before after
  done : module ≠ 0 → ∀ f ∈ b.functions, Done (b.table before.length) after f.deviceName

theorem length_withNull_pos (fatbinFuncs : List (Option FatbinFunction)) :
    0 < (withNull fatbinFuncs).length := by
  rw [withNull]
  split_ifs with hnil
  · exact Nat.one_pos
  · exact List.length_pos_of_ne_nil hnil

section

variable {dir : Directory} {trailing : Bool}

/-- One round of the loop. -/
theorem loadAndRegisterFatbin_ok {w : Worker} {rest : List (List FunctionRecord)}
    (hfatbin : dir.fatbin w.numFatbins = some b.image)
    (harg : dir.functionArg w.numFatbins = some b.argFile)
    (hstream : w.fatfunction.contents dir = .ok (delimited trailing (b.functions :: rest)))
    (hmodule : cuda.moduleLoadData w.numFatbins b.image = some module)
    (hfound : module ≠ 0 → ∀ k ∈ b.kernels, ∃ cufunc,
      cuda.moduleGetFunction module k.name = some cufunc)
    (ptr : UInt64) :
    ∃ after, w.loadAndRegisterFatbin cuda maxKernelArg dir { b.wrapper with ptr := ptr } =
        .ok (⟨w.numFatbins + 1, after, afterFirst trailing rest⟩, b.loaded) ∧
      Registered w.numFatbins b (withNull w.fatbinFuncs) after module := by
  obtain ⟨after, hfold, hfilled, -, hdone⟩ :=
    (filled_start module b (withNull w.fatbinFuncs)).registerAll
      (length_withNull_pos w.fatbinFuncs) hfound (fun f hf => hf)
  refine ⟨after, ?_, hmodule, hfilled, hdone⟩
  rw [loadAndRegisterFatbin_written hfatbin harg hstream hmodule, hfold]
  rfl

/-- The worker loads all fat binaries, and what each of them keeps about the array holds at the
end. -/
theorem loadFatbins_run {I : List (Fatbin cuda maxKernelArg) → List (Option FatbinFunction) → Prop}
    {bs : List (Fatbin cuda maxKernelArg)} (hcuda : cuda.Knows bs) (hdir : Holds dir trailing bs)
    (hI : ∀ done b before after module, I done before →
      Registered done.length b (withNull before) after module → I (done ++ [b]) after)
    {done todo : List (Fatbin cuda maxKernelArg)} (hbs : bs = done ++ todo) {w : Worker}
    (hw : w.numFatbins = done.length) (hinv : I done w.fatbinFuncs)
    (hstream : todo ≠ [] →
      w.fatfunction.contents dir = .ok (delimited trailing (todo.map Fatbin.functions)))
    {info : Bytes} (hinfo : Wrappers info todo) :
    ∃ w', w.loadFatbins cuda maxKernelArg dir todo.length info =
      .ok (w', todo.map Fatbin.loaded) ∧ I bs w'.fatbinFuncs := by
  induction todo generalizing done w info with
  | nil =>
    rw [List.append_nil] at hbs
    exact ⟨w, rfl, hbs ▸ hinv⟩
  | cons b todo ih =>
    have hb : bs[w.numFatbins]? = some b := by
      rw [hbs, hw, List.getElem?_append_right (Nat.le_refl _), Nat.sub_self]
      rfl
    obtain ⟨ptr, rest, rfl, hrest⟩ := hinfo
    obtain ⟨module, hmodule, hfound⟩ := hcuda w.numFatbins b hb
    obtain ⟨after, hload, hregistered⟩ := loadAndRegisterFatbin_ok (hdir.fatbin _ b hb)
      (hdir.functionArg _ b hb) (hstream (List.cons_ne_nil b todo)) hmodule hfound ptr
    have hnext : todo ≠ [] → (afterFirst trailing (todo.map Fatbin.functions)).contents dir =
        .ok (delimited trailing (todo.map Fatbin.functions)) := by
      intro hne
      rw [afterFirst, if_neg (by simpa using hne)]
      rfl
    have hbs' : bs = (done ++ [b]) ++ todo := by
      rw [hbs, List.append_assoc]
      rfl
    obtain ⟨w', hrun, hfinal⟩ := ih hbs'
      (w := ⟨w.numFatbins + 1, after, afterFirst trailing (todo.map Fatbin.functions)⟩)
      (by simp [hw])
      (hI done b w.fatbinFuncs after module hinv (hw ▸ hregistered)) hnext hrest
    refine ⟨w', ?_, hfinal⟩
    simp only [List.length_cons, Worker.loadFatbins, readWrapper_append, bind, Except.bind, hload,
      hrun, List.map_cons]

/-- The worker loads a directory with fat binaries. -/
theorem workerInitEpilogue_run
    {I : List (Fatbin cuda maxKernelArg) → List (Option FatbinFunction) → Prop}
    {bs : List (Fatbin cuda maxKernelArg)} (hcuda : cuda.Knows bs) (hdir : Holds dir trailing bs)
    (hI : ∀ done b before after module, I done before →
      Registered done.length b (withNull before) after module → I (done ++ [b]) after)
    (hstart : I [] []) :
    ∃ w, workerInitEpilogue cuda maxKernelArg dir = .ok (w, bs.map Fatbin.loaded) ∧
      I bs w.fatbinFuncs := by
  obtain ⟨wrappers, hinfo, hwrappers⟩ := hdir.info
  have hstream : bs ≠ [] → FunctionFile.unopened.contents dir =
      .ok (delimited trailing (bs.map Fatbin.functions)) := by
    intro hne
    rw [FunctionFile.contents, hdir.fatfunction hne]
  obtain ⟨w, hrun, hfinal⟩ := loadFatbins_run hcuda hdir hI (List.nil_append bs).symm
    (w := ⟨0, [], .unopened⟩) rfl hstart hstream hwrappers
  refine ⟨w, ?_, hfinal⟩
  rw [workerInitEpilogue, hinfo]
  simp only [bind, Except.bind, fatbinCount_append hdir.count]
  exact hrun

end

/-! ## What has been loaded was in the files -/

theorem nextArg_eq_ok {size : Nat} {bs rest : Bytes} {r : ArgRecord}
    (h : nextArg size bs = .ok (.record r rest)) : bs = r.toBytes ++ rest := by
  rw [nextArg] at h
  split_ifs at h
  · cases h
  obtain ⟨⟨r', rest'⟩, hread, hfound⟩ := map_eq_ok.1 h
  cases hfound
  exact (readArg_eq_ok hread).1

variable {dir : Directory}

theorem loadFunctionArgInfo_eq_ok {i : Nat} {fatbinFuncs : List (Option FatbinFunction)}
    {ht : HashTable Bytes Nat} {r : Reading ArgTable ArgRecord Unit}
    (h : loadFunctionArgInfo maxKernelArg dir i fatbinFuncs ht = .ok r) :
    dir.functionArg i = some (r.records.flatMap ArgRecord.toBytes) := by
  rw [loadFunctionArgInfo] at h
  split at h
  · cases h
  rename_i file hfile
  obtain ⟨-, -, tail, hbytes, hstop⟩ := readLoop_sound
    (fun bs r rest hr => ⟨nextArg_eq_ok hr, trivial⟩) h
  rw [nextArg] at hstop
  split_ifs at hstop with hend
  · rw [hfile, hbytes, hend, List.append_nil]
  · obtain ⟨r', -, hfound⟩ := map_eq_ok.1 hstop
    cases hfound

variable {w : Worker}

/-- The steps for a fat binary that is loaded. -/
theorem loadAndRegisterFatbin_eq_ok {w' : Worker} {wrapper : Wrapper} {l : LoadedFatbin}
    (h : w.loadAndRegisterFatbin cuda maxKernelArg dir wrapper = .ok (w', l)) :
    ∃ module args stream functions,
      loadFunctionArgInfo maxKernelArg dir w.numFatbins w.fatbinFuncs ∅ = .ok args ∧
      w.fatfunction.contents dir = .ok stream ∧
      readAll .undetermined nextFunction (registerRead cuda module args.state.ht)
        args.state.fatbinFuncs stream = .ok functions ∧
      w' = ⟨w.numFatbins + 1, functions.state, functions.last⟩ ∧ l.args = args.records := by
  rw [Worker.loadAndRegisterFatbin] at h
  split at h
  · cases h
  split_ifs at h
  split at h
  · cases h
  rename_i module _
  obtain ⟨args, hargs, h⟩ := bind_eq_ok.1 h
  obtain ⟨stream, hstream, h⟩ := bind_eq_ok.1 h
  obtain ⟨functions, hread, h⟩ := bind_eq_ok.1 h
  cases h
  exact ⟨module, args, stream, functions, hargs, hstream, hread, rfl, rfl⟩

/-- The argument files have the records that have been loaded. -/
theorem functionArg_of_loadFatbins {count : Nat} {w' : Worker} {info : Bytes}
    {loaded : List LoadedFatbin}
    (h : w.loadFatbins cuda maxKernelArg dir count info = .ok (w', loaded)) (i : Nat)
    (l : LoadedFatbin) (hl : loaded[i]? = some l) :
    dir.functionArg (w.numFatbins + i) = some (l.args.flatMap ArgRecord.toBytes) := by
  induction count generalizing w info loaded i with
  | zero =>
    cases h
    cases hl
  | succ count ih =>
    rw [Worker.loadFatbins] at h
    obtain ⟨⟨wrapper, info'⟩, -, h⟩ := bind_eq_ok.1 h
    obtain ⟨⟨next, first⟩, hfirst, h⟩ := bind_eq_ok.1 h
    obtain ⟨⟨last, rest⟩, hrest, h⟩ := bind_eq_ok.1 h
    cases h
    obtain ⟨_, args, _, functions, hargs, -, -, rfl, hrecords⟩ :=
      loadAndRegisterFatbin_eq_ok hfirst
    cases i with
    | zero =>
      cases hl
      rw [hrecords]
      exact loadFunctionArgInfo_eq_ok hargs
    | succ i =>
      have hnext := ih hrest i hl
      dsimp only at hnext
      rw [← hnext]
      congr 1
      omega

theorem functionArg_of_worker {loaded : List LoadedFatbin}
    (h : workerInitEpilogue cuda maxKernelArg dir = .ok (w, loaded)) (i : Nat) (l : LoadedFatbin)
    (hl : loaded[i]? = some l) : dir.functionArg i = some (l.args.flatMap ArgRecord.toBytes) := by
  rw [workerInitEpilogue] at h
  split at h
  · cases h
  obtain ⟨⟨count, info⟩, -, h⟩ := bind_eq_ok.1 h
  have hfile := functionArg_of_loadFatbins h i l hl
  rwa [Nat.zero_add] at hfile

end Ava.Dump
