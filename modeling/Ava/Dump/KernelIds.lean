import Ava.Dump.Attribution

/-!
# The ids of the kernels

The guest library and the worker load the same argument files (`cava/samples/tensorflow/tf_opt.c`,
`cava/samples/onnxruntime/onnx_opt.c`). The guest keeps one table from names to ids for all fat
binaries, and the worker makes one for each fat binary, with which it registers the functions of
this fat binary alone. An id that the guest sends is an index into the array of the worker.
-/

set_option autoImplicit false

namespace Ava.Dump

open Ava.Lib

variable {cuda : Cuda} {maxKernelArg : Nat}

/-- The names of all argument files, in the order of the array from its entry 1 on. -/
def kernelNames (bs : List (Fatbin cuda maxKernelArg)) : List Bytes := bs.flatMap Fatbin.names

/-- The argument count of an entry and what is known about the arguments. -/
def argInfo (func : Option FatbinFunction) : Option (UInt32 × List KernelArg) :=
  func.map fun func => (func.argc, func.args)

def Fatbin.argInfos (b : Fatbin cuda maxKernelArg) : List (Option (UInt32 × List KernelArg)) :=
  b.kernels.map fun k => argInfo (some k.function)

/-- The array has no entry 0 as long as nothing has been loaded. -/
def argInfos (bs : List (Fatbin cuda maxKernelArg)) : List (Option (UInt32 × List KernelArg)) :=
  if bs = [] then [] else none :: bs.flatMap Fatbin.argInfos

theorem length_flatMap_argInfos (bs : List (Fatbin cuda maxKernelArg)) :
    (bs.flatMap Fatbin.argInfos).length = (kernelNames bs).length := by
  simp [kernelNames, Fatbin.argInfos, Fatbin.names, List.length_flatMap]

/-- The position of a name with one fat binary more: the first one stays. -/
theorem idxOf?_kernelNames (bs : List (Fatbin cuda maxKernelArg)) (b : Fatbin cuda maxKernelArg)
    (name : Bytes) : (kernelNames (bs ++ [b])).idxOf? name =
      ((kernelNames bs).idxOf? name).or
        ((b.names.idxOf? name).map fun i => i + (kernelNames bs).length) := by
  rw [kernelNames, List.flatMap_append, List.flatMap_singleton]
  exact List.findIdx?_append

section

variable {done : List (Fatbin cuda maxKernelArg)} {before after : List (Option FatbinFunction)}

theorem argInfo_withNull (h : before.map argInfo = argInfos done) :
    (withNull before).map argInfo = none :: done.flatMap Fatbin.argInfos := by
  rw [argInfos] at h
  rw [withNull]
  split_ifs at h with hdone
  · rw [if_pos (List.map_eq_nil_iff.1 h), hdone]
    rfl
  · have hne : before ≠ [] := by
      rintro rfl
      cases h
    rw [if_neg hne, h]

theorem length_withNull (h : before.map argInfo = argInfos done) :
    (withNull before).length = 1 + (kernelNames done).length := by
  have hlength := congrArg List.length (argInfo_withNull h)
  rw [List.length_map, List.length_cons, length_flatMap_argInfos] at hlength
  rw [hlength, Nat.add_comm]

theorem argInfos_append {b : Fatbin cuda maxKernelArg} (h : before.map argInfo = argInfos done)
    (hafter : after.map argInfo = (withNull before).map argInfo ++ b.argInfos) :
    after.map argInfo = argInfos (done ++ [b]) := by
  rw [hafter, argInfo_withNull h, argInfos, if_neg (by simp), List.flatMap_append,
    List.flatMap_singleton]
  rfl

end

/-! ## The guest -/

/-- The guest has loaded the argument files. -/
structure GuestHas (bs : List (Fatbin cuda maxKernelArg)) (g : Guest) : Prop where
  numFatbins : g.numFatbins = bs.length
  infos : g.fatbinFuncs.map argInfo = argInfos bs
  lookup : ∀ name, g.htName2idx.lookup name = ((kernelNames bs).idxOf? name).map fun i => 1 + i

theorem guestHas_nil : GuestHas ([] : List (Fatbin cuda maxKernelArg)) ⟨0, [], ∅⟩ :=
  ⟨rfl, rfl, fun _ => rfl⟩

variable {dir : Directory}

theorem GuestHas.load {done : List (Fatbin cuda maxKernelArg)} {g : Guest} (h : GuestHas done g)
    {b : Fatbin cuda maxKernelArg} (hb : dir.functionArg done.length = some b.argFile) :
    ∃ g', g.load maxKernelArg dir = .ok g' ∧ GuestHas (done ++ [b]) g' := by
  rw [← h.numFatbins] at hb
  obtain ⟨funcName, hload⟩ := loadFunctionArgInfo_written hb g.fatbinFuncs g.htName2idx
  rw [Guest.load, hload]
  refine ⟨_, rfl, ⟨by simp [h.numFatbins], argInfos_append h.infos ?_, fun name => ?_⟩⟩
  · rw [List.map_append, List.map_map]
    rfl
  · dsimp only
    rw [lookup_addNames, h.lookup, length_withNull h.infos, idxOf?_kernelNames, Option.map_or,
      Option.map_map]
    congr 2
    funext i
    simp only [Function.comp_apply]
    omega

theorem GuestHas.loadAll {done todo : List (Fatbin cuda maxKernelArg)} {g : Guest}
    (h : GuestHas done g)
    (hdir : ∀ i b, (done ++ todo)[i]? = some b → dir.functionArg i = some b.argFile) :
    ∃ g', g.loadAll maxKernelArg dir todo.length = .ok g' ∧ GuestHas (done ++ todo) g' := by
  induction todo generalizing done g with
  | nil =>
    rw [List.append_nil]
    exact ⟨g, rfl, h⟩
  | cons b todo ih =>
    have hb : (done ++ b :: todo)[done.length]? = some b := by
      rw [List.getElem?_append_right (Nat.le_refl _), Nat.sub_self]
      rfl
    have hassoc : done ++ b :: todo = (done ++ [b]) ++ todo := by
      rw [List.append_assoc]
      rfl
    obtain ⟨next, hload, hnext⟩ := h.load (hdir _ b hb)
    rw [hassoc] at hdir ⊢
    obtain ⟨g', hrest, hfinal⟩ := ih hnext hdir
    refine ⟨g', ?_, hfinal⟩
    rw [List.length_cons, Guest.loadAll, hload]
    exact hrest

/-- The guest loads a directory with fat binaries. -/
theorem guestlibInitPrologue_run {trailing : Bool} {bs : List (Fatbin cuda maxKernelArg)}
    (hdir : Holds dir trailing bs) :
    ∃ g, guestlibInitPrologue maxKernelArg dir = .ok g ∧ GuestHas bs g := by
  obtain ⟨wrappers, hinfo, -⟩ := hdir.info
  obtain ⟨g, hload, hg⟩ : ∃ g, Guest.loadAll maxKernelArg dir bs.length ⟨0, [], ∅⟩ = .ok g ∧
      GuestHas ([] ++ bs) g := guestHas_nil.loadAll hdir.functionArg
  refine ⟨g, ?_, hg⟩
  rw [guestlibInitPrologue, hinfo]
  simp only [bind, Except.bind, fatbinCount_append hdir.count]
  exact hload

/-! ## The worker -/

/-- The entry holds the function of this name in the module of the first fat binary that lists
it. -/
def Serves (bs : List (Fatbin cuda maxKernelArg)) (fatbinFuncs : List (Option FatbinFunction))
    (id : Nat) (name : Bytes) : Prop :=
  ∃ (i : Nat) (b : Fatbin cuda maxKernelArg) (module : Nat) (func : FatbinFunction),
    bs[i]? = some b ∧ name ∈ b.names ∧
    (∀ (i' : Nat) (b' : Fatbin cuda maxKernelArg), i' < i → bs[i']? = some b' →
      name ∉ b'.names) ∧
    cuda.moduleLoadData i b.image = some module ∧ fatbinFuncs[id]? = some (some func) ∧
    func.module = module ∧ cuda.moduleGetFunction module name = some func.cufunc

/-- The module is there, and all kernels that are listed are registered. -/
def Ready (i : Nat) (b : Fatbin cuda maxKernelArg) : Prop :=
  cuda.moduleLoadData i b.image ≠ some 0 ∧ ∀ name ∈ b.names, ∃ f ∈ b.functions, f.deviceName = name

/-- The worker has loaded the fat binaries. -/
structure WorkerHas (bs : List (Fatbin cuda maxKernelArg))
    (fatbinFuncs : List (Option FatbinFunction)) : Prop where
  infos : fatbinFuncs.map argInfo = argInfos bs
  serves : (∀ i b, bs[i]? = some b → Ready i b) → ∀ name i,
    (kernelNames bs).idxOf? name = some i → Serves bs fatbinFuncs (1 + i) name

section

variable {module : Nat} {b : Fatbin cuda maxKernelArg} {before after : List (Option FatbinFunction)}

/-- A registration leaves the arguments as they are. -/
theorem Filled.infos (h : Filled module b before after) :
    after.map argInfo = before.map argInfo ++ b.argInfos := by
  refine List.ext_getElem? fun i => ?_
  rw [List.getElem?_map]
  by_cases hi : i < before.length
  · rw [h.kept i hi, List.getElem?_append_left (by rwa [List.length_map]), List.getElem?_map]
  rw [List.getElem?_append_right (by rw [List.length_map]; omega), List.length_map]
  obtain ⟨j, rfl⟩ := Nat.exists_eq_add_of_le (Nat.le_of_not_lt hi)
  rw [Nat.add_sub_cancel_left, Fatbin.argInfos, List.getElem?_map]
  cases hk : b.kernels[j]? with
  | none =>
    have hend := List.getElem?_eq_none_iff.1 hk
    rw [List.getElem?_eq_none (by rw [h.length]; omega)]
    rfl
  | some k =>
    obtain ⟨func, hfunc, hargc, hargs, -⟩ := h.entry j k hk
    rw [hfunc]
    simp [argInfo, hargc, hargs]

variable {done : List (Fatbin cuda maxKernelArg)}

/-- An entry of a fat binary that has been loaded before is kept. -/
theorem Serves.append {id : Nat} {name : Bytes} (h : Serves done before id name)
    (hfilled : Filled module b before after) : Serves (done ++ [b]) after id name := by
  obtain ⟨i, c, module', func, hc, hmem, hfirst, hmodule, hfunc, hof, hcufunc⟩ := h
  have hi := (List.getElem?_eq_some_iff.1 hc).1
  have hid := (List.getElem?_eq_some_iff.1 hfunc).1
  refine ⟨i, c, module', func, ?_, hmem, fun i' c' hlt hc' => ?_, hmodule, ?_, hof, hcufunc⟩
  · rw [List.getElem?_append_left hi, hc]
  · rw [List.getElem?_append_left (hlt.trans hi)] at hc'
    exact hfirst i' c' hlt hc'
  · rw [hfilled.kept id hid, hfunc]

/-- The entry of a name that no fat binary before lists. -/
theorem Registered.serves (h : Registered done.length b before after module)
    (hready : Ready done.length b) {name : Bytes} (hfirst : name ∉ kernelNames done) {j : Nat}
    (hj : b.names.idxOf? name = some j) : Serves (done ++ [b]) after (before.length + j) name := by
  have hne : module ≠ 0 := by
    rintro rfl
    exact hready.1 h.loaded
  have hmem : name ∈ b.names := List.isSome_idxOf?.1 (Option.isSome_iff_exists.2 ⟨j, hj⟩)
  obtain ⟨k, hk, hname⟩ := List.mem_map.1 hmem
  obtain ⟨j', k', hk', hname', hlookup, hj'⟩ := b.lookup_table before.length ⟨k, hk, hname⟩
  cases hj.symm.trans hj'
  obtain ⟨f, hf, hdevice⟩ := hready.2 name hmem
  obtain ⟨id, func, hid, hfunc, hhost⟩ := h.done hne f hf
  rw [hdevice] at hid
  cases hlookup.symm.trans hid
  obtain ⟨func', hfunc', -, -, hentry⟩ := h.filled.entry j k' hk'
  cases hfunc.symm.trans hfunc'
  rcases hentry with hzero | ⟨-, -, hmodule, hcufunc, -⟩
  · exact absurd hzero hhost
  refine ⟨done.length, b, module, func, List.getElem?_concat_length, hmem, ?_, h.loaded, hfunc,
    hmodule, hname' ▸ hcufunc⟩
  intro i' c hlt hc hmemc
  rw [List.getElem?_append_left hlt] at hc
  exact hfirst (List.mem_flatMap.2 ⟨c, List.mem_of_getElem? hc, hmemc⟩)

theorem WorkerHas.register (h : WorkerHas done before)
    (hb : Registered done.length b (withNull before) after module) :
    WorkerHas (done ++ [b]) after := by
  refine ⟨argInfos_append h.infos hb.filled.infos, fun hready name i hi => ?_⟩
  have hdone : ∀ i c, done[i]? = some c → Ready i c := by
    intro i c hc
    have hlt := (List.getElem?_eq_some_iff.1 hc).1
    exact hready i c (by rw [List.getElem?_append_left hlt, hc])
  have hlast : Ready done.length b := hready done.length b List.getElem?_concat_length
  rw [idxOf?_kernelNames] at hi
  cases hold : (kernelNames done).idxOf? name with
  | some i' =>
    rw [hold] at hi
    cases hi
    have hserves := h.serves hdone name i hold
    -- the entry 0 stands for an array that is not there
    refine Serves.append ?_ hb.filled
    have hne : before ≠ [] := by
      rintro rfl
      obtain ⟨-, -, -, func, -, -, -, -, hfunc, -⟩ := hserves
      cases hfunc
    rw [withNull, if_neg hne]
    exact hserves
  | none =>
    rw [hold, Option.none_or] at hi
    obtain ⟨j, hj, rfl⟩ := Option.map_eq_some_iff.1 hi
    have hserves := hb.serves hlast (List.idxOf?_eq_none_iff.1 hold) hj
    rw [length_withNull h.infos] at hserves
    rw [show 1 + (j + (kernelNames done).length) = 1 + (kernelNames done).length + j by omega]
    exact hserves

end

/-! ## Both -/

/-- The arrays of the guest and of the worker have the same arguments at every index, and an id that
the guest associates with a name is the index of the worker's function of this name in the first
fat binary that lists it. The guest finds the names that are listed. -/
theorem guest_worker_agree_on_kernel_ids {dir : Directory} {trailing : Bool}
    (bs : List (Fatbin cuda maxKernelArg)) (hdir : Holds dir trailing bs) (hcuda : cuda.Knows bs)
    (hmodules : ∀ i b, bs[i]? = some b → cuda.moduleLoadData i b.image ≠ some 0)
    (hnames : ∀ b ∈ bs, ∀ name, (∃ f ∈ b.functions, f.deviceName = name) ↔ name ∈ b.names) :
    ∃ g w loaded, guestlibInitPrologue maxKernelArg dir = .ok g ∧
      workerInitEpilogue cuda maxKernelArg dir = .ok (w, loaded) ∧
      g.fatbinFuncs.length = w.fatbinFuncs.length ∧
      g.fatbinFuncs.map argInfo = w.fatbinFuncs.map argInfo ∧
      (∀ name, (∃ id func, g.assosiateFunction name = .ok (id, func)) ↔ ∃ b ∈ bs, name ∈ b.names) ∧
      ∀ name id func, g.assosiateFunction name = .ok (id, func) →
        Serves bs w.fatbinFuncs id name := by
  obtain ⟨g, hguest, hg⟩ := guestlibInitPrologue_run hdir
  obtain ⟨w, hworker, hw⟩ := workerInitEpilogue_run hcuda hdir
    (fun _ _ _ _ _ hdone hb => WorkerHas.register hdone hb)
    ⟨rfl, fun _ name i hi => by cases hi⟩
  have hready : ∀ i b, bs[i]? = some b → Ready i b := fun i b hb =>
    ⟨hmodules i b hb, fun name hname => (hnames b (List.mem_of_getElem? hb) name).2 hname⟩
  have hinfos : g.fatbinFuncs.map argInfo = w.fatbinFuncs.map argInfo :=
    hg.infos.trans hw.infos.symm
  refine ⟨g, w, _, hguest, hworker, ?_, hinfos, fun name => ?_, fun name id func hid => ?_⟩
  · have hlength := congrArg List.length hinfos
    rwa [List.length_map, List.length_map] at hlength
  · rw [Guest.assosiateFunction, hg.lookup name]
    cases hi : (kernelNames bs).idxOf? name with
    | none =>
      refine iff_of_false (by rintro ⟨id, func, hid⟩; cases hid) fun hlisted => ?_
      exact List.idxOf?_eq_none_iff.1 hi (List.mem_flatMap.2 hlisted)
    | some i =>
      refine iff_of_true ⟨_, _, rfl⟩ (List.mem_flatMap.1 ?_)
      exact List.isSome_idxOf?.1 (Option.isSome_iff_exists.2 ⟨i, hi⟩)
  · rw [Guest.assosiateFunction, hg.lookup name] at hid
    cases hi : (kernelNames bs).idxOf? name with
    | none =>
      rw [hi] at hid
      cases hid
    | some i =>
      rw [hi] at hid
      cases hid
      exact hw.serves hready name i hi

/-- Two fat binaries that list and register the same kernel. -/
theorem guest_worker_agree_on_kernel_ids_twice : ∃ g w loaded id func,
    guestlibInitPrologue 30 (written [smallFatbin true, smallFatbin true]) = .ok g ∧
    workerInitEpilogue anyCuda 30 (written [smallFatbin true, smallFatbin true]) =
      .ok (w, loaded) ∧
    g.fatbinFuncs.map argInfo = w.fatbinFuncs.map argInfo ∧
    g.assosiateFunction smallKernel.name = .ok (id, func) ∧
    Serves [smallFatbin true, smallFatbin true] w.fatbinFuncs id smallKernel.name := by
  have hdir : Holds (written [smallFatbin true, smallFatbin true]) false _ :=
    holds_written (by decide) (by decide)
  obtain ⟨g, w, loaded, hguest, hworker, -, hinfos, hfound, hserves⟩ :=
    guest_worker_agree_on_kernel_ids [smallFatbin true, smallFatbin true] hdir (knows_anyCuda _)
      (fun i b _ => by simp [anyCuda])
      (fun b hb name => by
        have hsmall : b = smallFatbin true := by simpa using hb
        subst hsmall
        simp [Fatbin.names, smallFatbin, smallFunction, smallKernel, eq_comm])
  obtain ⟨id, func, hid⟩ := (hfound smallKernel.name).2
    ⟨smallFatbin true, List.mem_cons_self, List.mem_singleton.2 rfl⟩
  exact ⟨g, w, loaded, id, func, hguest, hworker, hinfos, hid, hserves _ _ _ hid⟩

end Ava.Dump
