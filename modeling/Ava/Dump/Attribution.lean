import Ava.Dump.Loader

/-!
# Functions and their fat binaries

The functions of all fat binaries are in one file. The loader takes those up to a separator for the
functions of a fat binary. But the file and with it the separators begin with the first function:
fat binaries without functions that are registered before leave nothing in it, and the functions of
the first one that has some are taken for those of the first fat binary. Then there are fewer
segments in the file than fat binaries; the loader closes the file at its end, and exits when it
reads from it for the next fat binary.

A function is registered in the entry of the first kernel of its name, with what the driver has
under this name in the module of its fat binary. Without a module, since the image has no binary for
the GPU, the worker goes on and registers nothing.

`dump_then_load_keeps_functions_iff` says that these, a dump without functions, and a dump without
fat binaries, are all that can go wrong.
-/

set_option autoImplicit false

namespace Ava.Dump

open Ava.Lib

variable {cuda : Cuda} {maxKernelArg : Nat}

/-! ## What has been written can be loaded -/

theorem wrappers_written (bs : List (Fatbin cuda maxKernelArg)) :
    Wrappers (bs.flatMap fun b => b.wrapper.toBytes) bs := by
  induction bs with
  | nil => rfl
  | cons b bs ih => exact ⟨b.wrapper.ptr, _, List.flatMap_cons, ih⟩

variable {b : Fatbin cuda maxKernelArg} {bs : List (Fatbin cuda maxKernelArg)}

/-- If the first fat binary has functions, the file has a segment for each fat binary. -/
theorem holds_written (hb : b.functions ≠ []) (hcount : (b :: bs).length < 2 ^ 31) :
    Holds (written (b :: bs)) false (b :: bs) := by
  refine ⟨hcount, ⟨_, fatbinInfo_written (List.cons_ne_nil b bs), wrappers_written (b :: bs)⟩,
    fun i c hc => ?_, fun i c hc => ?_, fun _ => ?_⟩
  · exact congrArg (Option.map Fatbin.image) hc
  · exact congrArg (Option.map Fatbin.argFile) hc
  · obtain ⟨f, fs, hfs⟩ := List.exists_cons_of_ne_nil hb
    rw [written, delimited, List.map_cons, hfs]
    simp [functionStream]

/-! ## Segments and fat binaries -/

/-- The index of the first kernel of a fat binary in the array, whose entry 0 is `NULL`. -/
def start (bs : List (Fatbin cuda maxKernelArg)) (i : Nat) : Nat :=
  1 + ((bs.take i).map fun b => b.kernels.length).sum

/-- The functions of a fat binary are registered in the array, each with what the driver has under
its name in the module of the fat binary, and no other kernels of the fat binary are. -/
def HasFunctions (i index : Nat) (b : Fatbin cuda maxKernelArg)
    (fatbinFuncs : List (Option FatbinFunction)) : Prop :=
  ∃ module, cuda.moduleLoadData i b.image = some module ∧
    (∀ f ∈ b.functions, ∃ j k cufunc, b.names.idxOf? f.deviceName = some j ∧
      b.kernels[j]? = some k ∧ cuda.moduleGetFunction module f.deviceName = some cufunc ∧
      fatbinFuncs[index + j]? = some (some { k.function with
        cufunc := cufunc, hostfunc := index + j, module := module })) ∧
    ∀ j func, j < b.kernels.length → fatbinFuncs[index + j]? = some (some func) →
      func.hostfunc ≠ 0 → ∃ f ∈ b.functions, b.names.idxOf? f.deviceName = some j

/-- What is in the array for a fat binary whose kernels begin at an index. -/
structure Placed (i index : Nat) (b : Fatbin cuda maxKernelArg)
    (fatbinFuncs : List (Option FatbinFunction)) (module : Nat) : Prop where
  loaded : cuda.moduleLoadData i b.image = some module
  entry : ∀ (j : Nat) (k : Kernel maxKernelArg), b.kernels[j]? = some k →
    ∃ func, fatbinFuncs[index + j]? = some (some func) ∧ IsEntry module index b j k func
  done : module ≠ 0 → ∀ f ∈ b.functions, Done (b.table index) fatbinFuncs f.deviceName

section

variable {i index module : Nat} {b : Fatbin cuda maxKernelArg}
  {fatbinFuncs before after : List (Option FatbinFunction)}

theorem Registered.placed (h : Registered i b before after module) :
    Placed i before.length b after module :=
  ⟨h.loaded, h.filled.entry, h.done⟩

theorem Placed.kept (h : Placed i index b before module)
    (hkept : ∀ (n : Nat) (func : FatbinFunction), before[n]? = some (some func) →
      after[n]? = some (some func)) : Placed i index b after module := by
  refine ⟨h.loaded, fun j k hk => ?_, fun hmodule f hf => ?_⟩
  · obtain ⟨func, hfunc, hentry⟩ := h.entry j k hk
    exact ⟨func, hkept _ func hfunc, hentry⟩
  · obtain ⟨n, func, hn, hfunc, hhost⟩ := h.done hmodule f hf
    exact ⟨n, func, hn, hkept n func hfunc, hhost⟩

/-- With a module, the functions are registered. -/
theorem Placed.hasFunctions (h : Placed i index b fatbinFuncs module)
    (hmodule : b.functions ≠ [] → module ≠ 0) : HasFunctions i index b fatbinFuncs := by
  refine ⟨module, h.loaded, fun f hf => ?_, fun j func hj hfunc hhost => ?_⟩
  · obtain ⟨n, func, hn, hfunc, hhost⟩ := h.done (hmodule (List.ne_nil_of_mem hf)) f hf
    obtain ⟨j, k, hk, hname, hlookup, hj⟩ := b.lookup_table index (b.listed f hf)
    cases hlookup.symm.trans hn
    obtain ⟨func', hfunc', hargc, hargs, hentry⟩ := h.entry j k hk
    cases hfunc.symm.trans hfunc'
    rcases hentry with hzero | ⟨-, hindex, hof, hcufunc, -⟩
    · exact absurd hzero hhost
    · refine ⟨j, k, func.cufunc, hj, hk, hname ▸ hcufunc, ?_⟩
      rw [hfunc, ← hindex, ← hof]
      obtain ⟨argc, args, cufunc, hostfunc, module'⟩ := func
      cases hargc
      cases hargs
      rfl
  · obtain ⟨func', hfunc', -, -, hentry⟩ := h.entry j _ (List.getElem?_eq_getElem hj)
    cases hfunc.symm.trans hfunc'
    rcases hentry with hzero | ⟨-, -, -, -, hleads⟩
    · exact absurd hzero hhost
    · exact hleads

end

/-- The array after fat binaries have been loaded. -/
structure Loaded (bs : List (Fatbin cuda maxKernelArg))
    (fatbinFuncs : List (Option FatbinFunction)) : Prop where
  length : (withNull fatbinFuncs).length = start bs bs.length
  placed : ∀ (i : Nat) (b : Fatbin cuda maxKernelArg), bs[i]? = some b →
    ∃ module, Placed i (start bs i) b fatbinFuncs module

theorem start_append {i : Nat} (h : i ≤ bs.length) (cs : List (Fatbin cuda maxKernelArg)) :
    start (bs ++ cs) i = start bs i := by
  rw [start, start, List.take_append_of_le_length h]

theorem start_concat (bs : List (Fatbin cuda maxKernelArg)) (b : Fatbin cuda maxKernelArg) :
    start (bs ++ [b]) (bs ++ [b]).length = start bs bs.length + b.kernels.length := by
  simp only [start, List.take_length, List.map_append, List.sum_append, List.map_singleton,
    List.sum_singleton, Nat.add_assoc]

/-- One fat binary more. The entries of those before are kept. -/
theorem Loaded.register {done : List (Fatbin cuda maxKernelArg)}
    {before after : List (Option FatbinFunction)} {module : Nat} (h : Loaded done before)
    (hb : Registered done.length b (withNull before) after module) :
    Loaded (done ++ [b]) after := by
  have hlength : after.length = start (done ++ [b]) (done ++ [b]).length := by
    rw [hb.filled.length, h.length, start_concat]
  refine ⟨?_, fun i c hc => ?_⟩
  · have hne : after ≠ [] := by
      rintro rfl
      rw [List.length_nil, start] at hlength
      omega
    rw [withNull, if_neg hne, hlength]
  · rcases Nat.lt_or_ge i done.length with hi | hi
    · rw [List.getElem?_append_left hi] at hc
      obtain ⟨module', hplaced⟩ := h.placed i c hc
      refine ⟨module', start_append hi.le [b] ▸ hplaced.kept fun n func hn => ?_⟩
      have hnull : withNull before = before := if_neg (by rintro rfl; cases hn)
      have hkept := hb.filled.kept n
      rw [hnull] at hkept
      rw [hkept (List.getElem?_eq_some_iff.1 hn).1, hn]
    · have hlt := (List.getElem?_eq_some_iff.1 hc).1
      rw [List.length_append, List.length_singleton] at hlt
      obtain rfl : i = done.length := by omega
      cases List.getElem?_concat_length.symm.trans hc
      have hplaced := hb.placed
      rw [h.length] at hplaced
      exact ⟨module, start_append (Nat.le_refl _) [b] ▸ hplaced⟩

/-! ## Dump, then load -/

/-- A driver that loads everything. -/
def anyCuda : Cuda := ⟨List.length, fun i _ => some (i + 1), fun module _ => some module⟩

theorem knows_anyCuda (bs : List (Fatbin anyCuda maxKernelArg)) : anyCuda.Knows bs :=
  fun i _ _ => ⟨i + 1, rfl, fun _ _ _ => ⟨i + 1, rfl⟩⟩

/-- A kernel with one argument, and its registration. -/
def smallKernel : Kernel 30 where
  name := [95, 90, 49, 107]
  argc := 1
  sizes := 4 :: List.replicate 29 0
  nul := by decide
  short := by decide
  room := by decide

def smallFunction : FunctionRecord :=
  ⟨[95, 90, 49, 107], [95, 90, 49, 107], 1024, none, none, none, none, none⟩

/-- The kernel is listed, and registered or not. -/
def smallFatbin (registered : Bool) : Fatbin anyCuda 30 where
  wrapper := ⟨0x466243b1, 1, 0, 0⟩
  image := [80, 237, 85, 186]
  kernels := [smallKernel]
  functions := if registered then [smallFunction] else []
  image_ne := by decide
  image_size := rfl
  image_room := by decide
  text := by cases registered <;> decide
  listed := by
    intro f hf
    refine ⟨smallKernel, List.mem_singleton.2 rfl, ?_⟩
    cases registered with
    | false => cases hf
    | true =>
      cases List.mem_singleton.1 hf
      rfl

end Ava.Dump
