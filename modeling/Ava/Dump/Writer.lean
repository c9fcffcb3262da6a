import Ava.Dump.Format
import Mathlib.Logic.Function.Basic

/-!
# Writing a dump

`__helper_dump_fatbin` and `__helper_dump_cuda_function` of the dump helpers; those for TensorFlow
and for ONNX differ in `MAX_KERNEL_ARG`. A fat binary is registered, then its functions. The
functions of all fat binaries go into one file, which is created when the first function is
registered, and the separator is written when the next fat binary is registered, if there is a file
to write it to. `written` has the files in closed form.
-/

set_option autoImplicit false

namespace Ava.Dump

open Ava.Lib
open Function (update)

variable {cuda : Cuda} {maxKernelArg : Nat}

/-- The state of the helpers: `fatbin_num`, `num_fatbins` and the files. The file of the functions
is the one of `fd_functions`. -/
structure Dumper where
  fatbinNum : Nat
  numFatbins : Nat
  files : Directory

/-- Nothing has been registered, and there are no files. -/
def Dumper.start : Dumper := ⟨0, 0, ⟨none, fun _ => none, fun _ => none, none⟩⟩

/-- `__helper_dump_fatbin`, with the kernels that `cuobjdump` lists. The buffer for the name of the
argument file has room for nine digits. -/
def Dumper.dumpFatbin (d : Dumper) (b : Fatbin cuda maxKernelArg) : Except Fault Dumper :=
  if 10 ^ 9 ≤ d.numFatbins then .error .undetermined
  else
    let info := writeAt (d.files.fatbinInfo.getD []) 0 (leBytes 4 (d.fatbinNum + 1))
    .ok
      { fatbinNum := d.fatbinNum + 1
        numFatbins := d.numFatbins + 1
        files :=
          { fatbinInfo := some (writeAt info info.length b.wrapper.toBytes)
            fatbin := update d.files.fatbin d.numFatbins (some b.image)
            functionArg := update d.files.functionArg d.numFatbins (some b.argFile)
            fatfunction := d.files.fatfunction.map fun stream => stream ++ separator } }

/-- `__helper_dump_cuda_function`. -/
def Dumper.dumpCudaFunction (d : Dumper) (f : FunctionRecord) : Dumper :=
  { d with files := { d.files with
      fatfunction := some (d.files.fatfunction.getD [] ++ f.toBytes) } }

/-- A fat binary is registered, and its functions. -/
def Dumper.register (d : Dumper) (b : Fatbin cuda maxKernelArg) : Except Fault Dumper :=
  (d.dumpFatbin b).map fun d => b.functions.foldl dumpCudaFunction d

/-- The files after fat binaries have been registered. -/
def dump (bs : List (Fatbin cuda maxKernelArg)) : Except Fault Directory :=
  (bs.foldlM Dumper.register Dumper.start).map Dumper.files

/-! ## The files -/

/-- The functions of one fat binary. -/
def segment (fs : List FunctionRecord) : Bytes := fs.flatMap FunctionRecord.toBytes

/-- Segments with a separator between them. -/
def joined : List (List FunctionRecord) → Bytes
  | [] => []
  | fs :: rest => segment fs ++ rest.flatMap fun gs => separator ++ segment gs

/-- Fat binaries before the first function leave no trace. -/
def functionStream : List (List FunctionRecord) → Option Bytes
  | [] => none
  | [] :: rest => functionStream rest
  | (f :: fs) :: rest => some (joined ((f :: fs) :: rest))

/-- The files in closed form. -/
def written (bs : List (Fatbin cuda maxKernelArg)) : Directory where
  fatbinInfo :=
    if bs = [] then none
    else some (leBytes 4 bs.length ++ bs.flatMap fun b => b.wrapper.toBytes)
  fatbin := fun i => bs[i]?.map Fatbin.image
  functionArg := fun i => bs[i]?.map Fatbin.argFile
  fatfunction := functionStream (bs.map Fatbin.functions)

variable {bs : List (Fatbin cuda maxKernelArg)}

theorem fatbinInfo_written (h : bs ≠ []) :
    (written bs).fatbinInfo =
      some (leBytes 4 bs.length ++ bs.flatMap fun b => b.wrapper.toBytes) := by
  rw [written]
  exact if_neg h

theorem joined_append {gs : List (List FunctionRecord)} (h : gs ≠ []) (fs : List FunctionRecord) :
    joined (gs ++ [fs]) = joined gs ++ (separator ++ segment fs) := by
  obtain ⟨g, gs, rfl⟩ := List.exists_cons_of_ne_nil h
  simp [joined]

theorem functionStream_append (gs : List (List FunctionRecord)) (fs : List FunctionRecord) :
    functionStream (gs ++ [fs]) =
      match functionStream gs with
      | some stream => some (stream ++ (separator ++ segment fs))
      | none => if fs = [] then none else some (segment fs) := by
  induction gs with
  | nil =>
    cases fs with
    | nil => rfl
    | cons f fs => simp [functionStream, joined]
  | cons g gs ih =>
    cases g with
    | nil => exact ih
    | cons f g =>
      have hjoined := joined_append (List.cons_ne_nil (f :: g) gs) fs
      rw [List.cons_append] at hjoined
      rw [List.cons_append, functionStream, functionStream, hjoined]

/-- The functions of a fat binary go to the end of the file. -/
theorem foldl_dumpCudaFunction (d : Dumper) (fs : List FunctionRecord) :
    fs.foldl Dumper.dumpCudaFunction d =
      if fs = [] then d
      else { d with files := { d.files with
        fatfunction := some (d.files.fatfunction.getD [] ++ segment fs) } } := by
  induction fs generalizing d with
  | nil => rfl
  | cons f fs ih =>
    rw [List.foldl_cons, ih, if_neg (List.cons_ne_nil f fs)]
    by_cases hfs : fs = []
    · simp [hfs, Dumper.dumpCudaFunction, segment]
    · simp [hfs, Dumper.dumpCudaFunction, segment]

theorem update_getElem? {α : Type} (f : α → Bytes) (as : List α) (a : α) :
    update (fun i => as[i]?.map f) as.length (some (f a)) = fun i => (as ++ [a])[i]?.map f := by
  funext i
  rcases lt_trichotomy i as.length with hlt | rfl | hgt
  · rw [Function.update_of_ne hlt.ne, List.getElem?_append_left hlt]
  · simp
  · rw [Function.update_of_ne hgt.ne', List.getElem?_eq_none hgt.le,
      List.getElem?_eq_none (by simpa using hgt)]

/-- The counter is overwritten, and the wrapper is added behind the others. -/
theorem info_append (bs : List (Fatbin cuda maxKernelArg)) :
    writeAt ((written bs).fatbinInfo.getD []) 0 (leBytes 4 (bs.length + 1)) =
      leBytes 4 (bs.length + 1) ++ bs.flatMap fun b => b.wrapper.toBytes := by
  by_cases hbs : bs = []
  · subst hbs
    simpa [written] using writeAt_end [] (leBytes 4 1)
  · have hwrite := writeAt_append_middle [] (leBytes 4 bs.length)
      (bs.flatMap fun b => b.wrapper.toBytes) (leBytes 4 (bs.length + 1))
      (by rw [length_leBytes, length_leBytes])
    simpa [written, hbs] using hwrite

/-- The state after some fat binaries. -/
def dumped (bs : List (Fatbin cuda maxKernelArg)) : Dumper := ⟨bs.length, bs.length, written bs⟩

theorem dumpFatbin_dumped (h : bs.length < 10 ^ 9) (b : Fatbin cuda maxKernelArg) :
    (dumped bs).dumpFatbin b = .ok ⟨bs.length + 1, bs.length + 1, { written (bs ++ [b]) with
      fatfunction := (functionStream (bs.map Fatbin.functions)).map fun stream =>
        stream ++ separator }⟩ := by
  have hinfo : (written (bs ++ [b])).fatbinInfo =
      some (leBytes 4 (bs.length + 1) ++ (bs.flatMap fun b => b.wrapper.toBytes) ++
        b.wrapper.toBytes) := by
    simp [written]
  have hfatbin : update (written bs).fatbin bs.length (some b.image) =
      (written (bs ++ [b])).fatbin := update_getElem? Fatbin.image bs b
  have harg : update (written bs).functionArg bs.length (some b.argFile) =
      (written (bs ++ [b])).functionArg := update_getElem? Fatbin.argFile bs b
  have hroom : ¬ 10 ^ 9 ≤ (dumped bs).numFatbins := not_le.2 h
  rw [Dumper.dumpFatbin, if_neg hroom]
  dsimp only [dumped]
  rw [info_append, writeAt_end, hfatbin, harg, hinfo]
  rfl

theorem register_full (h : 10 ^ 9 ≤ bs.length) (b : Fatbin cuda maxKernelArg) :
    (dumped bs).register b = .error .undetermined := by
  have hfull : 10 ^ 9 ≤ (dumped bs).numFatbins := h
  rw [Dumper.register, Dumper.dumpFatbin, if_pos hfull]
  rfl

/-- The functions follow the separator, or they are the first ones. -/
theorem fatfunction_written_append (bs : List (Fatbin cuda maxKernelArg))
    (b : Fatbin cuda maxKernelArg) : (written (bs ++ [b])).fatfunction =
      if b.functions = [] then
        (functionStream (bs.map Fatbin.functions)).map fun stream => stream ++ separator
      else some (((functionStream (bs.map Fatbin.functions)).map fun stream =>
        stream ++ separator).getD [] ++ segment b.functions) := by
  have hwritten : (written (bs ++ [b])).fatfunction =
      functionStream (bs.map Fatbin.functions ++ [b.functions]) := by
    rw [written, List.map_append]
    rfl
  rw [hwritten, functionStream_append]
  cases functionStream (bs.map Fatbin.functions) with
  | none => rfl
  | some stream =>
    by_cases hnone : b.functions = []
    · simp [hnone, segment]
    · simp [hnone]

theorem register_dumped (h : bs.length < 10 ^ 9) (b : Fatbin cuda maxKernelArg) :
    (dumped bs).register b = .ok (dumped (bs ++ [b])) := by
  have hfiles := fatfunction_written_append bs b
  rw [Dumper.register, dumpFatbin_dumped h, Except.map, foldl_dumpCudaFunction, dumped,
    List.length_append, List.length_singleton]
  split_ifs at hfiles ⊢
  · rw [← hfiles]
  · rw [← hfiles]

/-- The helpers write the files in closed form, as long as there is room for the name of the
argument file. -/
theorem dump_eq (bs : List (Fatbin cuda maxKernelArg)) :
    dump bs = if bs.length ≤ 10 ^ 9 then .ok (written bs) else .error .undetermined := by
  have hrun : bs.foldlM Dumper.register Dumper.start =
      if bs.length ≤ 10 ^ 9 then .ok (dumped bs) else .error .undetermined := by
    induction bs using List.reverseRecOn with
    | nil => rfl
    | append_singleton bs b ih =>
      rw [List.foldlM_append, ih, List.length_append, List.length_singleton]
      by_cases hlt : bs.length < 10 ^ 9
      · rw [if_pos hlt.le, if_pos (Nat.succ_le_of_lt hlt)]
        simp only [bind, Except.bind, List.foldlM_cons, register_dumped hlt]
        rfl
      · rw [if_neg (not_le.2 (Nat.lt_succ_of_le (not_lt.1 hlt)))]
        split_ifs
        · simp only [bind, Except.bind, List.foldlM_cons, register_full (not_lt.1 hlt)]
        · rfl
  rw [dump, hrun]
  split_ifs
  · rfl
  · rfl

end Ava.Dump
