import Ava.Dump.Loader

/-!
# The dump combinator

`tools/dump_combinator/dump_combinator.cpp` copies the fat binaries of two dumps into one directory,
those of the second behind those of the first. It has its own definitions of the records, with
`MAX_KERNEL_ARG` 25, and its own rules for the end of a file: `read_all` takes a number of which
some bytes are missing for the end of the file.

The argument file that is written for a fat binary is never closed. The number of descriptors that
a process can have is limited, so it is a part of the state how many are open.
-/

set_option autoImplicit false

namespace Ava.Dump.Combinator

open Ava.Lib
open Function (update)

/-- The `MAX_KERNEL_ARG` of the tool. -/
def maxKernelArg : Nat := 25

/-- The process: `global_num_fatbins`, `global_fatbin_funcs`, the files that have been written,
`fatfunction_fd_load` and how many descriptors are open. Reading from the descriptor -1 is like
reading from a closed one. -/
structure Process where
  numFatbins : Nat
  fatbinFuncs : List (Option FatbinFunction)
  dump : Directory
  fatfunctionLoad : FunctionFile
  opened : Nat

/-- The standard streams are open. -/
def Process.start : Process :=
  ⟨0, [], ⟨none, fun _ => none, fun _ => none, none⟩, .unopened, 3⟩

/-! ## Arguments -/

/-- For a name of size 0 `read_all` returns a variable that has not been set. -/
def nextCopiedArg (bs : Bytes) : Except Fault (Found ArgRecord Unit) :=
  if bs.length < 8 then .ok (.stop ())
  else if leNat (bs.take 8) = 0 then .error .undetermined
  else (readArg (functionSize maxKernelArg) bs).map fun r => .record r.1 r.2

/-- A record is added to the table and written, if the file could be opened. -/
def copyArg (writable : Bool) (t : ArgTable) (r : ArgRecord) : Except Fault ArgTable := do
  let t ← t.add maxKernelArg r
  if writable then .ok t else .error .exit

/-- `__helper_load_function_arg_info`: the table of the names. -/
def loadFunctionArgInfo (limit : Nat) (load : Directory) (fatbinNum : Nat) (p : Process) :
    Except Fault (HashTable Bytes Nat × Process) :=
  match if p.opened < limit then load.functionArg fatbinNum else none with
  | none => .error .exit
  | some file => do
      let writable := decide (p.opened + 1 < limit)
      let r ← readAll .undetermined nextCopiedArg (copyArg writable)
        ⟨[], withNull p.fatbinFuncs, ∅⟩ file
      let copy := if writable then some (r.records.flatMap ArgRecord.toBytes) else none
      .ok (r.state.ht,
        { p with
          fatbinFuncs := r.state.fatbinFuncs
          dump := { p.dump with functionArg := update p.dump.functionArg p.numFatbins copy }
          opened := if writable then p.opened + 1 else p.opened })

/-! ## Functions -/

/-- `fatfunction_fd_load` is opened for the first fat binary of a directory. -/
def Process.openFunctions (limit : Nat) (load : Directory) (p : Process) : Process :=
  match p.fatfunctionLoad with
  | .unopened =>
    match if p.opened < limit then load.fatfunction else none with
    | none => { p with fatfunctionLoad := .closed }
    | some stream => { p with fatfunctionLoad := .opened stream, opened := p.opened + 1 }
  | .opened _ => p
  | .closed => p

/-- A function is read as the loader does it. What has been read is written as it is. -/
def nextCopiedFunction (bs : Bytes) : Except Fault (Found (FunctionRecord × Bytes) FunctionFile) :=
  if bs.length < 8 then .ok (.stop .closed)
  else (nextFunction bs).map fun found =>
    match found with
    | .record f rest => .record (f, bs.take (bs.length - rest.length)) rest
    | .stop last => .stop last

/-- The name of a function has to be in the table. -/
def checkFunction (ht : HashTable Bytes Nat) (_ : Unit) (f : FunctionRecord × Bytes) :
    Except Fault Unit :=
  if f.1.deviceName ∈ ht then .ok () else .error .assertion

def Process.writeFunctions (p : Process) (bytes : Bytes) : Process :=
  { p with dump := { p.dump with fatfunction := some (p.dump.fatfunction.getD [] ++ bytes) } }

/-- The loop over the functions. A descriptor that cannot be read leaves the size 0, which is taken
for a separator. -/
def Process.copyFunctions (p : Process) (ht : HashTable Bytes Nat) : Except Fault Process :=
  match p.fatfunctionLoad with
  | .opened stream => do
      let r ← readAll .undetermined nextCopiedFunction (checkFunction ht) () stream
      .ok { p.writeFunctions (r.records.flatMap Prod.snd) with
        fatfunctionLoad := r.last
        opened := if r.last = .closed then p.opened - 1 else p.opened }
  | .unopened => .ok p
  | .closed => .ok p

/-! ## Fat binaries -/

/-- `fatfunction_fd_dump` is opened for the first fat binary of all. The descriptor of the image has
been closed, so that there is one. -/
def Process.openDump (p : Process) : Process :=
  match p.dump.fatfunction with
  | none => { p with dump := { p.dump with fatfunction := some [] }, opened := p.opened + 1 }
  | some _ => p

def Process.writeImage (p : Process) (image : Bytes) : Process :=
  { p with dump := { p.dump with fatbin := update p.dump.fatbin p.numFatbins (some image) } }

/-- The number of fat binaries is overwritten, and the wrapper added. -/
def Process.writeInfo (p : Process) (limit : Nat) (wrapper : Wrapper) : Except Fault Process :=
  if p.opened < limit then
    let info := writeAt (p.dump.fatbinInfo.getD []) 0 (leBytes 4 (p.numFatbins + 1))
    .ok { p with
      numFatbins := p.numFatbins + 1
      dump := { p.dump with fatbinInfo := some (writeAt info info.length wrapper.toBytes) } }
  else .error .exit

/-- `__helper_load_and_dump_fatbin`. The image is at an address that `malloc` has returned. The size
of a file that could not be opened is not known. -/
def loadAndDumpFatbin (cuda : Cuda) (limit : Nat) (address : Nat → UInt64) (load : Directory)
    (fatbinNum : Nat) (wrapper : Wrapper) (p : Process) : Except Fault Process :=
  match if p.opened < limit then load.fatbin fatbinNum else none with
  | none => .error .undetermined
  | some image =>
    if image = [] then .error .undetermined
    else if image.length ≠ cuda.binarySize image then .error .assertion
    else do
      let (ht, p) ← loadFunctionArgInfo limit load fatbinNum (p.writeImage image).openDump
      let p ← (p.openFunctions limit load).copyFunctions ht
      (p.writeFunctions separator).writeInfo limit
        { wrapper with ptr := address p.numFatbins }

/-- The loop of `load_dump_fatbin`. -/
def copyFatbins (cuda : Cuda) (limit : Nat) (address : Nat → UInt64) (load : Directory) :
    Nat → Nat → Bytes → Process → Except Fault Process
  | 0, _, _, p => .ok p
  | count + 1, i, info, p => do
      let (wrapper, info) ← readWrapper info
      let p ← loadAndDumpFatbin cuda limit address load i wrapper p
      copyFatbins cuda limit address load count (i + 1) info p

/-- `load_dump_fatbin`. Without `fatbin-info.ava` the number of fat binaries stays 0. -/
def loadDumpFatbin (cuda : Cuda) (limit : Nat) (address : Nat → UInt64) (load : Directory)
    (p : Process) : Except Fault Process :=
  match if p.opened < limit then load.fatbinInfo else none with
  | none => .ok { p with fatfunctionLoad := .unopened }
  | some info => do
      let count := leNat (info.take 4)
      let p ← copyFatbins cuda limit address load (if count < 2 ^ 31 then count else 0) 0
        (info.drop 4) { p with opened := p.opened + 1 }
      .ok { p with fatfunctionLoad := .unopened, opened := p.opened - 1 }

/-- `main`, with an empty directory to write to: the files there at the end. -/
def main (cuda : Cuda) (limit : Nat) (address : Nat → UInt64) (load₁ load₂ : Directory) :
    Except Fault Directory := do
  let p ← loadDumpFatbin cuda limit address load₁ .start
  let p ← loadDumpFatbin cuda limit address load₂ p
  .ok p.dump

/-! ## An argument file is copied -/

/-- The names that a reader with one buffer sees. A name without a NUL goes on with what the buffer
has held before. -/
def bufferNames : Bytes → List ArgRecord → Except Fault (List Bytes)
  | _, [] => .ok []
  | buffer, r :: rs => do
      let buffer := r.name ++ buffer.drop r.name.length
      let name ← cString buffer
      let names ← bufferNames buffer rs
      .ok (name :: names)

/-- A file is in the layout of the tool: it consists of records with 25 arguments, in which these
names are seen. -/
structure LaidOut (file : Bytes) (records : List ArgRecord) (names : List Bytes) : Prop where
  bytes : file = records.flatMap ArgRecord.toBytes
  sizes : ∀ r ∈ records, 0 < r.name.length ∧ r.name.length < 1024 ∧
    r.func.length = functionSize maxKernelArg
  names : bufferNames [] records = .ok names

theorem nextCopiedArg_record {r : ArgRecord} (hpos : 0 < r.name.length)
    (hname : r.name.length < 1024) (hfunc : r.func.length = functionSize maxKernelArg)
    (rest : Bytes) : nextCopiedArg (r.toBytes ++ rest) = .ok (.record r rest) := by
  have hlt : r.name.length < 256 ^ 8 := hname.trans (by norm_num)
  have hlong : ¬ (r.toBytes ++ rest).length < 8 := by
    rw [ArgRecord.toBytes, List.append_assoc, List.length_append, length_leBytes]
    omega
  have hsize : leNat ((r.toBytes ++ rest).take 8) = r.name.length := by
    rw [ArgRecord.toBytes, List.append_assoc, List.take_left' (length_leBytes 8 _),
      leNat_leBytes_of_lt hlt]
  rw [nextCopiedArg, if_neg hlong, hsize, if_neg hpos.ne', readArg_append hname hfunc]
  rfl

theorem nextCopiedArg_eq_ok {bs rest : Bytes} {r : ArgRecord}
    (h : nextCopiedArg bs = .ok (.record r rest)) :
    bs = r.toBytes ++ rest ∧ 0 < r.name.length ∧ r.name.length < 1024 ∧
      r.func.length = functionSize maxKernelArg := by
  rw [nextCopiedArg] at h
  split_ifs at h with hshort hzero
  · cases h
  obtain ⟨⟨r', rest'⟩, hread, hfound⟩ := map_eq_ok.1 h
  cases hfound
  obtain ⟨rfl, hname, hfunc⟩ := readArg_eq_ok hread
  have hlt : r'.name.length < 256 ^ 8 := hname.trans (by norm_num)
  refine ⟨rfl, Nat.pos_of_ne_zero fun hempty => hzero ?_, hname, hfunc⟩
  rw [ArgRecord.toBytes, List.append_assoc, List.take_left' (length_leBytes 8 _),
    leNat_leBytes_of_lt hlt, hempty]

/-- What records add to the table. -/
theorem foldlM_copyArg (rs : List ArgRecord) (t : ArgTable) :
    rs.foldlM (copyArg true) t = (bufferNames t.funcName rs).map fun names =>
      ⟨rs.foldl (fun buffer r => r.name ++ buffer.drop r.name.length) t.funcName,
        t.fatbinFuncs ++ rs.map fun r => some (.ofBytes maxKernelArg r.func),
        addNames t.ht t.fatbinFuncs.length names⟩ := by
  induction rs generalizing t with
  | nil =>
    rw [List.map_nil, List.append_nil]
    rfl
  | cons r rs ih =>
    rw [List.foldlM_cons, bufferNames]
    simp only [copyArg, ArgTable.add, bind, Except.bind]
    cases cString (r.name ++ t.funcName.drop r.name.length) with
    | error e => rfl
    | ok name =>
      simp only [if_true]
      rw [ih]
      cases bufferNames (r.name ++ t.funcName.drop r.name.length) rs with
      | error e => rfl
      | ok names =>
        simp [Except.map, addNames]

variable {file : Bytes}

/-- A file in the layout of the tool is read. -/
theorem readAll_laidOut {records : List ArgRecord} {names : List Bytes}
    (h : LaidOut file records names) (funcs : List (Option FatbinFunction)) :
    ∃ funcName, readAll .undetermined nextCopiedArg (copyArg true) ⟨[], funcs, ∅⟩ file =
      .ok ⟨⟨funcName, funcs ++ records.map fun r => some (.ofBytes maxKernelArg r.func),
        addNames ∅ funcs.length names⟩, records, ()⟩ := by
  have hread : readAll .undetermined nextCopiedArg (copyArg true) ⟨[], funcs, ∅⟩
      (records.flatMap ArgRecord.toBytes ++ []) =
      (records.foldlM (copyArg true) ⟨[], funcs, ∅⟩).map fun t => ⟨t, records, ()⟩ := by
    refine readAll_stop (fun r _ => r.length_pos) (fun r hr => ?_) rfl _
    obtain ⟨hpos, hname, hfunc⟩ := h.sizes r hr
    exact nextCopiedArg_record hpos hname hfunc
  rw [List.append_nil, ← h.bytes, foldlM_copyArg, h.names] at hread
  exact ⟨_, hread⟩

/-- A file that is written as it was read is in the layout of the tool. -/
theorem laidOut_of_readAll {funcs : List (Option FatbinFunction)}
    {r : Reading ArgTable ArgRecord Unit}
    (h : readAll .undetermined nextCopiedArg (copyArg true) ⟨[], funcs, ∅⟩ file = .ok r)
    (hbytes : r.records.flatMap ArgRecord.toBytes = file) :
    ∃ names, LaidOut file r.records names ∧
      r.state.fatbinFuncs = funcs ++ r.records.map (fun r => some (.ofBytes maxKernelArg r.func)) ∧
      r.state.ht = addNames ∅ funcs.length names := by
  obtain ⟨hsizes, hfold, -⟩ := readLoop_sound (fun bs r rest => nextCopiedArg_eq_ok) h
  rw [foldlM_copyArg] at hfold
  obtain ⟨names, hnames, hstate⟩ := map_eq_ok.1 hfold
  refine ⟨names, ⟨hbytes.symm, hsizes, hnames⟩, ?_, ?_⟩
  · rw [← hstate]
  · rw [← hstate]

/-- The file is copied if it is in the layout of the tool and there is a descriptor for the copy. -/
theorem loadFunctionArgInfo_iff {limit i : Nat} {load : Directory} {p p' : Process}
    {ht : HashTable Bytes Nat} (hfile : load.functionArg i = some file) :
    (loadFunctionArgInfo limit load i p = .ok (ht, p') ∧
      p'.dump.functionArg p.numFatbins = some file) ↔
    p.opened + 1 < limit ∧ ∃ records names, LaidOut file records names ∧
      ht = addNames ∅ (withNull p.fatbinFuncs).length names ∧
      p' = { p with
        fatbinFuncs := withNull p.fatbinFuncs ++
          records.map fun r => some (.ofBytes maxKernelArg r.func)
        dump := { p.dump with functionArg := update p.dump.functionArg p.numFatbins (some file) }
        opened := p.opened + 1 } := by
  rw [loadFunctionArgInfo, hfile]
  constructor
  · rintro ⟨hload, hcopy⟩
    by_cases hopen : p.opened < limit
    · rw [if_pos hopen] at hload
      obtain ⟨r, hread, hload⟩ := bind_eq_ok.1 hload
      by_cases hwritable : p.opened + 1 < limit
      · simp only [hwritable, decide_true, if_true] at hread hload
        cases hload
        dsimp only at hcopy
        rw [Function.update_self] at hcopy
        obtain ⟨names, hlaid, hfuncs, hht⟩ := laidOut_of_readAll hread (Option.some.inj hcopy)
        refine ⟨hwritable, r.records, names, hlaid, hht, ?_⟩
        rw [hfuncs, hcopy]
      · -- the copy is not there
        simp only [hwritable, decide_false, Bool.false_eq_true, if_false] at hload
        cases hload
        dsimp only at hcopy
        rw [Function.update_self] at hcopy
        cases hcopy
    · rw [if_neg hopen] at hload
      cases hload
  · rintro ⟨hwritable, records, names, hlaid, rfl, rfl⟩
    obtain ⟨funcName, hread⟩ := readAll_laidOut hlaid (withNull p.fatbinFuncs)
    refine ⟨?_, Function.update_self _ _ _⟩
    rw [if_pos (Nat.lt_of_succ_lt hwritable)]
    simp only [hwritable, decide_true, if_true, hread, bind, Except.bind, ← hlaid.bytes]

/-! ## What is left as it is

A fat binary gets the next number, and its argument file is the only one that changes. -/

section

variable {cuda : Cuda} {limit : Nat} {address : Nat → UInt64} {load : Directory} {p p' : Process}

variable {i : Nat}

theorem loadFunctionArgInfo_frame {ht : HashTable Bytes Nat}
    (h : loadFunctionArgInfo limit load i p = .ok (ht, p')) :
    p'.numFatbins = p.numFatbins ∧
      ∀ j, j ≠ p.numFatbins → p'.dump.functionArg j = p.dump.functionArg j := by
  rw [loadFunctionArgInfo] at h
  split at h
  · cases h
  obtain ⟨r, -, h⟩ := bind_eq_ok.1 h
  cases h
  exact ⟨rfl, fun j hj => Function.update_of_ne hj _ _⟩

theorem openFunctions_frame (limit : Nat) (load : Directory) (p : Process) :
    (p.openFunctions limit load).numFatbins = p.numFatbins ∧
      (p.openFunctions limit load).dump = p.dump := by
  rw [Process.openFunctions]
  split
  · split
    · exact ⟨rfl, rfl⟩
    · exact ⟨rfl, rfl⟩
  · exact ⟨rfl, rfl⟩
  · exact ⟨rfl, rfl⟩

theorem copyFunctions_frame {ht : HashTable Bytes Nat} (h : p.copyFunctions ht = .ok p') :
    p'.numFatbins = p.numFatbins ∧ p'.dump.functionArg = p.dump.functionArg := by
  rw [Process.copyFunctions] at h
  split at h
  · obtain ⟨r, -, h⟩ := bind_eq_ok.1 h
    cases h
    exact ⟨rfl, rfl⟩
  · cases h
    exact ⟨rfl, rfl⟩
  · cases h
    exact ⟨rfl, rfl⟩

variable {wrapper : Wrapper}

theorem writeInfo_eq_ok (h : p.writeInfo limit wrapper = .ok p') :
    p.opened < limit ∧ p'.numFatbins = p.numFatbins + 1 ∧
      p'.dump.functionArg = p.dump.functionArg := by
  rw [Process.writeInfo] at h
  split_ifs at h with hopened
  cases h
  exact ⟨hopened, rfl, rfl⟩

theorem openDump_eq (p : Process) : p.openDump =
    { p with
      dump := { p.dump with fatfunction := some (p.dump.fatfunction.getD []) }
      opened := p.opened + if p.dump.fatfunction = none then 1 else 0 } := by
  obtain ⟨n, funcs, ⟨info, fatbin, arg, stream⟩, load, opened⟩ := p
  cases stream with
  | none => rfl
  | some bytes => rfl

/-- The steps for a fat binary that is copied. -/
theorem loadAndDumpFatbin_eq_ok
    (h : loadAndDumpFatbin cuda limit address load i wrapper p = .ok p') :
    ∃ image ht p₁ p₂, load.fatbin i = some image ∧
      loadFunctionArgInfo limit load i (p.writeImage image).openDump = .ok (ht, p₁) ∧
      (p₁.openFunctions limit load).copyFunctions ht = .ok p₂ ∧
      (p₂.writeFunctions separator).writeInfo limit
        { wrapper with ptr := address p₂.numFatbins } = .ok p' := by
  rw [loadAndDumpFatbin] at h
  split at h
  · cases h
  rename_i image himage
  split_ifs at h himage
  obtain ⟨⟨ht, p₁⟩, hargs, h⟩ := bind_eq_ok.1 h
  obtain ⟨p₂, hfunctions, h⟩ := bind_eq_ok.1 h
  exact ⟨image, ht, p₁, p₂, himage, hargs, hfunctions, h⟩

theorem loadAndDumpFatbin_frame
    (h : loadAndDumpFatbin cuda limit address load i wrapper p = .ok p') :
    p'.numFatbins = p.numFatbins + 1 ∧
      ∀ j, j ≠ p.numFatbins → p'.dump.functionArg j = p.dump.functionArg j := by
  obtain ⟨image, ht, p₁, p₂, -, hargs, hfunctions, hinfo⟩ := loadAndDumpFatbin_eq_ok h
  rw [openDump_eq] at hargs
  obtain ⟨hnum₁, hkept⟩ := loadFunctionArgInfo_frame hargs
  obtain ⟨hnum, hdump⟩ := openFunctions_frame limit load p₁
  obtain ⟨hnum₂, harg₂⟩ := copyFunctions_frame hfunctions
  obtain ⟨-, hnum', harg'⟩ := writeInfo_eq_ok hinfo
  refine ⟨?_, fun j hj => ?_⟩
  · rw [hnum']
    exact congrArg (· + 1) (hnum₂.trans (hnum.trans hnum₁))
  · rw [harg']
    refine (congrFun harg₂ j).trans ?_
    rw [hdump]
    exact hkept j hj

theorem copyFatbins_frame {count : Nat} {info : Bytes}
    (h : copyFatbins cuda limit address load count i info p = .ok p') :
    p'.numFatbins = p.numFatbins + count ∧
      ∀ j, j < p.numFatbins → p'.dump.functionArg j = p.dump.functionArg j := by
  induction count generalizing i info p with
  | zero =>
    cases h
    exact ⟨rfl, fun _ _ => rfl⟩
  | succ count ih =>
    rw [copyFatbins] at h
    obtain ⟨⟨wrapper, info'⟩, -, h⟩ := bind_eq_ok.1 h
    obtain ⟨q, hstep, h⟩ := bind_eq_ok.1 h
    obtain ⟨hnum, hkept⟩ := loadAndDumpFatbin_frame hstep
    obtain ⟨hnum', hkept'⟩ := ih h
    refine ⟨by omega, fun j hj => ?_⟩
    rw [hkept' j (by omega)]
    exact hkept j (by omega)

theorem loadDumpFatbin_frame (h : loadDumpFatbin cuda limit address load p = .ok p') :
    ∀ j, j < p.numFatbins → p'.dump.functionArg j = p.dump.functionArg j := by
  rw [loadDumpFatbin] at h
  split at h
  · cases h
    exact fun _ _ => rfl
  · obtain ⟨q, hcopy, h⟩ := bind_eq_ok.1 h
    cases h
    exact fun j hj => (copyFatbins_frame hcopy).2 j hj

end

/-! ## The functions of a fat binary are copied -/

theorem nextCopiedFunction_record {f : FunctionRecord} (hf : f.Valid) (rest : Bytes) :
    nextCopiedFunction (f.toBytes ++ rest) = .ok (.record (f, f.toBytes) rest) := by
  have hlong : ¬ (f.toBytes ++ rest).length < 8 := by
    rw [List.length_append, FunctionRecord.toBytes, List.length_append, length_textBytes]
    omega
  have htake : (f.toBytes ++ rest).take ((f.toBytes ++ rest).length - rest.length) = f.toBytes := by
    rw [List.length_append, Nat.add_sub_cancel]
    exact List.take_left' rfl
  rw [nextCopiedFunction, if_neg hlong, nextFunction_record hf]
  simp only [Except.map, htake]

theorem nextCopiedFunction_stop {bs : Bytes} {last : FunctionFile}
    (h : nextFunction bs = .ok (.stop last)) : nextCopiedFunction bs = .ok (.stop last) := by
  rw [nextCopiedFunction]
  split_ifs with hshort
  · -- fewer bytes than a size are an error for the loader, unless there are none
    rw [nextFunction] at h
    split_ifs at h with hnil
    · cases h
      rfl
    · rw [take, takeBytes_short _ hshort] at h
      cases h
  · rw [h]
    rfl

theorem foldlM_checkFunction (ht : HashTable Bytes Nat) (fs : List FunctionRecord) :
    (fs.map fun f => (f, f.toBytes)).foldlM (checkFunction ht) () =
      if ∀ f ∈ fs, f.deviceName ∈ ht then .ok () else .error .assertion := by
  induction fs with
  | nil => simp [pure, Except.pure]
  | cons f fs ih =>
    rw [List.map_cons, List.foldlM_cons, checkFunction]
    by_cases hf : f.deviceName ∈ ht
    · simp only [hf, if_true, bind, Except.bind, List.forall_mem_cons, true_and]
      exact ih
    · simp only [hf, if_false, bind, Except.bind, List.forall_mem_cons, false_and]

/-- The functions up to the next separator, or up to the end of the file. -/
theorem readAll_copied {fs : List FunctionRecord} (hfs : ∀ f ∈ fs, f.Valid) (trailing : Bool)
    (rest : List (List FunctionRecord)) (ht : HashTable Bytes Nat) :
    readAll .undetermined nextCopiedFunction (checkFunction ht) ()
        (delimited trailing (fs :: rest)) =
      if ∀ f ∈ fs, f.deviceName ∈ ht then
        .ok ⟨(), fs.map fun f => (f, f.toBytes), afterFirst trailing rest⟩
      else .error .assertion := by
  obtain ⟨tail, hbytes, hstop⟩ := delimited_cons trailing fs rest
  have hsegment : segment fs = (fs.map fun f => (f, f.toBytes)).flatMap Prod.snd := by
    rw [List.flatMap_map]
    rfl
  rw [hbytes, hsegment, readAll_stop ?_ ?_ (nextCopiedFunction_stop hstop), foldlM_checkFunction]
  · split_ifs
    · rfl
    · rfl
  · intro x hx
    obtain ⟨f, -, rfl⟩ := List.mem_map.1 hx
    exact f.length_pos
  · intro x hx rest
    obtain ⟨f, hf, rfl⟩ := List.mem_map.1 hx
    exact nextCopiedFunction_record (hfs f hf) rest

end Ava.Dump.Combinator
