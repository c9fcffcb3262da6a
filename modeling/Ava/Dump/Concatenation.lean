import Ava.Dump.Attribution
import Ava.Dump.Combinator

/-!
# Combining two dumps

The combinator copies the fat binaries of two dumps, and the loader finds those of the first and
then those of the second. The functions of the copy have a separator after every fat binary, also
after the last one, and what the helpers write has one between fat binaries.

There are three things that can go wrong. If there is no fat binary, there is no `fatbin-info.ava`,
without which the loader exits. The tool reads the argument files with its own `MAX_KERNEL_ARG`,
which is the one of the helpers for TensorFlow, but not the one of the helpers for ONNX: it takes
what is left of a longer record for the next one. And the argument files that it writes stay open,
so that it runs out of descriptors.

`combine_concatenates_iff` says that these are all.
-/

set_option autoImplicit false

namespace Ava.Dump.Combinator

open Ava.Lib
open Function (update)

variable {cuda : Cuda} {maxArg : Nat}

/-! ## The copy -/

/-- The fat binaries with the addresses at which the tool has loaded their images. -/
def moved (address : Nat → UInt64) (bs : List (Fatbin cuda maxArg)) : List (Fatbin cuda maxArg) :=
  bs.mapIdx fun i b => { b with wrapper := { b.wrapper with ptr := address i } }

/-- The files of the copy. -/
def copied (address : Nat → UInt64) (bs : List (Fatbin cuda maxArg)) : Directory where
  fatbinInfo := (written (moved address bs)).fatbinInfo
  fatbin := fun i => bs[i]?.map Fatbin.image
  functionArg := fun i => bs[i]?.map Fatbin.argFile
  fatfunction := if bs = [] then none else some (delimited true (bs.map Fatbin.functions))

theorem moved_append (address : Nat → UInt64) (bs : List (Fatbin cuda maxArg))
    (b : Fatbin cuda maxArg) : moved address (bs ++ [b]) = moved address bs ++
      [{ b with wrapper := { b.wrapper with ptr := address bs.length } }] :=
  List.mapIdx_concat

theorem length_moved (address : Nat → UInt64) (bs : List (Fatbin cuda maxArg)) :
    (moved address bs).length = bs.length :=
  List.length_mapIdx

theorem wrappers_moved (address : Nat → UInt64) (bs : List (Fatbin cuda maxArg)) :
    Wrappers ((moved address bs).flatMap fun b => b.wrapper.toBytes) bs := by
  induction bs generalizing address with
  | nil => rfl
  | cons b bs ih =>
    refine ⟨address 0, _, ?_, ih fun i => address (i + 1)⟩
    rw [moved, List.mapIdx_cons, List.flatMap_cons]
    rfl

/-- The copy is a directory with the fat binaries. -/
theorem holds_copied (address : Nat → UInt64) {bs : List (Fatbin cuda maxArg)} (hne : bs ≠ [])
    (hcount : bs.length < 2 ^ 31) : Holds (copied address bs) true bs := by
  have hmoved : moved address bs ≠ [] := by simpa [moved] using hne
  refine ⟨hcount, ⟨_, ?_, wrappers_moved address bs⟩, fun i b hb => ?_, fun i b hb => ?_,
    fun _ => if_neg hne⟩
  · rw [copied, fatbinInfo_written hmoved, length_moved]
  · exact congrArg (Option.map Fatbin.image) hb
  · exact congrArg (Option.map Fatbin.argFile) hb

theorem info_copied (address : Nat → UInt64) (bs : List (Fatbin cuda maxArg))
    (b : Fatbin cuda maxArg) {info : Bytes} (hinfo : info =
      writeAt ((copied address bs).fatbinInfo.getD []) 0 (leBytes 4 (bs.length + 1))) :
    some (writeAt info info.length { b.wrapper with ptr := address bs.length }.toBytes) =
      (copied address (bs ++ [b])).fatbinInfo := by
  have happend := info_append (moved address bs)
  rw [length_moved] at happend
  have hnext : moved address (bs ++ [b]) ≠ [] := by
    rw [moved_append]
    simp
  rw [hinfo, writeAt_end]
  dsimp only [copied]
  rw [happend, fatbinInfo_written hnext, moved_append, List.length_append, length_moved,
    List.flatMap_append, List.flatMap_singleton, List.append_assoc]
  rfl

theorem fatfunction_copied (address : Nat → UInt64) (bs : List (Fatbin cuda maxArg))
    (b : Fatbin cuda maxArg) :
    some ((copied address bs).fatfunction.getD [] ++ segment b.functions ++ separator) =
      (copied address (bs ++ [b])).fatfunction := by
  have hnext : bs ++ [b] ≠ [] := by simp
  dsimp only [copied]
  rw [if_neg hnext, List.map_append, List.map_singleton]
  by_cases hbs : bs = []
  · subst hbs
    simp [delimited, joined]
  · have hmap : bs.map Fatbin.functions ≠ [] := by simpa using hbs
    rw [if_neg hbs, Option.getD_some]
    simp only [delimited, if_true, joined_append hmap, List.append_assoc]

/-! ## One fat binary -/

/-- The argument file is in the layout of the tool, and the functions are named in it. -/
def Copyable (b : Fatbin cuda maxArg) : Prop :=
  ∃ records names, LaidOut b.argFile records names ∧ ∀ f ∈ b.functions, f.deviceName ∈ names

/-- `fatfunction_fd_load` before the rest of a directory, in which there are functions or none. -/
def loadFile (functions started : Bool) (todo : List (Fatbin cuda maxArg)) : FunctionFile :=
  if started then
    if functions then afterFirst false (todo.map Fatbin.functions) else .closed
  else .unopened

/-- How many descriptors are open for it. -/
def loadOpened (functions started : Bool) (todo : List (Fatbin cuda maxArg)) : Nat :=
  if functions && started && !todo.isEmpty then 1 else 0

/-- The process between two fat binaries of a directory. Besides the standard streams
`fatbin-info.ava` is open, an argument file for each fat binary, and the files of the functions. -/
structure Copying (address : Nat → UInt64) (functions started : Bool)
    (done todo : List (Fatbin cuda maxArg)) (p : Process) : Prop where
  numFatbins : p.numFatbins = done.length
  dump : p.dump = copied address done
  load : p.fatfunctionLoad = loadFile functions started todo
  opened : p.opened = 4 + done.length + (if done = [] then 0 else 1) +
    loadOpened functions started todo

/-- The file of the functions is opened, or it has been read up to here. -/
theorem openFunctions_eq {limit opened : Nat} {load : Directory} {p : Process}
    {functions started : Bool} {b : Fatbin cuda maxArg} {todo : List (Fatbin cuda maxArg)}
    (hload : p.fatfunctionLoad = loadFile functions started (b :: todo))
    (hopened : p.opened = opened + loadOpened functions started (b :: todo))
    (hlimit : p.opened < limit)
    (hstream : started = false → load.fatfunction =
      if functions then some (delimited false ((b :: todo).map Fatbin.functions)) else none) :
    p.openFunctions limit load =
      { p with
        fatfunctionLoad := if functions then
          .opened (delimited false ((b :: todo).map Fatbin.functions)) else .closed
        opened := opened + if functions then 1 else 0 } := by
  obtain ⟨n, funcs, dump, file, k⟩ := p
  dsimp only at hload hopened hlimit
  subst hload hopened
  cases started with
  | true => cases functions <;> rfl
  | false =>
    have hsome : opened < limit := by
      cases functions <;> simpa [loadOpened] using hlimit
    cases functions <;>
      simp [Process.openFunctions, loadFile, loadOpened, hstream rfl, hsome]

/-- The functions of a fat binary are copied if they are in the table. -/
theorem copyFunctions_eq {limit opened : Nat} {load : Directory} {p : Process}
    {functions started : Bool} {b : Fatbin cuda maxArg} {todo : List (Fatbin cuda maxArg)}
    {out : Bytes} (hload : p.fatfunctionLoad = loadFile functions started (b :: todo))
    (hout : p.dump.fatfunction = some out)
    (hopened : p.opened = opened + loadOpened functions started (b :: todo))
    (hlimit : p.opened < limit)
    (hstream : started = false → load.fatfunction =
      if functions then some (delimited false ((b :: todo).map Fatbin.functions)) else none)
    (hnone : functions = false → b.functions = []) (ht : HashTable Bytes Nat) :
    (p.openFunctions limit load).copyFunctions ht =
      if ∀ f ∈ b.functions, f.deviceName ∈ ht then
        .ok { p with
          dump := { p.dump with fatfunction := some (out ++ segment b.functions) }
          fatfunctionLoad := loadFile functions true todo
          opened := opened + loadOpened functions true todo }
      else .error .assertion := by
  rw [openFunctions_eq hload hopened hlimit hstream]
  obtain ⟨n, funcs, ⟨info, fatbin, arg, stream⟩, file, k⟩ := p
  dsimp only at hout
  subst hout
  cases functions with
  | false =>
    have hfound : ∀ f ∈ b.functions, f.deviceName ∈ ht := by simp [hnone rfl]
    rw [if_pos hfound, hnone rfl, segment, List.flatMap_nil, List.append_nil]
    rfl
  | true =>
    have hbytes : (b.functions.map fun f => (f, f.toBytes)).flatMap Prod.snd =
        segment b.functions := by
      rw [List.flatMap_map]
      rfl
    have hread := readAll_copied b.valid false (todo.map Fatbin.functions) ht
    simp only [Process.copyFunctions, if_true, List.map_cons, hread]
    by_cases hfound : ∀ f ∈ b.functions, f.deviceName ∈ ht
    · rw [if_pos hfound, if_pos hfound]
      simp only [bind, Except.bind, Process.writeFunctions, hbytes, Option.getD_some]
      cases todo with
      | nil => rfl
      | cons c todo => rfl
    · rw [if_neg hfound, if_neg hfound]
      rfl

section

variable {limit : Nat} {address : Nat → UInt64} {load : Directory} {p p' : Process}
variable {functions started : Bool} {b : Fatbin cuda maxArg} {done todo : List (Fatbin cuda maxArg)}

/-- The process when the image has been copied. -/
theorem Copying.openDump (hp : Copying address functions started done (b :: todo) p) :
    (p.writeImage b.image).openDump =
      { p with
        dump := { copied address done with
          fatbin := (copied address (done ++ [b])).fatbin
          fatfunction := some ((copied address done).fatfunction.getD []) }
        opened := 5 + done.length + loadOpened functions started (b :: todo) } := by
  have hnone : ((copied address done).fatfunction = none) ↔ done = [] := by
    simp only [copied]
    split_ifs with hdone
    · simp [hdone]
    · simp [hdone]
  have hopened : p.opened + (if (copied address done).fatfunction = none then 1 else 0) =
      5 + done.length + loadOpened functions started (b :: todo) := by
    rw [hp.opened]
    simp only [hnone]
    split_ifs
    · omega
    · omega
  have hfatbin : update (copied address done).fatbin done.length (some b.image) =
      (copied address (done ++ [b])).fatbin := update_getElem? Fatbin.image done b
  rw [openDump_eq, Process.writeImage]
  dsimp only
  rw [hp.dump, hp.numFatbins, hopened, hfatbin]

/-- The process when the argument file has been copied. -/
structure ArgsCopied (address : Nat → UInt64) (functions started : Bool)
    (done : List (Fatbin cuda maxArg)) (b : Fatbin cuda maxArg) (todo : List (Fatbin cuda maxArg))
    (p : Process) : Prop where
  numFatbins : p.numFatbins = done.length
  dump : p.dump = { copied address (done ++ [b]) with
    fatbinInfo := (copied address done).fatbinInfo
    fatfunction := some ((copied address done).fatfunction.getD []) }
  load : p.fatfunctionLoad = loadFile functions started (b :: todo)
  opened : p.opened = 6 + done.length + loadOpened functions started (b :: todo)

variable {i : Nat}

/-- The argument file is copied if it is in the layout of the tool and there are descriptors. -/
theorem Copying.args_iff (hp : Copying address functions started done (b :: todo) p)
    (harg : load.functionArg i = some b.argFile) {ht : HashTable Bytes Nat} :
    (loadFunctionArgInfo limit load i (p.writeImage b.image).openDump = .ok (ht, p') ∧
      p'.dump.functionArg done.length = some b.argFile) ↔
    6 + done.length + loadOpened functions started (b :: todo) < limit ∧
      ∃ records names, LaidOut b.argFile records names ∧
        ht = addNames ∅ (withNull p.fatbinFuncs).length names ∧
        p'.fatbinFuncs = withNull p.fatbinFuncs ++
          records.map (fun r => some (.ofBytes maxKernelArg r.func)) ∧
        ArgsCopied address functions started done b todo p' := by
  have hnum : (p.writeImage b.image).openDump.numFatbins = done.length := by
    rw [hp.openDump]
    exact hp.numFatbins
  have hcopy : update (copied address done).functionArg done.length (some b.argFile) =
      (copied address (done ++ [b])).functionArg := update_getElem? Fatbin.argFile done b
  rw [← hnum, loadFunctionArgInfo_iff harg, hnum, hp.openDump]
  dsimp only
  rw [hcopy, show 5 + done.length + loadOpened functions started (b :: todo) + 1 =
    6 + done.length + loadOpened functions started (b :: todo) by omega]
  refine and_congr_right fun _ => exists_congr fun records => exists_congr fun names =>
    and_congr_right fun _ => and_congr_right fun _ => ?_
  constructor
  · rintro rfl
    exact ⟨rfl, rfl, rfl, hp.load, rfl⟩
  · obtain ⟨n, funcs, dump, file, opened⟩ := p'
    rintro ⟨hfuncs, hcopied⟩
    have hnum' : n = done.length := hcopied.numFatbins
    have hdump : dump = _ := hcopied.dump
    have hfile : file = _ := hcopied.load
    have hopened : opened = _ := hcopied.opened
    dsimp only at hfuncs
    rw [hnum', hfuncs, hdump, hfile, hopened, hp.load]

/-- The functions are copied if they are in the table. -/
theorem ArgsCopied.copyFunctions (hp : ArgsCopied address functions started done b todo p)
    (hlimit : p.opened < limit)
    (hstream : started = false → load.fatfunction =
      if functions then some (delimited false ((b :: todo).map Fatbin.functions)) else none)
    (hnone : functions = false → b.functions = []) (ht : HashTable Bytes Nat) :
    (p.openFunctions limit load).copyFunctions ht =
      if ∀ f ∈ b.functions, f.deviceName ∈ ht then
        .ok { p with
          dump := { copied address (done ++ [b]) with
            fatbinInfo := (copied address done).fatbinInfo
            fatfunction := some ((copied address done).fatfunction.getD [] ++ segment b.functions) }
          fatfunctionLoad := loadFile functions true todo
          opened := 6 + done.length + loadOpened functions true todo }
      else .error .assertion := by
  have hout : p.dump.fatfunction = some ((copied address done).fatfunction.getD []) := by
    rw [hp.dump]
  rw [copyFunctions_eq hp.load hout hp.opened hlimit hstream hnone, hp.dump]

/-- When the functions have been copied, `fatbin-info.ava` is the last file. -/
theorem Copying.writeInfo {p₂ : Process} (hnum : p₂.numFatbins = done.length)
    (hdump : p₂.dump = { copied address (done ++ [b]) with
      fatbinInfo := (copied address done).fatbinInfo
      fatfunction := some ((copied address done).fatfunction.getD [] ++ segment b.functions) })
    (hload : p₂.fatfunctionLoad = loadFile functions true todo)
    (hopened : p₂.opened = 6 + done.length + loadOpened functions true todo)
    (hlimit : p₂.opened < limit) :
    ∃ p', (p₂.writeFunctions separator).writeInfo limit
        { b.wrapper with ptr := address p₂.numFatbins } = .ok p' ∧
      Copying address functions true (done ++ [b]) todo p' := by
  have hlimit' : (p₂.writeFunctions separator).opened < limit := hlimit
  have hinfo := info_copied address done b rfl
  have hfunctions := fatfunction_copied address done b
  rw [Process.writeInfo, if_pos hlimit']
  refine ⟨_, rfl, ⟨?_, ?_, hload, ?_⟩⟩
  · simp [Process.writeFunctions, hnum]
  · simp only [Process.writeFunctions, hnum, hdump, hinfo, Option.getD_some, hfunctions]
  · simp only [Process.writeFunctions, hopened, List.length_append, List.length_singleton,
      List.append_eq_nil_iff, List.cons_ne_nil, and_false, if_false]
    omega

/-- What a fat binary needs: a layout that can be read, and descriptors. -/
def Fits (limit : Nat) (functions started : Bool) (done : Nat) (b : Fatbin cuda maxArg)
    (todo : List (Fatbin cuda maxArg)) : Prop :=
  Copyable b ∧ 6 + done + loadOpened functions started (b :: todo) < limit ∧
    6 + done + loadOpened functions true todo < limit

section

variable {i : Nat} (hp : Copying address functions started done (b :: todo) p)
variable (himage : load.fatbin i = some b.image) (harg : load.functionArg i = some b.argFile)
variable (hstream : started = false → load.fatfunction =
  if functions then some (delimited false ((b :: todo).map Fatbin.functions)) else none)
variable (hnone : functions = false → b.functions = [])

include hp himage harg hstream hnone

theorem Copying.step (hfits : Fits limit functions started done.length b todo) :
    ∃ p', loadAndDumpFatbin cuda limit address load i b.wrapper p = .ok p' ∧
      Copying address functions true (done ++ [b]) todo p' := by
  obtain ⟨⟨records, names, hlaid, hnames⟩, hfirst, hlast⟩ := hfits
  obtain ⟨p₁, hp₁, hfuncs⟩ : ∃ p₁, ArgsCopied address functions started done b todo p₁ ∧
      p₁.fatbinFuncs = withNull p.fatbinFuncs ++
        records.map fun r => some (.ofBytes maxKernelArg r.func) :=
    ⟨⟨_, _, _, _, _⟩, ⟨rfl, rfl, rfl, rfl⟩, rfl⟩
  obtain ⟨hargs, -⟩ := (hp.args_iff harg).2 ⟨hfirst, records, names, hlaid, rfl, hfuncs, hp₁⟩
  have hlimit : p.opened < limit := by
    rw [hp.opened]
    split_ifs
    · omega
    · omega
  have hfound : ∀ f ∈ b.functions,
      f.deviceName ∈ addNames ∅ (withNull p.fatbinFuncs).length names := fun f hf =>
    (mem_addNames _ names f.deviceName).2 (hnames f hf)
  rw [loadAndDumpFatbin, if_pos hlimit, himage]
  dsimp only
  rw [if_neg b.image_ne, if_neg (not_not.2 b.image_size.symm)]
  simp only [hargs, bind, Except.bind]
  rw [hp₁.copyFunctions (hp₁.opened ▸ hfirst) hstream hnone, if_pos hfound]
  exact Copying.writeInfo hp₁.numFatbins rfl rfl rfl hlast

/-- A fat binary whose argument file has been copied fits. -/
theorem Copying.fits (h : loadAndDumpFatbin cuda limit address load i b.wrapper p = .ok p')
    (hfile : p'.dump.functionArg done.length = some b.argFile) :
    Fits limit functions started done.length b todo := by
  obtain ⟨image, ht, p₁, p₂, himage', hargs, hfunctions, hinfo⟩ := loadAndDumpFatbin_eq_ok h
  cases himage.symm.trans himage'
  obtain ⟨-, hdump⟩ := openFunctions_frame limit load p₁
  obtain ⟨-, harg₂⟩ := copyFunctions_frame hfunctions
  obtain ⟨hlast, -, harg'⟩ := writeInfo_eq_ok hinfo
  have hfile₁ : p₁.dump.functionArg done.length = some b.argFile := by
    rw [← hdump, ← harg₂, ← hfile, harg']
    rfl
  obtain ⟨hfirst, records, names, hlaid, rfl, -, hp₁⟩ := (hp.args_iff harg).1 ⟨hargs, hfile₁⟩
  rw [hp₁.copyFunctions (hp₁.opened ▸ hfirst) hstream hnone] at hfunctions
  split_ifs at hfunctions with hfound
  cases hfunctions
  exact ⟨⟨records, names, hlaid, fun f hf => (mem_addNames _ names _).1 (hfound f hf)⟩, hfirst,
    hlast⟩

end

/-! ## One directory -/

/-- The descriptors that the fat binaries of a directory need, if there are `done` before. -/
def Room (limit : Nat) (functions started : Bool) (done : Nat)
    (todo : List (Fatbin cuda maxArg)) : Prop :=
  todo ≠ [] →
    5 + done + todo.length + (if functions && (started || decide (2 ≤ todo.length)) then 1 else 0) <
      limit

theorem room_cons (limit : Nat) (functions started : Bool) (done : Nat) (b : Fatbin cuda maxArg)
    (todo : List (Fatbin cuda maxArg)) : Room limit functions started done (b :: todo) ↔
      (6 + done + loadOpened functions started (b :: todo) < limit ∧
        6 + done + loadOpened functions true todo < limit) ∧
      Room limit functions true (done + 1) todo := by
  cases todo with
  | nil =>
    cases functions <;> cases started <;> simp [Room, loadOpened] <;> omega
  | cons c todo =>
    cases functions <;> cases started <;> simp [Room, loadOpened] <;> omega

/-- The files of the fat binaries that are still to be copied. -/
structure Source (load : Directory) (functions started : Bool) (i : Nat)
    (todo : List (Fatbin cuda maxArg)) : Prop where
  fatbin : ∀ (j : Nat) (b : Fatbin cuda maxArg), todo[j]? = some b →
    load.fatbin (i + j) = some b.image
  functionArg : ∀ (j : Nat) (b : Fatbin cuda maxArg), todo[j]? = some b →
    load.functionArg (i + j) = some b.argFile
  stream : started = false → load.fatfunction =
    if functions then some (delimited false (todo.map Fatbin.functions)) else none
  none : functions = false → ∀ b ∈ todo, b.functions = []

theorem Source.tail (h : Source load functions started i (b :: todo)) :
    Source load functions true (i + 1) todo := by
  refine ⟨fun j c hc => ?_, fun j c hc => ?_, fun hstarted => ?_, fun hfunctions c hc => ?_⟩
  · rw [Nat.add_right_comm, Nat.add_assoc]
    exact h.fatbin (j + 1) c hc
  · rw [Nat.add_right_comm, Nat.add_assoc]
    exact h.functionArg (j + 1) c hc
  · cases hstarted
  · exact h.none hfunctions c (List.mem_cons_of_mem b hc)

theorem Source.head (h : Source load functions started i (b :: todo)) :
    load.fatbin i = some b.image ∧ load.functionArg i = some b.argFile ∧
      (functions = false → b.functions = []) :=
  ⟨h.fatbin 0 b rfl, h.functionArg 0 b rfl, fun hnone => h.none hnone b List.mem_cons_self⟩

theorem copyFatbins_cons (b : Fatbin cuda maxArg) (todo : List (Fatbin cuda maxArg)) :
    copyFatbins cuda limit address load (b :: todo).length i
      ((b :: todo).flatMap fun b => b.wrapper.toBytes) p =
    (loadAndDumpFatbin cuda limit address load i b.wrapper p).bind
      (copyFatbins cuda limit address load todo.length (i + 1)
        (todo.flatMap fun b => b.wrapper.toBytes)) := by
  rw [List.length_cons, List.flatMap_cons, copyFatbins, readWrapper_append]
  rfl

theorem Copying.run (hp : Copying address functions started done todo p)
    (hload : Source load functions started i todo) (hcopyable : ∀ b ∈ todo, Copyable b)
    (hroom : Room limit functions started done.length todo) :
    ∃ p' started', copyFatbins cuda limit address load todo.length i
        (todo.flatMap fun b => b.wrapper.toBytes) p = .ok p' ∧
      Copying address functions started' (done ++ todo) [] p' := by
  induction todo generalizing done started i p with
  | nil =>
    rw [List.append_nil]
    exact ⟨p, started, rfl, hp⟩
  | cons b todo ih =>
    obtain ⟨⟨hfirst, hlast⟩, hrest⟩ := (room_cons limit functions started _ b todo).1 hroom
    obtain ⟨hb, htodo⟩ := List.forall_mem_cons.1 hcopyable
    obtain ⟨himage, harg, hnone⟩ := hload.head
    obtain ⟨q, hstep, hq⟩ := hp.step himage harg hload.stream hnone ⟨hb, hfirst, hlast⟩
    obtain ⟨p', started', hrun, hp'⟩ := ih hq hload.tail htodo (by simpa using hrest)
    refine ⟨p', started', ?_, by simpa using hp'⟩
    rw [copyFatbins_cons, hstep]
    exact hrun

theorem Copying.run_fits (hp : Copying address functions started done todo p)
    (hload : Source load functions started i todo)
    (h : copyFatbins cuda limit address load todo.length i
      (todo.flatMap fun b => b.wrapper.toBytes) p = .ok p')
    (hfiles : ∀ (j : Nat) (b : Fatbin cuda maxArg), todo[j]? = some b →
      p'.dump.functionArg (done.length + j) = some b.argFile) :
    (∀ b ∈ todo, Copyable b) ∧ Room limit functions started done.length todo := by
  induction todo generalizing done started i p with
  | nil => exact ⟨fun b hb => absurd hb List.not_mem_nil, fun hne => absurd rfl hne⟩
  | cons b todo ih =>
    obtain ⟨himage, harg, hnone⟩ := hload.head
    rw [copyFatbins_cons] at h
    obtain ⟨q, hstep, h⟩ := bind_eq_ok.1 h
    have hnum : q.numFatbins = done.length + 1 := by
      rw [(loadAndDumpFatbin_frame hstep).1, hp.numFatbins]
    have hfile : q.dump.functionArg done.length = some b.argFile := by
      rw [← (copyFatbins_frame h).2 done.length (by omega)]
      exact hfiles 0 b rfl
    obtain ⟨hb, hfirst, hlast⟩ := hp.fits himage harg hload.stream hnone hstep hfile
    obtain ⟨q', hstep', hq⟩ := hp.step himage harg hload.stream hnone ⟨hb, hfirst, hlast⟩
    cases hstep.symm.trans hstep'
    have hnext := ih hq hload.tail h (by
      intro j c hc
      rw [List.length_append, List.length_singleton, Nat.add_assoc, Nat.add_comm 1 j]
      exact hfiles (j + 1) c hc)
    rw [List.length_append, List.length_singleton] at hnext
    exact ⟨List.forall_mem_cons.2 ⟨hb, hnext.1⟩,
      (room_cons limit functions started _ b todo).2 ⟨⟨hfirst, hlast⟩, hnext.2⟩⟩

/-- There are functions in a dump. -/
def hasFunctions (d : List (Fatbin cuda maxArg)) : Bool := d.any fun b => !b.functions.isEmpty

/-- If there are functions in a dump, there is one separator between those of a fat binary and those
of the next. -/
def Separated (d : List (Fatbin cuda maxArg)) (dir : Directory) : Prop :=
  hasFunctions d = true → dir.fatfunction = some (joined (d.map Fatbin.functions))

variable {d : List (Fatbin cuda maxArg)}

theorem hasFunctions_eq_false : hasFunctions d = false ↔ ∀ b ∈ d, b.functions = [] := by
  simp [hasFunctions]

theorem functionStream_none {segments : List (List FunctionRecord)}
    (h : ∀ fs ∈ segments, fs = []) : functionStream segments = none := by
  induction segments with
  | nil => rfl
  | cons fs rest ih =>
    obtain ⟨rfl, hrest⟩ := List.forall_mem_cons.1 h
    exact ih hrest

theorem source_written (hsep : Separated d (written d)) :
    Source (written d) (hasFunctions d) false 0 d := by
  refine ⟨fun j b hb => ?_, fun j b hb => ?_, fun _ => ?_, hasFunctions_eq_false.1⟩
  · rw [Nat.zero_add]
    exact congrArg (Option.map Fatbin.image) hb
  · rw [Nat.zero_add]
    exact congrArg (Option.map Fatbin.argFile) hb
  · split_ifs with hfunctions
    · rw [hsep hfunctions]
      simp [delimited]
    · have hnone := hasFunctions_eq_false.1 (Bool.eq_false_iff.2 hfunctions)
      refine functionStream_none fun fs hfs => ?_
      obtain ⟨b, hb, rfl⟩ := List.mem_map.1 hfs
      exact hnone b hb

/-- The process between two directories. -/
structure Idle (address : Nat → UInt64) (done : List (Fatbin cuda maxArg)) (p : Process) :
    Prop where
  numFatbins : p.numFatbins = done.length
  dump : p.dump = copied address done
  load : p.fatfunctionLoad = .unopened
  opened : p.opened = 3 + done.length + if done = [] then 0 else 1

theorem idle_start (address : Nat → UInt64) :
    Idle address ([] : List (Fatbin cuda maxArg)) .start :=
  ⟨rfl, rfl, rfl, rfl⟩

theorem Idle.copying (h : Idle address done p) (functions : Bool)
    (todo : List (Fatbin cuda maxArg)) :
    Copying address functions false done todo { p with opened := p.opened + 1 } := by
  refine ⟨h.numFatbins, h.dump, h.load, ?_⟩
  simp only [h.opened, loadOpened, Bool.and_false, Bool.false_and, Bool.false_eq_true, if_false]
  omega

/-- A directory that can be opened is copied one fat binary after the other. -/
theorem loadDumpFatbin_written (hne : d ≠ []) (hcount : d.length < 2 ^ 31)
    (hlimit : p.opened < limit) :
    loadDumpFatbin cuda limit address (written d) p =
      (copyFatbins cuda limit address (written d) d.length 0
        (d.flatMap fun b => b.wrapper.toBytes) { p with opened := p.opened + 1 }).map fun p =>
          { p with fatfunctionLoad := .unopened, opened := p.opened - 1 } := by
  have hlt : d.length < 256 ^ 4 := hcount.trans (by norm_num)
  rw [loadDumpFatbin, if_pos hlimit, fatbinInfo_written hne]
  dsimp only
  rw [List.take_left' (length_leBytes 4 _), List.drop_left' (length_leBytes 4 _),
    leNat_leBytes_of_lt hlt, if_pos hcount]
  cases copyFatbins cuda limit address (written d) d.length 0
    (d.flatMap fun b => b.wrapper.toBytes) { p with opened := p.opened + 1 } with
  | error e => rfl
  | ok q => rfl

theorem loadDumpFatbin_unread (h : d = [] ∨ ¬ p.opened < limit) :
    loadDumpFatbin cuda limit address (written d) p =
      .ok { p with fatfunctionLoad := .unopened } := by
  have hinfo : (if p.opened < limit then (written d).fatbinInfo else none) = none := by
    rcases h with rfl | hlimit
    · simp [written]
    · exact if_neg hlimit
  rw [loadDumpFatbin, hinfo]

theorem Idle.copy (hp : Idle address done p) (hsep : Separated d (written d))
    (hcount : d.length < 2 ^ 31) (hcopyable : ∀ b ∈ d, Copyable b)
    (hroom : Room limit (hasFunctions d) false done.length d) :
    ∃ p', loadDumpFatbin cuda limit address (written d) p = .ok p' ∧
      Idle address (done ++ d) p' := by
  by_cases hd : d = []
  · rw [loadDumpFatbin_unread (Or.inl hd), hd, List.append_nil]
    exact ⟨_, rfl, hp.numFatbins, hp.dump, rfl, hp.opened⟩
  · have hlimit : p.opened < limit := by
      have hmany := hroom hd
      have hpos := List.length_pos_of_ne_nil hd
      rw [hp.opened]
      split_ifs
      · omega
      · omega
    obtain ⟨p', started, hrun, hp'⟩ := (hp.copying (hasFunctions d) d).run (source_written hsep)
      hcopyable hroom
    rw [loadDumpFatbin_written hd hcount hlimit, hrun]
    refine ⟨_, rfl, hp'.numFatbins, hp'.dump, rfl, ?_⟩
    simp only [hp'.opened, loadOpened, List.isEmpty_nil, Bool.not_true, Bool.and_false,
      Bool.false_eq_true, if_false]
    omega

theorem Idle.fits (hp : Idle address done p) (hsep : Separated d (written d))
    (hcount : d.length < 2 ^ 31) (h : loadDumpFatbin cuda limit address (written d) p = .ok p')
    (hfiles : ∀ (j : Nat) (b : Fatbin cuda maxArg), d[j]? = some b →
      p'.dump.functionArg (done.length + j) = some b.argFile) :
    (∀ b ∈ d, Copyable b) ∧ Room limit (hasFunctions d) false done.length d := by
  cases d with
  | nil => exact ⟨fun b hb => absurd hb List.not_mem_nil, fun hne => absurd rfl hne⟩
  | cons b d =>
    by_cases hlimit : p.opened < limit
    · rw [loadDumpFatbin_written (List.cons_ne_nil b d) hcount hlimit] at h
      obtain ⟨q, hrun, rfl⟩ := map_eq_ok.1 h
      exact (hp.copying (hasFunctions (b :: d)) (b :: d)).run_fits (source_written hsep) hrun
        hfiles
    · -- nothing has been copied
      rw [loadDumpFatbin_unread (Or.inr hlimit)] at h
      cases h
      have hfile := hfiles 0 b rfl
      dsimp only at hfile
      rw [hp.dump] at hfile
      simp [copied] at hfile

end

/-! ## Two directories -/

theorem written_of_dump {d : List (Fatbin cuda maxArg)} {dir : Directory} (h : dump d = .ok dir) :
    d.length ≤ 10 ^ 9 ∧ dir = written d := by
  rw [dump_eq] at h
  split_ifs at h with hmany
  cases h
  exact ⟨hmany, rfl⟩

section

variable {d₁ d₂ : List (Fatbin cuda maxArg)} {dir₁ dir₂ : Directory} {limit : Nat}
variable {address : Nat → UInt64}
variable (h₁ : dump d₁ = .ok dir₁) (h₂ : dump d₂ = .ok dir₂)
variable (hsep₁ : Separated d₁ dir₁) (hsep₂ : Separated d₂ dir₂)

include h₁ h₂ hsep₁ hsep₂

/-- Two dumps that fit are copied one behind the other. -/
theorem main_of_fits (hcopyable : ∀ b ∈ d₁ ++ d₂, Copyable b)
    (hroom₁ : Room limit (hasFunctions d₁) false 0 d₁)
    (hroom₂ : Room limit (hasFunctions d₂) false d₁.length d₂) :
    main cuda limit address dir₁ dir₂ = .ok (copied address (d₁ ++ d₂)) := by
  obtain ⟨hmany₁, rfl⟩ := written_of_dump h₁
  obtain ⟨hmany₂, rfl⟩ := written_of_dump h₂
  have hcount₁ : d₁.length < 2 ^ 31 := lt_of_le_of_lt hmany₁ (by norm_num)
  have hcount₂ : d₂.length < 2 ^ 31 := lt_of_le_of_lt hmany₂ (by norm_num)
  obtain ⟨hcopyable₁, hcopyable₂⟩ := List.forall_mem_append.1 hcopyable
  obtain ⟨p, hrun₁, hp⟩ := (idle_start address).copy hsep₁ hcount₁ hcopyable₁ hroom₁
  obtain ⟨q, hrun₂, hq⟩ := hp.copy hsep₂ hcount₂ hcopyable₂ hroom₂
  rw [main, hrun₁]
  simp only [bind, Except.bind, hrun₂]
  exact congrArg Except.ok hq.dump

/-- Two dumps whose argument files have been copied fit. -/
theorem fits_of_main {out : Directory} (h : main cuda limit address dir₁ dir₂ = .ok out)
    (hfiles : ∀ (i : Nat) (b : Fatbin cuda maxArg), (d₁ ++ d₂)[i]? = some b →
      out.functionArg i = some b.argFile) :
    (∀ b ∈ d₁ ++ d₂, Copyable b) ∧ Room limit (hasFunctions d₁) false 0 d₁ ∧
      Room limit (hasFunctions d₂) false d₁.length d₂ := by
  obtain ⟨hmany₁, rfl⟩ := written_of_dump h₁
  obtain ⟨hmany₂, rfl⟩ := written_of_dump h₂
  have hcount₁ : d₁.length < 2 ^ 31 := lt_of_le_of_lt hmany₁ (by norm_num)
  have hcount₂ : d₂.length < 2 ^ 31 := lt_of_le_of_lt hmany₂ (by norm_num)
  obtain ⟨p, hrun₁, h⟩ := bind_eq_ok.1 h
  obtain ⟨q, hrun₂, h⟩ := bind_eq_ok.1 h
  cases h
  have hfiles₁ : ∀ (i : Nat) (b : Fatbin cuda maxArg), d₁[i]? = some b →
      q.dump.functionArg i = some b.argFile := by
    intro i b hb
    refine hfiles i b ?_
    rw [List.getElem?_append_left (List.getElem?_eq_some_iff.1 hb).1, hb]
  have hfiles₂ : ∀ (j : Nat) (b : Fatbin cuda maxArg), d₂[j]? = some b →
      q.dump.functionArg (d₁.length + j) = some b.argFile := by
    intro j b hb
    refine hfiles (d₁.length + j) b ?_
    rw [List.getElem?_append_right (Nat.le_add_right _ _), Nat.add_sub_cancel_left, hb]
  -- the second directory leaves what has been copied from the first
  have hkept : ∀ (i : Nat) (b : Fatbin cuda maxArg), d₁[i]? = some b →
      p.dump.functionArg (([] : List (Fatbin cuda maxArg)).length + i) = some b.argFile := by
    intro i b hb
    have hi := (List.getElem?_eq_some_iff.1 hb).1
    have hnum : p.numFatbins = d₁.length := by
      by_cases hlimit : Process.start.opened < limit
      · have hne : d₁ ≠ [] := List.ne_nil_of_length_pos (Nat.zero_lt_of_lt hi)
        rw [loadDumpFatbin_written hne hcount₁ hlimit] at hrun₁
        obtain ⟨p₁, hcopy, rfl⟩ := map_eq_ok.1 hrun₁
        exact (copyFatbins_frame hcopy).1.trans (Nat.zero_add _)
      · -- neither directory is read
        cases hrun₁.symm.trans (loadDumpFatbin_unread (Or.inr hlimit))
        cases hrun₂.symm.trans (loadDumpFatbin_unread (Or.inr hlimit))
        cases hfiles₁ i b hb
    rw [List.length_nil, Nat.zero_add, ← loadDumpFatbin_frame hrun₂ i (by omega)]
    exact hfiles₁ i b hb
  obtain ⟨hcopyable₁, hroom₁⟩ := (idle_start address).fits hsep₁ hcount₁ hrun₁ hkept
  obtain ⟨p', hrun₁', hp⟩ := (idle_start address).copy hsep₁ hcount₁ hcopyable₁ hroom₁
  cases hrun₁.symm.trans hrun₁'
  obtain ⟨hcopyable₂, hroom₂⟩ := hp.fits hsep₂ hcount₂ hrun₂ hfiles₂
  exact ⟨List.forall_mem_append.2 ⟨hcopyable₁, hcopyable₂⟩, hroom₁, hroom₂⟩

/-- Two dumps that have been combined and loaded fit. -/
theorem fits_of_loaded {out : Directory} {w : Worker}
    (h : main cuda limit address dir₁ dir₂ = .ok out)
    (hload : workerInitEpilogue cuda maxArg out = .ok (w, (d₁ ++ d₂).map Fatbin.loaded)) :
    (∀ b ∈ d₁ ++ d₂, Copyable b) ∧ Room limit (hasFunctions d₁) false 0 d₁ ∧
      Room limit (hasFunctions d₂) false d₁.length d₂ := by
  refine fits_of_main h₁ h₂ hsep₁ hsep₂ h fun i b hb => ?_
  have hloaded : ((d₁ ++ d₂).map Fatbin.loaded)[i]? = some b.loaded := by
    rw [List.getElem?_map, hb]
    rfl
  rw [functionArg_of_worker hload i b.loaded hloaded, Fatbin.loaded, List.flatMap_map]
  rfl

end

/-- Two dumps that the helpers have written are combined, and the loader reads the fat binaries,
argument records and functions of the first and then those of the second, if and only if there is a
fat binary, the argument files are in the layout of the tool, and there are descriptors for them. -/
theorem combine_concatenates_iff {d₁ d₂ : List (Fatbin cuda maxArg)} {dir₁ dir₂ : Directory}
    (h₁ : dump d₁ = .ok dir₁) (h₂ : dump d₂ = .ok dir₂) (hsep₁ : Separated d₁ dir₁)
    (hsep₂ : Separated d₂ dir₂) (hcuda : cuda.Knows (d₁ ++ d₂)) (limit : Nat)
    (address : Nat → UInt64) :
    (∃ out w, main cuda limit address dir₁ dir₂ = .ok out ∧
      workerInitEpilogue cuda maxArg out = .ok (w, (d₁ ++ d₂).map Fatbin.loaded)) ↔
    d₁ ++ d₂ ≠ [] ∧ (∀ b ∈ d₁ ++ d₂, Copyable b) ∧
      Room limit (hasFunctions d₁) false 0 d₁ ∧
      Room limit (hasFunctions d₂) false d₁.length d₂ := by
  constructor
  · rintro ⟨out, w, hmain, hload⟩
    refine ⟨?_, fits_of_loaded h₁ h₂ hsep₁ hsep₂ hmain hload⟩
    intro hnil
    obtain ⟨rfl, rfl⟩ := List.append_eq_nil_iff.1 hnil
    have hcopied : main cuda limit address dir₁ dir₂ = .ok (copied address []) :=
      main_of_fits h₁ h₂ hsep₁ hsep₂ (by simp) (fun hne => absurd rfl hne)
        (fun hne => absurd rfl hne)
    cases hmain.symm.trans hcopied
    cases hload
  · rintro ⟨hne, hcopyable, hroom₁, hroom₂⟩
    have hcount : (d₁ ++ d₂).length < 2 ^ 31 := by
      have hmany₁ := (written_of_dump h₁).1
      have hmany₂ := (written_of_dump h₂).1
      rw [List.length_append]
      exact lt_of_le_of_lt (Nat.add_le_add hmany₁ hmany₂) (by norm_num)
    obtain ⟨w, hload, -⟩ := workerInitEpilogue_run (I := fun _ _ => True) hcuda
      (holds_copied address hne hcount) (fun _ _ _ _ _ _ _ => trivial) trivial
    exact ⟨_, w, main_of_fits h₁ h₂ hsep₁ hsep₂ hcopyable hroom₁ hroom₂, hload⟩

/-! ### Dumps of TensorFlow and of ONNX -/

theorem bufferNames_kernels {n : Nat} (buffer : Bytes) (ks : List (Kernel n)) :
    bufferNames buffer (ks.map Kernel.record) = .ok (ks.map Kernel.name) := by
  induction ks generalizing buffer with
  | nil => rfl
  | cons k ks ih =>
    rw [List.map_cons, bufferNames]
    simp only [k.cString_name, ih, bind, Except.bind, List.map_cons]

/-- The argument files of the helpers for TensorFlow are in the layout of the tool. -/
theorem copyable_of_tensorflow (b : Fatbin cuda maxKernelArg) : Copyable b := by
  refine ⟨b.kernels.map Kernel.record, b.kernels.map Kernel.name, ⟨?_, fun r hr => ?_, ?_⟩,
    fun f hf => List.mem_map.2 (b.listed f hf)⟩
  · rw [List.flatMap_map]
    rfl
  · obtain ⟨k, -, rfl⟩ := List.mem_map.1 hr
    have hshort := k.short
    refine ⟨?_, ?_, ?_⟩
    · simp [Kernel.record]
    · simp [Kernel.record]
      omega
    · rw [Kernel.record, FatbinFunction.length_toBytes, Kernel.function, List.length_map, k.room]
  · exact bufferNames_kernels [] b.kernels

/-- A fat binary with one kernel, which is registered. -/
def registeredFatbin {n : Nat} (argc : UInt32) (sizes : List UInt32) (room : sizes.length = n) :
    Fatbin anyCuda n where
  wrapper := (smallFatbin true).wrapper
  image := (smallFatbin true).image
  kernels := [⟨smallKernel.name, argc, sizes, smallKernel.nul, smallKernel.short, room⟩]
  functions := (smallFatbin true).functions
  image_ne := (smallFatbin true).image_ne
  image_size := rfl
  image_room := (smallFatbin true).image_room
  text := (smallFatbin true).text
  listed := by
    intro f hf
    cases List.mem_singleton.1 hf
    exact ⟨_, List.mem_singleton.2 rfl, rfl⟩

/-- TensorFlow, with one argument. -/
def tensorflowFatbin : Fatbin anyCuda maxKernelArg :=
  registeredFatbin 1 (4 :: List.replicate 24 0) rfl

section

variable (b : Fatbin cuda maxArg) {n : Nat}

theorem dump_replicate (h : n ≤ 10 ^ 9) :
    dump (List.replicate n b) = .ok (written (List.replicate n b)) := by
  rw [dump_eq, List.length_replicate, if_pos h]

theorem separated_replicate (hb : b.functions ≠ []) :
    Separated (List.replicate n b) (written (List.replicate n b)) := by
  intro hfunctions
  cases n with
  | zero => cases hfunctions
  | succ n =>
    obtain ⟨f, fs, hfs⟩ := List.exists_cons_of_ne_nil hb
    simp [List.replicate_succ, written, functionStream, hfs]

end

theorem combine_concatenates_three : ∃ out w,
    main anyCuda 1024 (fun _ => 0) (written (List.replicate 1 tensorflowFatbin))
      (written (List.replicate 2 tensorflowFatbin)) = .ok out ∧
    workerInitEpilogue anyCuda maxKernelArg out =
      .ok (w, List.replicate 3 tensorflowFatbin.loaded) :=
  (combine_concatenates_iff (dump_replicate tensorflowFatbin (by decide))
    (dump_replicate tensorflowFatbin (by decide)) (separated_replicate tensorflowFatbin (by decide))
    (separated_replicate tensorflowFatbin (by decide)) (knows_anyCuda _) 1024 fun _ => 0).2
    ⟨by simp, fun b _ => copyable_of_tensorflow b, fun _ => by decide, fun _ => by decide⟩

/-- ONNX, with 30 arguments, of which the one with index 28 is large. -/
def onnxFatbin : Fatbin anyCuda 30 :=
  registeredFatbin 30 (List.replicate 28 4 ++ [2048, 4]) rfl

set_option maxRecDepth 20000 in
/-- The tool takes the size of the argument with index 28 for the size of the next name, which is
too long or, as with fewer arguments, 0. With the usual limit of 1024 descriptors two dumps of 600
fat binaries cannot be combined. And two dumps without fat binaries give a directory that cannot be
loaded. -/
theorem combine_fails :
    (dump [onnxFatbin] = .ok (written [onnxFatbin]) ∧
      main anyCuda 1024 (fun _ => 0) (written [onnxFatbin]) (written [onnxFatbin]) =
        .error .assertion) ∧
    (dump [smallFatbin true] = .ok (written [smallFatbin true]) ∧
      main anyCuda 1024 (fun _ => 0) (written [smallFatbin true]) (written [smallFatbin true]) =
        .error .undetermined) ∧
    (dump (List.replicate 600 tensorflowFatbin) =
        .ok (written (List.replicate 600 tensorflowFatbin)) ∧
      ∀ out w, main anyCuda 1024 (fun _ => 0) (written (List.replicate 600 tensorflowFatbin))
          (written (List.replicate 600 tensorflowFatbin)) = .ok out →
        workerInitEpilogue anyCuda maxKernelArg out ≠
          .ok (w, List.replicate 1200 tensorflowFatbin.loaded)) ∧
    ∃ out, main anyCuda 1024 (fun _ => 0) (written ([] : List (Fatbin anyCuda 30)))
        (written ([] : List (Fatbin anyCuda 30))) = .ok out ∧
      workerInitEpilogue anyCuda 30 out = .error .exit := by
  have hmany := dump_replicate tensorflowFatbin (n := 600) (by decide)
  have hsep := separated_replicate tensorflowFatbin (n := 600) (by decide)
  refine ⟨⟨(dump_eq _).trans (if_pos (by decide)), rfl⟩,
    ⟨(dump_eq _).trans (if_pos (by decide)), rfl⟩, ⟨hmany, fun out w hmain hload => ?_⟩,
    _, rfl, rfl⟩
  have hloaded : List.replicate 1200 tensorflowFatbin.loaded =
      (List.replicate 600 tensorflowFatbin ++ List.replicate 600 tensorflowFatbin).map
        Fatbin.loaded := by
    rw [← List.replicate_add, List.map_replicate]
  rw [hloaded] at hload
  have hroom := (fits_of_loaded hmany hmany hsep hsep hmain hload).2.2 (by simp)
  rw [List.length_replicate] at hroom
  omega

end Ava.Dump.Combinator
