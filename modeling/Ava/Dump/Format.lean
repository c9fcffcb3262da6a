import Ava.Lib.File
import Ava.Lib.Records

/-!
# The files of a CUDA dump

The dump helpers (`cava/samples/tensorflow/tf_dump.c`, `cava/samples/onnxruntime/onnx_dump.c`) write
what a program registers with the CUDA runtime into four kinds of files: `fatbin-info.ava` with the
number of fat binaries and their wrappers, `fatbin-i.ava` with the image of one,
`function_arg-i.ava` with a record for each kernel that is listed in it, and `fatfunction.ava` with
the functions that were registered, for all fat binaries. The helpers of the optimized
specifications (`tf_opt.c`, `onnx_opt.c`) load them again, and `tools/dump_combinator` copies two
dumps into one. The three have their own definitions of the records.

The module has the bytes of the records and how they are read.
-/

set_option autoImplicit false

namespace Ava.Dump

open Ava.Lib

/-- Ways to have no result: the process exits, an assertion fails, or the outcome depends on memory
that has not been written. -/
inductive Fault where
  | exit | assertion | undetermined
deriving DecidableEq, Repr

/-- A directory of a dump. -/
structure Directory where
  fatbinInfo : Option Bytes
  fatbin : Nat → Option Bytes
  functionArg : Nat → Option Bytes
  fatfunction : Option Bytes

/-- The CUDA driver: `headerSize + fatSize` of the header of an image, `cuModuleLoadData` for the
image of a fat binary, with `none` for an error and 0 for the module that it leaves if there is no
binary for the GPU, and `cuModuleGetFunction`. -/
structure Cuda where
  binarySize : Bytes → Nat
  moduleLoadData : Nat → Bytes → Option Nat
  moduleGetFunction : Nat → Bytes → Option Nat

/-- The C string in a buffer. Behind a buffer without a NUL is other memory. -/
def cString (buffer : Bytes) : Except Fault Bytes :=
  if 0 ∈ buffer then .ok (buffer.takeWhile (· != 0)) else .error .undetermined

theorem cString_append {text : Bytes} (h : 0 ∉ text) (rest : Bytes) :
    cString (text ++ 0 :: rest) = .ok text := by
  have hall : ∀ b ∈ text, (b != 0) = true := by
    intro b hb
    rw [bne_iff_ne]
    rintro rfl
    exact h hb
  rw [cString, if_pos (by simp), List.takeWhile_append_of_pos hall]
  simp

/-- A string as it is written: its size with the NUL, and the string with it. -/
def textBytes (text : Bytes) : Bytes := leBytes 8 (text.length + 1) ++ (text ++ [0])

/-! ## Functions -/

/-- `uint3`, and `dim3` with the same layout. -/
structure Uint3 where
  x : UInt32
  y : UInt32
  z : UInt32
deriving DecidableEq

/-- What `__cudaRegisterFunction` is given for a function, without the handle of the fat binary and
the host function. -/
structure FunctionRecord where
  deviceFun : Bytes
  deviceName : Bytes
  threadLimit : UInt32
  tid : Option Uint3
  bid : Option Uint3
  bDim : Option Uint3
  gDim : Option Uint3
  wSize : Option UInt32
deriving DecidableEq

def wordBytes (n : UInt32) : Bytes := leBytes 4 n.toNat

def Uint3.toBytes (v : Uint3) : Bytes := wordBytes v.x ++ (wordBytes v.y ++ wordBytes v.z)

/-- `exists`, and the value if there is one. -/
def optionalBytes {α : Type} (toBytes : α → Bytes) : Option α → Bytes
  | none => leBytes 4 0
  | some v => leBytes 4 1 ++ toBytes v

/-- What `__helper_dump_cuda_function` writes. -/
def FunctionRecord.toBytes (f : FunctionRecord) : Bytes :=
  textBytes f.deviceFun ++ (textBytes f.deviceName ++ (wordBytes f.threadLimit ++
    (optionalBytes Uint3.toBytes f.tid ++ (optionalBytes Uint3.toBytes f.bid ++
      (optionalBytes Uint3.toBytes f.bDim ++ (optionalBytes Uint3.toBytes f.gDim ++
        optionalBytes wordBytes f.wSize))))))

/-- The separator is a size of 0. -/
def separator : Bytes := leBytes 8 0

/-- A read that has to get all its bytes: what a shorter one leaves in the buffer is
undetermined. -/
def take (n : Nat) (bs : Bytes) : Except Fault (Bytes × Bytes) := takeBytes .undetermined n bs

/-- A size, and as many bytes. -/
def readText (bs : Bytes) : Except Fault (Bytes × Bytes) := do
  let (size, bs) ← take 8 bs
  take (leNat size) bs

def readWord (bs : Bytes) : Except Fault (UInt32 × Bytes) := do
  let (word, bs) ← take 4 bs
  .ok (UInt32.ofNat (leNat word), bs)

def readUint3 (bs : Bytes) : Except Fault (Uint3 × Bytes) := do
  let (x, bs) ← readWord bs
  let (y, bs) ← readWord bs
  let (z, bs) ← readWord bs
  .ok (⟨x, y, z⟩, bs)

def readOptional {α : Type} (read : Bytes → Except Fault (α × Bytes)) (bs : Bytes) :
    Except Fault (Option α × Bytes) := do
  let («exists», bs) ← readWord bs
  if «exists» = 0 then .ok (none, bs)
  else
    let (v, bs) ← read bs
    .ok (some v, bs)

/-- The body of the loops over `fatfunction.ava`. Of `deviceFun` nothing is used; `deviceName` is
used as a C string. -/
def readFunction (bs : Bytes) : Except Fault (FunctionRecord × Bytes) := do
  let (deviceFun, bs) ← readText bs
  let (deviceName, bs) ← readText bs
  let (threadLimit, bs) ← readWord bs
  let (tid, bs) ← readOptional readUint3 bs
  let (bid, bs) ← readOptional readUint3 bs
  let (bDim, bs) ← readOptional readUint3 bs
  let (gDim, bs) ← readOptional readUint3 bs
  let (wSize, bs) ← readOptional readWord bs
  let name ← cString deviceName
  .ok (⟨deviceFun.takeWhile (· != 0), name, threadLimit, tid, bid, bDim, gDim, wSize⟩, bs)

/-- A C string in memory: it has no NUL inside, and one `write` stores it with its end. -/
def Text (text : Bytes) : Prop := 0 ∉ text ∧ text.length + 1 ≤ File.maxTransfer

instance (text : Bytes) : Decidable (Text text) := inferInstanceAs (Decidable (_ ∧ _))

theorem take_append {n : Nat} {a : Bytes} (h : a.length = n) (b : Bytes) :
    take n (a ++ b) = .ok (a, b) :=
  takeBytes_append _ h b

theorem readText_append {text : Bytes} (h : Text text) (rest : Bytes) :
    readText (textBytes text ++ rest) = .ok (text ++ [0], rest) := by
  have hlt : text.length + 1 < 256 ^ 8 := h.2.trans_lt (by norm_num [File.maxTransfer])
  have hlength : (text ++ [0]).length = text.length + 1 := by simp
  rw [readText, textBytes, List.append_assoc, take_append (length_leBytes 8 _)]
  simp only [bind, Except.bind]
  rw [leNat_leBytes_of_lt hlt, take_append hlength]

theorem readWord_append (n : UInt32) (rest : Bytes) :
    readWord (wordBytes n ++ rest) = .ok (n, rest) := by
  have hlt : n.toNat < 256 ^ 4 := n.toNat_lt.trans_eq (by norm_num)
  rw [readWord, wordBytes, take_append (length_leBytes 4 _)]
  simp only [bind, Except.bind]
  rw [leNat_leBytes_of_lt hlt, UInt32.ofNat_toNat]

theorem readUint3_append (v : Uint3) (rest : Bytes) :
    readUint3 (v.toBytes ++ rest) = .ok (v, rest) := by
  simp only [readUint3, Uint3.toBytes, List.append_assoc, readWord_append, bind, Except.bind]

theorem readOptional_append {α : Type} {read : Bytes → Except Fault (α × Bytes)}
    {toBytes : α → Bytes} (hread : ∀ v rest, read (toBytes v ++ rest) = .ok (v, rest))
    (v : Option α) (rest : Bytes) :
    readOptional read (optionalBytes toBytes v ++ rest) = .ok (v, rest) := by
  cases v with
  | none =>
    have hword : readWord (leBytes 4 0 ++ rest) = .ok (0, rest) := readWord_append 0 rest
    rw [readOptional, optionalBytes, hword]
    rfl
  | some v =>
    have hword : readWord (leBytes 4 1 ++ (toBytes v ++ rest)) = .ok (1, toBytes v ++ rest) :=
      readWord_append 1 _
    rw [readOptional, optionalBytes, List.append_assoc, hword]
    simp only [bind, Except.bind, hread]
    rfl

/-- The strings of a function. -/
def FunctionRecord.Valid (f : FunctionRecord) : Prop := Text f.deviceFun ∧ Text f.deviceName

theorem readFunction_append {f : FunctionRecord} (h : f.Valid) (rest : Bytes) :
    readFunction (f.toBytes ++ rest) = .ok (f, rest) := by
  obtain ⟨hfun, hname⟩ := h
  have hstring : cString (f.deviceName ++ [0]) = .ok f.deviceName := cString_append hname.1 []
  have hwhile : (f.deviceFun ++ [0]).takeWhile (· != 0) = f.deviceFun := by
    have hall : ∀ b ∈ f.deviceFun, (b != 0) = true := by
      intro b hb
      rw [bne_iff_ne]
      rintro rfl
      exact hfun.1 hb
    rw [List.takeWhile_append_of_pos hall]
    simp
  simp only [FunctionRecord.toBytes, List.append_assoc]
  simp only [readFunction, bind, Except.bind, readText_append hfun, readText_append hname,
    readWord_append, readOptional_append readUint3_append, readOptional_append readWord_append,
    hstring, hwhile]

theorem length_textBytes (text : Bytes) : (textBytes text).length = text.length + 9 := by
  simp [textBytes]
  omega

theorem FunctionRecord.length_pos (f : FunctionRecord) : 0 < f.toBytes.length := by
  rw [toBytes, List.length_append, length_textBytes]
  omega

/-! ## Arguments -/

/-- `struct kernel_arg`. -/
structure KernelArg where
  isHandle : UInt8
  size : UInt32
deriving DecidableEq

/-- `struct fatbin_function`. Pointers are numbers, and `NULL` is 0. -/
structure FatbinFunction where
  argc : UInt32
  args : List KernelArg
  cufunc : Nat
  hostfunc : Nat
  module : Nat
deriving DecidableEq

def KernelArg.toBytes (a : KernelArg) : Bytes := [a.isHandle, 0, 0, 0] ++ wordBytes a.size

def KernelArg.ofBytes (bs : Bytes) : KernelArg :=
  ⟨bs.headD 0, UInt32.ofNat (leNat (slice bs 4 4))⟩

/-- The memory of a `struct fatbin_function`; four bytes of padding are before the pointers. -/
def FatbinFunction.toBytes (f : FatbinFunction) : Bytes :=
  wordBytes f.argc ++ (f.args.flatMap KernelArg.toBytes ++ (leBytes 4 0 ++
    (leBytes 8 f.cufunc ++ (leBytes 8 f.hostfunc ++ leBytes 8 f.module))))

/-- `sizeof(struct fatbin_function)`. -/
def functionSize (maxKernelArg : Nat) : Nat := 32 + 8 * maxKernelArg

def FatbinFunction.ofBytes (maxKernelArg : Nat) (bs : Bytes) : FatbinFunction where
  argc := UInt32.ofNat (leNat (slice bs 0 4))
  args := (chunks 8 maxKernelArg (slice bs 4 (maxKernelArg * 8))).map KernelArg.ofBytes
  cufunc := leNat (slice bs (8 + maxKernelArg * 8) 8)
  hostfunc := leNat (slice bs (16 + maxKernelArg * 8) 8)
  module := leNat (slice bs (24 + maxKernelArg * 8) 8)

theorem KernelArg.length_toBytes (a : KernelArg) : a.toBytes.length = 8 := by
  simp [toBytes, wordBytes]

theorem KernelArg.ofBytes_toBytes (a : KernelArg) : ofBytes a.toBytes = a := by
  have hlt : a.size.toNat < 256 ^ 4 := a.size.toNat_lt.trans_eq (by norm_num)
  have hslice : slice ([a.isHandle, 0, 0, 0] ++ (wordBytes a.size ++ [])) 4 4 = wordBytes a.size :=
    slice_append_middle [] rfl (length_leBytes 4 _)
  rw [List.append_nil] at hslice
  rw [ofBytes, toBytes, hslice, wordBytes, leNat_leBytes_of_lt hlt, UInt32.ofNat_toNat]
  rfl

theorem length_argsBytes (args : List KernelArg) :
    (args.flatMap KernelArg.toBytes).length = args.length * 8 := by
  induction args with
  | nil => rfl
  | cons a args ih =>
    rw [List.flatMap_cons, List.length_append, a.length_toBytes, ih, List.length_cons]
    omega

theorem FatbinFunction.length_toBytes (f : FatbinFunction) :
    f.toBytes.length = functionSize f.args.length := by
  simp only [toBytes, wordBytes, List.length_append, length_leBytes, length_argsBytes,
    functionSize]
  omega

theorem ofBytes_args (args : List KernelArg) :
    (chunks 8 args.length (args.flatMap KernelArg.toBytes)).map KernelArg.ofBytes = args := by
  have hchunks : chunks 8 args.length (args.flatMap KernelArg.toBytes) =
      args.map KernelArg.toBytes := by
    have hflatten : chunks 8 (args.map KernelArg.toBytes).length
        (args.map KernelArg.toBytes).flatten = args.map KernelArg.toBytes := by
      apply chunks_flatten
      intro part hpart
      obtain ⟨a, -, rfl⟩ := List.mem_map.1 hpart
      exact a.length_toBytes
    rwa [List.length_map] at hflatten
  rw [hchunks, List.map_map]
  exact (List.map_congr_left fun a _ => a.ofBytes_toBytes).trans (List.map_id args)

/-- The pointers are behind the arguments and the padding. -/
theorem FatbinFunction.slice_pointers (f : FatbinFunction) :
    slice f.toBytes (8 + f.args.length * 8) 8 = leBytes 8 f.cufunc ∧
      slice f.toBytes (16 + f.args.length * 8) 8 = leBytes 8 f.hostfunc ∧
      slice f.toBytes (24 + f.args.length * 8) 8 = leBytes 8 f.module := by
  have hlength : (wordBytes f.argc ++ (f.args.flatMap KernelArg.toBytes ++ leBytes 4 0)).length =
      8 + f.args.length * 8 := by
    simp only [wordBytes, List.length_append, length_leBytes, length_argsBytes]
    omega
  have hsplit : f.toBytes =
      (wordBytes f.argc ++ (f.args.flatMap KernelArg.toBytes ++ leBytes 4 0)) ++
        (leBytes 8 f.cufunc ++ (leBytes 8 f.hostfunc ++ (leBytes 8 f.module ++ []))) := by
    simp only [toBytes, List.append_assoc, List.append_nil]
  rw [hsplit]
  refine ⟨slice_append_middle _ hlength (length_leBytes 8 _), ?_, ?_⟩
  · rw [← List.append_assoc]
    refine slice_append_middle _ ?_ (length_leBytes 8 _)
    rw [List.length_append, hlength, length_leBytes]
    omega
  · rw [← List.append_assoc, ← List.append_assoc]
    refine slice_append_middle _ ?_ (length_leBytes 8 _)
    rw [List.length_append, List.length_append, hlength, length_leBytes, length_leBytes]
    omega

theorem FatbinFunction.ofBytes_toBytes (argc : UInt32) (args : List KernelArg) :
    ofBytes args.length (⟨argc, args, 0, 0, 0⟩ : FatbinFunction).toBytes =
      ⟨argc, args, 0, 0, 0⟩ := by
  have hlt : argc.toNat < 256 ^ 4 := argc.toNat_lt.trans_eq (by norm_num)
  have hargc : slice (⟨argc, args, 0, 0, 0⟩ : FatbinFunction).toBytes 0 4 = wordBytes argc :=
    slice_append_first _ (length_leBytes 4 _)
  have hargs : slice (⟨argc, args, 0, 0, 0⟩ : FatbinFunction).toBytes 4 (args.length * 8) =
      args.flatMap KernelArg.toBytes :=
    slice_append_middle _ (length_leBytes 4 _) (length_argsBytes args)
  have hnull : leNat (leBytes 8 0) = 0 := rfl
  obtain ⟨hcufunc, hhostfunc, hmodule⟩ :=
    FatbinFunction.slice_pointers (⟨argc, args, 0, 0, 0⟩ : FatbinFunction)
  rw [ofBytes, hargc, hargs, hcufunc, hhostfunc, hmodule, ofBytes_args, hnull, wordBytes,
    leNat_leBytes_of_lt hlt, UInt32.ofNat_toNat]

/-- A record of an argument file as it is read: the buffer of the name, and the memory of the
`struct fatbin_function`. -/
structure ArgRecord where
  name : Bytes
  func : Bytes
deriving DecidableEq

def ArgRecord.toBytes (r : ArgRecord) : Bytes := leBytes 8 r.name.length ++ (r.name ++ r.func)

/-- The body of the loops over `function_arg-i.ava`, with the size of `struct fatbin_function`. The
name has to be shorter than `MAX_KERNEL_NAME_LEN`. -/
def readArg (size : Nat) (bs : Bytes) : Except Fault (ArgRecord × Bytes) := do
  let (nameSize, bs) ← take 8 bs
  if 1024 ≤ leNat nameSize then .error .assertion
  else
    let (name, bs) ← take (leNat nameSize) bs
    let (func, bs) ← take size bs
    .ok (⟨name, func⟩, bs)

theorem readArg_append {r : ArgRecord} {size : Nat} (hname : r.name.length < 1024)
    (hfunc : r.func.length = size) (rest : Bytes) :
    readArg size (r.toBytes ++ rest) = .ok (r, rest) := by
  have hlt : r.name.length < 256 ^ 8 := hname.trans (by norm_num)
  simp only [ArgRecord.toBytes, List.append_assoc, readArg, take_append (length_leBytes 8 _), bind,
    Except.bind, leNat_leBytes_of_lt hlt, if_neg (not_le.2 hname), take_append rfl,
    take_append hfunc]

theorem readArg_eq_ok {size : Nat} {bs rest : Bytes} {r : ArgRecord}
    (h : readArg size bs = .ok (r, rest)) :
    bs = r.toBytes ++ rest ∧ r.name.length < 1024 ∧ r.func.length = size := by
  obtain ⟨⟨nameSize, bs₁⟩, hsize, h⟩ := bind_eq_ok.1 h
  dsimp only at h
  split_ifs at h with hlong
  obtain ⟨⟨name, bs₂⟩, hname, h⟩ := bind_eq_ok.1 h
  obtain ⟨⟨func, bs₃⟩, hfunc, h⟩ := bind_eq_ok.1 h
  cases h
  obtain ⟨rfl, hlength⟩ := takeBytes_eq_ok hsize
  obtain ⟨rfl, hlength'⟩ := takeBytes_eq_ok hname
  obtain ⟨rfl, hlength''⟩ := takeBytes_eq_ok hfunc
  have hnumber := leBytes_leNat nameSize
  rw [hlength] at hnumber
  refine ⟨?_, ?_, hlength''⟩
  · rw [ArgRecord.toBytes, hlength', hnumber]
    simp only [List.append_assoc]
  · rw [hlength']
    exact not_le.1 hlong

theorem ArgRecord.length_pos (r : ArgRecord) : 0 < r.toBytes.length := by
  rw [toBytes, List.length_append, length_leBytes]
  omega

/-- A kernel that `cuobjdump` lists in a fat binary. The helpers have room for names of 1022
characters. -/
structure Kernel (maxKernelArg : Nat) where
  name : Bytes
  argc : UInt32
  sizes : List UInt32
  nul : 0 ∉ name
  short : name.length < 1023
  room : sizes.length = maxKernelArg

section

variable {maxKernelArg : Nat}

def Kernel.function (k : Kernel maxKernelArg) : FatbinFunction :=
  ⟨k.argc, k.sizes.map fun size => ⟨0, size⟩, 0, 0, 0⟩

/-- What `__helper_dump_fatbin` writes for a kernel. -/
def Kernel.record (k : Kernel maxKernelArg) : ArgRecord := ⟨k.name ++ [0], k.function.toBytes⟩

theorem Kernel.ofBytes_record (k : Kernel maxKernelArg) :
    FatbinFunction.ofBytes maxKernelArg k.record.func = k.function := by
  have hread := FatbinFunction.ofBytes_toBytes k.argc (k.sizes.map fun size => ⟨0, size⟩)
  rwa [List.length_map, k.room] at hread

theorem Kernel.readArg_record (k : Kernel maxKernelArg) (rest : Bytes) :
    readArg (functionSize maxKernelArg) (k.record.toBytes ++ rest) = .ok (k.record, rest) := by
  have hname := k.short
  apply readArg_append
  · rw [record, List.length_append, List.length_singleton]
    omega
  · rw [record, FatbinFunction.length_toBytes, function, List.length_map, k.room]

theorem Kernel.cString_name (k : Kernel maxKernelArg) (rest : Bytes) :
    cString (k.record.name ++ rest) = .ok k.name := by
  rw [record, List.append_assoc]
  exact cString_append k.nul rest

end

/-! ## Wrappers -/

/-- `struct fatbin_wrapper`. -/
structure Wrapper where
  magic : UInt32
  seq : UInt32
  ptr : UInt64
  dataPtr : UInt64
deriving DecidableEq

def Wrapper.toBytes (w : Wrapper) : Bytes :=
  wordBytes w.magic ++ (wordBytes w.seq ++ (leBytes 8 w.ptr.toNat ++ leBytes 8 w.dataPtr.toNat))

def readWrapper (bs : Bytes) : Except Fault (Wrapper × Bytes) := do
  let (magic, bs) ← readWord bs
  let (seq, bs) ← readWord bs
  let (ptr, bs) ← take 8 bs
  let (dataPtr, bs) ← take 8 bs
  .ok (⟨magic, seq, UInt64.ofNat (leNat ptr), UInt64.ofNat (leNat dataPtr)⟩, bs)

theorem readWrapper_append (w : Wrapper) (rest : Bytes) :
    readWrapper (w.toBytes ++ rest) = .ok (w, rest) := by
  have hptr : w.ptr.toNat < 256 ^ 8 := w.ptr.toNat_lt.trans_eq (by norm_num)
  have hdata : w.dataPtr.toNat < 256 ^ 8 := w.dataPtr.toNat_lt.trans_eq (by norm_num)
  simp only [Wrapper.toBytes, List.append_assoc, readWrapper, readWord_append, bind, Except.bind,
    take_append (length_leBytes 8 _), leNat_leBytes_of_lt hptr, leNat_leBytes_of_lt hdata,
    UInt64.ofNat_toNat]

/-! ## Fat binaries -/

/-- A fat binary that a program registers, with the functions that it registers for it. The image
has the size that its header says, one `write` stores it, and the functions are listed in it. -/
structure Fatbin (cuda : Cuda) (maxKernelArg : Nat) where
  wrapper : Wrapper
  image : Bytes
  kernels : List (Kernel maxKernelArg)
  functions : List FunctionRecord
  image_ne : image ≠ []
  image_size : cuda.binarySize image = image.length
  image_room : image.length ≤ File.maxTransfer
  text : ∀ f ∈ functions, Text f.deviceFun
  listed : ∀ f ∈ functions, ∃ k ∈ kernels, k.name = f.deviceName

namespace Fatbin

variable {cuda : Cuda} {maxKernelArg : Nat}

/-- The contents of the argument file. -/
def argFile (b : Fatbin cuda maxKernelArg) : Bytes := b.kernels.flatMap fun k => k.record.toBytes

/-- The names of functions are names of kernels. -/
theorem valid (b : Fatbin cuda maxKernelArg) : ∀ f ∈ b.functions, f.Valid := by
  intro f hf
  obtain ⟨k, -, hname⟩ := b.listed f hf
  refine ⟨b.text f hf, ?_, ?_⟩
  · rw [← hname]
    exact k.nul
  · rw [← hname]
    exact (Nat.add_lt_add_right k.short 1).le.trans (by norm_num [File.maxTransfer])

end Fatbin

end Ava.Dump
