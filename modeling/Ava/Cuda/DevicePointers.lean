import Ava.Lib.SearchTree
import Ava.Lib.Span

/-!
# Telling device pointers from host pointers

The guest library answers `cudaPointerGetAttributes` without the worker. It saves the range of every
successful `cuMemAlloc` in a tree of GLib, under the start of the range, and searches the tree for a
range with the pointer in it (`cava/samples/onnxruntime/onnx_opt.c`,
`guestlib/extensions/tf_optimization.c`).

The tree is ordered by a comparison of addresses that looks at the sign of their difference. The
search compares the pointer with both ends of a range, so that it is steered by ranges, not by keys.
`device_pointers_recognised` says that it is steered right in a tree of any shape.
-/

set_option autoImplicit false

namespace Ava.Cuda

open Ava.Lib

/-! ## The model -/

/-- `struct gpu_address_range`. -/
structure GpuAddressRange where
  start : UInt64
  stop : UInt64
deriving DecidableEq, Repr

/-- `gpu_address_set`. -/
abbrev AddressSet := SearchTree UInt64 GpuAddressRange

/-- `gpu_address_range_cmp`. The difference is a `long`. -/
def gpuAddressRangeCmp (r1 r2 : UInt64) : Int :=
  let diff := (r1 - r2).toInt64
  if diff < 0 then -1
  else if diff > 0 then 1
  else 0

/-- What the search is told at a saved range. -/
def rangeAnswer (r : GpuAddressRange) (p : UInt64) : Int :=
  if r.start > p then -1
  else if r.stop ≤ p then 1
  else 0

/-- `gpu_address_search_func`. There is no result if the key is not in the tree. -/
def gpuAddressSearchFunc (set : AddressSet) (a b : UInt64) : Option Int :=
  (set.lookup gpuAddressRangeCmp a).map fun r => rangeAnswer r b

inductive MemoryType where
  | unregistered
  | device
deriving DecidableEq, Repr

inductive CudaError where
  | success
  | invalidValue
  | invalidDevice
deriving DecidableEq, Repr

/-- The fields of `struct cudaPointerAttributes` that are written. -/
structure PointerAttributes where
  type : MemoryType
  memoryType : MemoryType
deriving DecidableEq, Repr

/-- The result, what is written to the attributes, and what is assigned to `cuda_last_error`. -/
structure PointerReport where
  error : CudaError
  attributes : Option PointerAttributes
  lastError : Option CudaError
deriving DecidableEq, Repr

/-- `cudaPointerGetAttributes`, with a pointer to attributes or with `NULL`. -/
def cudaPointerGetAttributes (set : AddressSet) (attributes : Bool) (ptr : UInt64) :
    Option PointerReport :=
  if attributes = false then some ⟨.invalidDevice, none, none⟩
  else
    (set.search fun key => gpuAddressSearchFunc set key ptr).map fun res =>
      match res with
      | some _ => ⟨.success, some ⟨.device, .device⟩, none⟩
      | none => ⟨.invalidValue, some ⟨.unregistered, .unregistered⟩, some .invalidValue⟩

/-- A result of `cuMemAlloc`: the address and the size, and the error code. -/
structure MemAlloc where
  dptr : UInt64
  bytesize : UInt64
  ret : UInt32
deriving DecidableEq, Repr

/-- `__helper_save_gpu_address_range`, in the guest or in the worker. -/
def SavesGpuAddressRange (isGuest : Bool) (alloc : MemAlloc) (set set' : AddressSet) : Prop :=
  if isGuest = true ∧ alloc.ret = 0 then
    SearchTree.Inserts gpuAddressRangeCmp alloc.dptr ⟨alloc.dptr, alloc.dptr + alloc.bytesize⟩
      set set'
  else set' = set

/-- The tree after a sequence of results in the guest. -/
inductive SavedAll : List MemAlloc → AddressSet → Prop where
  | nil : SavedAll [] .nil
  | snoc {allocs : List MemAlloc} {set set' : AddressSet} {alloc : MemAlloc} :
      SavedAll allocs set → SavesGpuAddressRange true alloc set set' →
      SavedAll (allocs ++ [alloc]) set'

/-! ## Results of the driver -/

def MemAlloc.span (alloc : MemAlloc) : Span := ⟨alloc.dptr.toNat, alloc.bytesize.toNat⟩

def MemAlloc.range (alloc : MemAlloc) : GpuAddressRange :=
  ⟨alloc.dptr, alloc.dptr + alloc.bytesize⟩

/-- The results of the calls that succeeded. -/
def successful (allocs : List MemAlloc) : List MemAlloc :=
  allocs.filter fun alloc => alloc.ret = 0

/-- The range is not empty and below 2^63. -/
structure MemAlloc.Proper (alloc : MemAlloc) : Prop where
  pos : 0 < alloc.bytesize.toNat
  below : alloc.dptr.toNat + alloc.bytesize.toNat ≤ 2 ^ 63

/-- The ranges of the successful calls are proper, and apart from each other. -/
structure AllProper (allocs : List MemAlloc) : Prop where
  proper : ∀ alloc ∈ successful allocs, alloc.Proper
  apart : (successful allocs).Pairwise fun a b => a.span.Apart b.span

/-- Addresses below 2^63. -/
def lowAddresses : Set UInt64 := { a | a.toNat < 2 ^ 63 }

theorem mem_lowAddresses {a : UInt64} : a ∈ lowAddresses ↔ a.toNat < 2 ^ 63 := Iff.rfl

section Ranges

variable {a b alloc : MemAlloc} {allocs : List MemAlloc}

theorem MemAlloc.Proper.low (h : alloc.Proper) : alloc.dptr ∈ lowAddresses := by
  have hpos := h.pos
  have hbelow := h.below
  rw [mem_lowAddresses]
  omega

/-- The end of the range is computed without overflow. -/
theorem MemAlloc.Proper.stop_toNat (h : alloc.Proper) :
    alloc.range.stop.toNat = alloc.dptr.toNat + alloc.bytesize.toNat := by
  have hbelow := h.below
  rw [range, UInt64.toNat_add, Nat.mod_eq_of_lt]
  omega

/-- Of two proper ranges that are apart, the one that starts first ends before the other starts. -/
theorem MemAlloc.Proper.stop_le (ha : a.Proper) (hb : b.Proper) (hapart : a.span.Apart b.span)
    (hlt : a.dptr.toNat < b.dptr.toNat) :
    a.dptr.toNat + a.bytesize.toNat ≤ b.dptr.toNat := by
  have hapos := ha.pos
  have hbpos := hb.pos
  rw [Span.apart_iff] at hapart
  simp only [Span.stop, span] at hapart
  omega

theorem MemAlloc.Proper.dptr_ne (ha : a.Proper) (hb : b.Proper) (hapart : a.span.Apart b.span) :
    a.dptr.toNat ≠ b.dptr.toNat := by
  intro heq
  apply hapart a.dptr.toNat
  · rw [Span.mem_iff]
    exact ⟨le_rfl, Nat.lt_add_of_pos_right ha.pos⟩
  · rw [Span.mem_iff, heq]
    exact ⟨le_rfl, Nat.lt_add_of_pos_right hb.pos⟩

theorem AllProper.apart_of_ne (h : AllProper allocs) (ha : a ∈ successful allocs)
    (hb : b ∈ successful allocs) (hne : a ≠ b) : a.span.Apart b.span := by
  have hsymm : Std.Symm fun a b : MemAlloc => a.span.Apart b.span := ⟨fun _ _ hab => hab.symm⟩
  exact h.apart.forall ha hb hne

end Ranges

/-! ## The tree of the saved ranges -/

/-- Below 2^63 the difference of two addresses is not cut off. -/
theorem toInt_sub_toInt64 {a b : UInt64} (ha : a ∈ lowAddresses) (hb : b ∈ lowAddresses) :
    (a - b).toInt64.toInt = (a.toNat : Int) - b.toNat := by
  have low : ∀ x : UInt64, x ∈ lowAddresses → x.toBitVec.toInt = x.toNat := by
    intro x hx
    rw [BitVec.toInt_eq_toNat_of_lt, UInt64.toNat]
    rw [mem_lowAddresses] at hx
    rw [UInt64.toNat_toBitVec]
    omega
  have hbmod : ((a.toNat : Int) - b.toNat).bmod (2 ^ 64) = (a.toNat : Int) - b.toNat := by
    rw [mem_lowAddresses] at ha hb
    rw [Int.bmod_eq_of_le] <;> omega
  rw [Int64.toInt, UInt64.toBitVec_toInt64, UInt64.toBitVec_sub, BitVec.toInt_sub, low a ha,
    low b hb, hbmod]

/-- Below 2^63 the sign of the difference tells the order. -/
theorem compares_gpuAddressRangeCmp :
    SearchTree.Compares gpuAddressRangeCmp UInt64.toNat lowAddresses := by
  have hcmp : ∀ a ∈ lowAddresses, ∀ b ∈ lowAddresses, gpuAddressRangeCmp a b =
      if a.toNat < b.toNat then -1 else if b.toNat < a.toNat then 1 else 0 := by
    intro a ha b hb
    have hdiff := toInt_sub_toInt64 ha hb
    simp only [gpuAddressRangeCmp, gt_iff_lt, Int64.lt_iff_toInt_lt, hdiff, Int64.toInt_zero]
    split_ifs <;> omega
  constructor
  · intro a ha b hb
    rw [hcmp a ha b hb]
    split_ifs <;> omega
  · intro a ha b hb
    rw [hcmp a ha b hb]
    split_ifs with hlt hgt
    · exact iff_of_false (by decide) (Nat.ne_of_lt hlt)
    · exact iff_of_false (by decide) (Nat.ne_of_gt hgt)
    · exact iff_of_true rfl (by omega)

/-- The tree has the ranges of the successful calls, in the order of their starts. -/
structure HoldsRanges (allocs : List MemAlloc) (set : AddressSet) : Prop where
  sorted : SearchTree.Sorted UInt64.toNat set.toList
  entries : ∀ e, e ∈ set.toList ↔ ∃ alloc ∈ successful allocs, e = (alloc.dptr, alloc.range)

section Saving

variable {allocs : List MemAlloc} {set set' : AddressSet} {alloc : MemAlloc}

theorem HoldsRanges.low (h : HoldsRanges allocs set) (hproper : AllProper allocs) :
    ∀ e ∈ set.toList, e.1 ∈ lowAddresses := by
  intro e he
  obtain ⟨alloc, halloc, rfl⟩ := (h.entries e).1 he
  exact (hproper.proper alloc halloc).low

theorem successful_snoc (allocs : List MemAlloc) (alloc : MemAlloc) :
    successful (allocs ++ [alloc]) =
      if alloc.ret = 0 then successful allocs ++ [alloc] else successful allocs := by
  rw [successful, List.filter_append]
  split_ifs with h
  · simp [h, successful]
  · simp [h, successful]

theorem AllProper.init (h : AllProper (allocs ++ [alloc])) : AllProper allocs := by
  have hsub : (successful allocs).Sublist (successful (allocs ++ [alloc])) :=
    (List.sublist_append_left _ _).filter _
  exact ⟨fun a ha => h.proper a (hsub.subset ha), h.apart.sublist hsub⟩

/-- Saving the range of one more result. -/
theorem HoldsRanges.saves (h : HoldsRanges allocs set) (hproper : AllProper (allocs ++ [alloc]))
    (hsaves : SavesGpuAddressRange true alloc set set') :
    HoldsRanges (allocs ++ [alloc]) set' := by
  have hinit := hproper.init
  obtain ⟨hall, hapart⟩ := hproper
  rw [SavesGpuAddressRange] at hsaves
  rw [successful_snoc] at hall hapart
  by_cases hret : alloc.ret = 0
  · rw [if_pos ⟨rfl, hret⟩] at hsaves
    rw [if_pos hret] at hall hapart
    have hlast : alloc.Proper := hall alloc (by simp)
    -- the new range starts where no saved range starts
    have hnew : ∀ e ∈ set.toList, alloc.dptr.toNat ≠ e.1.toNat := by
      intro e he
      obtain ⟨a, ha, rfl⟩ := (h.entries e).1 he
      have hdisjoint := (List.pairwise_append.1 hapart).2.2 a ha alloc (by simp)
      exact ((hinit.proper a ha).dptr_ne hlast hdisjoint).symm
    obtain ⟨hsorted, hmem⟩ := SearchTree.sorted_insertEntry compares_gpuAddressRangeCmp h.sorted
      (h.low hinit) hlast.low hnew
    refine ⟨?_, fun e => ?_⟩
    · rw [hsaves]
      exact hsorted
    · rw [hsaves, hmem, h.entries, successful_snoc, if_pos hret]
      constructor
      · rintro (rfl | ⟨a, ha, rfl⟩)
        · exact ⟨alloc, by simp, rfl⟩
        · exact ⟨a, by simp [ha], rfl⟩
      · rintro ⟨a, ha, rfl⟩
        rcases List.mem_append.1 ha with ha | ha
        · exact .inr ⟨a, ha, rfl⟩
        · rw [List.mem_singleton.1 ha]
          exact .inl rfl
  · rw [if_neg (fun hand => hret hand.2)] at hsaves
    subst hsaves
    refine ⟨h.sorted, fun e => ?_⟩
    rw [h.entries, successful_snoc, if_neg hret]

/-- The tree after any sequence of results. -/
theorem SavedAll.holdsRanges (hsaved : SavedAll allocs set) (hproper : AllProper allocs) :
    HoldsRanges allocs set := by
  induction hsaved with
  | nil => exact ⟨List.Pairwise.nil, fun e => by simp [SearchTree.toList, successful]⟩
  | snoc _ hsaves ih => exact (ih hproper.init).saves hproper hsaves

end Saving

/-! ## The search -/

section Search

variable {allocs : List MemAlloc} {set : AddressSet} {alloc : MemAlloc} {p : UInt64}

theorem HoldsRanges.searchFunc (h : HoldsRanges allocs set) (hproper : AllProper allocs)
    (halloc : alloc ∈ successful allocs) :
    gpuAddressSearchFunc set alloc.dptr p = some (rangeAnswer alloc.range p) := by
  have hmem := (h.entries (alloc.dptr, alloc.range)).2 ⟨alloc, halloc, rfl⟩
  rw [gpuAddressSearchFunc,
    SearchTree.lookup_of_mem compares_gpuAddressRangeCmp h.sorted (h.low hproper) hmem]
  rfl

/-- The three answers at a proper range. -/
theorem MemAlloc.Proper.rangeAnswer_iff (h : alloc.Proper) :
    (rangeAnswer alloc.range p < 0 ↔ p.toNat < alloc.dptr.toNat) ∧
      (0 < rangeAnswer alloc.range p ↔ alloc.dptr.toNat + alloc.bytesize.toNat ≤ p.toNat) := by
  have hpos := h.pos
  have hstop := h.stop_toNat
  have hstart : alloc.range.start = alloc.dptr := rfl
  simp only [rangeAnswer, gt_iff_lt, hstart, UInt64.lt_iff_toNat_lt, UInt64.le_iff_toNat_le, hstop]
  split_ifs <;> omega

theorem MemAlloc.Proper.rangeAnswer_eq_zero (h : alloc.Proper) :
    rangeAnswer alloc.range p = 0 ↔ p.toNat ∈ alloc.span := by
  obtain ⟨hneg, hpos⟩ := h.rangeAnswer_iff (p := p)
  rw [Span.mem_iff]
  simp only [span]
  omega

/-- The search is steered right, although it compares with both ends of a range. -/
theorem HoldsRanges.steers (h : HoldsRanges allocs set) (hproper : AllProper allocs) (p : UInt64) :
    SearchTree.Steers (fun key => (gpuAddressSearchFunc set key p).getD 0) set.toList := by
  refine h.sorted.imp_of_mem fun {x y} hx hy hlt => ?_
  obtain ⟨a, ha, rfl⟩ := (h.entries x).1 hx
  obtain ⟨b, hb, rfl⟩ := (h.entries y).1 hy
  have hne : a ≠ b := fun heq => Nat.lt_irrefl _ (heq ▸ hlt)
  have hstop := (hproper.proper a ha).stop_le (hproper.proper b hb)
    (hproper.apart_of_ne ha hb hne) hlt
  obtain ⟨haneg, hapos⟩ := (hproper.proper a ha).rangeAnswer_iff (p := p)
  obtain ⟨hbneg, hbpos⟩ := (hproper.proper b hb).rangeAnswer_iff (p := p)
  dsimp only at hlt ⊢
  rw [h.searchFunc hproper ha, h.searchFunc hproper hb, Option.getD_some, Option.getD_some]
  omega

/-- A pointer is reported as one to device memory if it is in a saved range, and only then. -/
theorem device_pointers_recognised (allocs : List MemAlloc) (set : AddressSet) (p : UInt64)
    (hproper : AllProper allocs) (hsaved : SavedAll allocs set) :
    ∃ report, cudaPointerGetAttributes set true p = some report ∧
      (report.error = .success ∧ report.attributes = some ⟨.device, .device⟩ ↔
        ∃ alloc ∈ successful allocs, p.toNat ∈ alloc.span) := by
  have hholds := hsaved.holdsRanges hproper
  have hanswer : ∀ e ∈ set.toList, gpuAddressSearchFunc set e.1 p =
      some ((gpuAddressSearchFunc set e.1 p).getD 0) := by
    intro e he
    obtain ⟨alloc, halloc, rfl⟩ := (hholds.entries e).1 he
    rw [hholds.searchFunc hproper halloc, Option.getD_some]
  obtain ⟨found, hfound, hsome, hnone⟩ :=
    SearchTree.search_eq_some (g := fun key => gpuAddressSearchFunc set key p) hanswer
      (hholds.steers hproper p)
  rw [cudaPointerGetAttributes, if_neg Bool.noConfusion, hfound]
  refine ⟨_, rfl, ?_⟩
  cases found with
  | some r =>
    obtain ⟨k, hk, hk0⟩ := hsome r rfl
    obtain ⟨alloc, halloc, heq⟩ := (hholds.entries _).1 hk
    cases heq
    rw [hholds.searchFunc hproper halloc, Option.getD_some,
      (hproper.proper alloc halloc).rangeAnswer_eq_zero] at hk0
    exact iff_of_true ⟨rfl, rfl⟩ ⟨alloc, halloc, hk0⟩
  | none =>
    refine iff_of_false (fun h => by cases h.1) ?_
    rintro ⟨alloc, halloc, hmem⟩
    apply hnone rfl _ ((hholds.entries _).2 ⟨alloc, halloc, rfl⟩)
    rw [hholds.searchFunc hproper halloc, Option.getD_some]
    exact (hproper.proper alloc halloc).rangeAnswer_eq_zero.2 hmem

end Search

/-- Two ranges in a tree with the second one at its root. -/
theorem device_pointers_recognised_two :
    ∃ report, cudaPointerGetAttributes
        (.node (.node .nil 4096 ⟨4096, 4352⟩ .nil) 8192 ⟨8192, 12288⟩ .nil) true 4200 =
          some report ∧
      (report.error = .success ∧ report.attributes = some ⟨.device, .device⟩ ↔
        ∃ alloc ∈ successful [⟨8192, 4096, 0⟩, ⟨16, 16, 2⟩, ⟨4096, 256, 0⟩],
          (4200 : UInt64).toNat ∈ alloc.span) := by
  refine device_pointers_recognised _ _ 4200 ⟨?_, ?_⟩ ?_
  · intro alloc halloc
    have hcases : alloc = ⟨8192, 4096, 0⟩ ∨ alloc = ⟨4096, 256, 0⟩ := by
      simpa [successful] using halloc
    rcases hcases with rfl | rfl
    · exact ⟨by decide, by simp⟩
    · exact ⟨by decide, by simp⟩
  · have hsuccessful : successful [⟨8192, 4096, 0⟩, ⟨16, 16, 2⟩, ⟨4096, 256, 0⟩] =
        [⟨8192, 4096, 0⟩, ⟨4096, 256, 0⟩] := by decide
    rw [hsuccessful, List.pairwise_pair, Span.apart_iff]
    exact .inr (.inr (.inr (by decide)))
  · have hfirst : SavedAll [⟨8192, 4096, 0⟩] (.node .nil 8192 ⟨8192, 12288⟩ .nil) :=
      SavedAll.snoc SavedAll.nil (by rfl)
    have hsecond : SavedAll [⟨8192, 4096, 0⟩, ⟨16, 16, 2⟩] (.node .nil 8192 ⟨8192, 12288⟩ .nil) :=
      SavedAll.snoc hfirst (by rfl)
    exact SavedAll.snoc hsecond (by rfl)

end Ava.Cuda
