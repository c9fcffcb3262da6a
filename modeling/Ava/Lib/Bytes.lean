import Mathlib.Data.List.TakeDrop
import Mathlib.Tactic

/-!
# Byte strings

Memory blocks and files are lists of bytes. The module has little-endian numbers, reading a slice,
and writing at an offset, with the lemmas that compute slices of concatenations. A write past the
end leaves a hole of zero bytes, as it does in a file.
-/

set_option autoImplicit false

namespace Ava.Lib

/-- A memory block or the contents of a file. -/
abbrev Bytes := List UInt8

/-- The `k` low bytes of `n`, lowest first. -/
def leBytes : Nat → Nat → Bytes
  | 0, _ => []
  | k + 1, n => UInt8.ofNat n :: leBytes k (n / 256)

/-- The number whose bytes, lowest first, are given. -/
def leNat : Bytes → Nat
  | [] => 0
  | b :: bs => b.toNat + 256 * leNat bs

/-- The `len` bytes from `off` on, or what there is of them. -/
def slice (bs : Bytes) (off len : Nat) : Bytes := (bs.drop off).take len

/-- `read`: all of the `len` bytes from `off` on. -/
def readAt (bs : Bytes) (off len : Nat) : Option Bytes :=
  if off + len ≤ bs.length then some (slice bs off len) else none

/-- `write`: the bytes from `off` on are replaced, and the file grows if it has to. Writing no bytes
does nothing. -/
def writeAt (bs : Bytes) (off : Nat) (data : Bytes) : Bytes :=
  if data = [] then bs
  else bs.take off ++ List.replicate (off - bs.length) 0 ++ data ++ bs.drop (off + data.length)

/-- The `count` consecutive parts of `size` bytes each. -/
def chunks (size count : Nat) (bs : Bytes) : List Bytes :=
  (List.range count).map fun i => slice bs (i * size) size

/-- `data` lies in `bs` from `off` on. -/
def HoldsAt (bs : Bytes) (off : Nat) (data : Bytes) : Prop :=
  ∃ before after, bs = before ++ data ++ after ∧ before.length = off

@[simp] theorem length_leBytes (k n : Nat) : (leBytes k n).length = k := by
  induction k generalizing n with
  | zero => rfl
  | succ k ih =>
    rw [leBytes, List.length_cons, ih]

theorem leNat_leBytes (k n : Nat) : leNat (leBytes k n) = n % 256 ^ k := by
  induction k generalizing n with
  | zero => rw [pow_zero, Nat.mod_one]; rfl
  | succ k ih =>
    rw [leBytes, leNat, ih, pow_succ', Nat.mod_mul, UInt8.toNat_ofNat']

variable {n : Nat}

theorem leNat_leBytes_of_lt {k : Nat} (h : n < 256 ^ k) : leNat (leBytes k n) = n := by
  rw [leNat_leBytes, Nat.mod_eq_of_lt h]

theorem leBytes_leNat (bs : Bytes) : leBytes bs.length (leNat bs) = bs := by
  induction bs with
  | nil => rfl
  | cons b bs ih =>
    have hlt : b.toNat < 256 := b.toNat_lt
    have hdiv : (b.toNat + 256 * leNat bs) / 256 = leNat bs := by omega
    have hlow : UInt8.ofNat (b.toNat + 256 * leNat bs) = b := by
      apply UInt8.toNat_inj.1
      rw [UInt8.toNat_ofNat']
      omega
    rw [List.length_cons, leNat, leBytes, hdiv, hlow, ih]

theorem leNat_append (a b : Bytes) : leNat (a ++ b) = leNat a + 256 ^ a.length * leNat b := by
  induction a with
  | nil => simp [leNat]
  | cons x a ih =>
    rw [List.cons_append, leNat, ih, leNat, List.length_cons, Nat.pow_succ]
    ring

theorem leNat_lt (a : Bytes) : leNat a < 256 ^ a.length := by
  induction a with
  | nil => exact Nat.one_pos
  | cons x a ih =>
    have hx : x.toNat < 256 := x.toNat_lt
    rw [leNat, List.length_cons, Nat.pow_succ]
    omega

/-! ## Slices -/

theorem slice_append_right (a b : Bytes) (off len : Nat) :
    slice (a ++ b) (a.length + off) len = slice b off len := by
  rw [slice, slice, ← List.drop_drop, List.drop_left]

variable {a : Bytes} {len off : Nat}

theorem slice_append_left (b : Bytes) (h : off + len ≤ a.length) :
    slice (a ++ b) off len = slice a off len := by
  rw [slice, slice, List.drop_append_of_le_length (by omega),
    List.take_append_of_le_length (by rw [List.length_drop]; omega)]

theorem slice_zero_length (a : Bytes) : slice a 0 a.length = a := by
  rw [slice, List.drop_zero, List.take_length]

theorem slice_zero_append (a b : Bytes) : slice (a ++ b) 0 a.length = a := by
  rw [slice_append_left b (by omega), slice_zero_length]

theorem slice_append_of_le (b : Bytes) (h : a.length ≤ off) :
    slice (a ++ b) off len = slice b (off - a.length) len := by
  obtain ⟨n, rfl⟩ := Nat.exists_eq_add_of_le h
  rw [slice_append_right, Nat.add_sub_cancel_left]

theorem slice_append_first (b : Bytes) (h : a.length = len) : slice (a ++ b) 0 len = a := by
  rw [← h, slice_zero_append]

theorem slice_append_middle {b : Bytes} (c : Bytes) (ha : a.length = off) (hb : b.length = len) :
    slice (a ++ (b ++ c)) off len = b := by
  have hright := slice_append_right a (b ++ c) 0 len
  rw [slice_append_first c hb, ha, Nat.add_zero] at hright
  exact hright

variable {bs : Bytes}

theorem length_slice (h : off + len ≤ bs.length) : (slice bs off len).length = len := by
  rw [slice, List.length_take, List.length_drop]
  omega

theorem slice_add (bs : Bytes) (off m n : Nat) :
    slice bs off (m + n) = slice bs off m ++ slice bs (off + m) n := by
  rw [slice, slice, slice, List.take_add, List.drop_drop]

theorem slice_slice {i : Nat} (h : i + n ≤ len) :
    slice (slice bs off len) i n = slice bs (off + i) n := by
  simp only [slice, List.drop_take, List.take_take, List.drop_drop]
  congr 1
  omega

variable {data : Bytes}

theorem readAt_eq_some (h : readAt bs off len = some data) :
    off + len ≤ bs.length ∧ slice bs off len = data := by
  rw [readAt] at h
  split_ifs at h with hle
  cases h
  exact ⟨hle, rfl⟩

theorem readAt_length (h : readAt bs off len = some data) : data.length = len := by
  obtain ⟨hle, rfl⟩ := readAt_eq_some h
  exact length_slice hle

theorem readAt_append_middle (a b c : Bytes) :
    readAt (a ++ b ++ c) a.length b.length = some b := by
  have hle : a.length + b.length ≤ (a ++ b ++ c).length := by simp
  have hslice := slice_append_right a (b ++ c) 0 b.length
  rw [Nat.add_zero, slice_zero_append, ← List.append_assoc] at hslice
  rw [readAt, if_pos hle, hslice]

namespace HoldsAt

variable {bs a b : Bytes} {off : Nat}

theorem readAt_eq (h : HoldsAt bs off a) : readAt bs off a.length = some a := by
  obtain ⟨before, after, rfl, rfl⟩ := h
  exact readAt_append_middle before a after

theorem left (h : HoldsAt bs off (a ++ b)) : HoldsAt bs off a := by
  obtain ⟨before, after, rfl, rfl⟩ := h
  exact ⟨before, b ++ after, by simp, rfl⟩

theorem right (h : HoldsAt bs off (a ++ b)) : HoldsAt bs (off + a.length) b := by
  obtain ⟨before, after, rfl, rfl⟩ := h
  exact ⟨before ++ a, after, by simp, by simp⟩

end HoldsAt

/-! ## Chunks -/

theorem chunks_succ (size count : Nat) (bs : Bytes) :
    chunks size (count + 1) bs = bs.take size :: chunks size count (bs.drop size) := by
  simp only [chunks, List.range_succ_eq_map, List.map_cons, List.map_map, Function.comp_def, slice,
    Nat.zero_mul, List.drop_zero, List.drop_drop, Nat.succ_mul, Nat.add_comm size]

theorem getElem?_chunks {size count : Nat} {i : Nat} {part : Bytes} :
    (chunks size count bs)[i]? = some part ↔ i < count ∧ slice bs (i * size) size = part := by
  rw [chunks, List.getElem?_map, Option.map_eq_some_iff]
  constructor
  · rintro ⟨k, hk, rfl⟩
    obtain ⟨hlt, rfl⟩ := List.getElem?_eq_some_iff.1 hk
    rw [List.length_range] at hlt
    exact ⟨hlt, by rw [List.getElem_range]⟩
  · rintro ⟨hlt, rfl⟩
    exact ⟨i, List.getElem?_range hlt, rfl⟩

theorem length_flatten_of_lengths {parts : List Bytes} (h : ∀ part ∈ parts, part.length = n) :
    parts.flatten.length = parts.length * n := by
  rw [List.length_flatten, List.map_eq_replicate_iff.2 h, List.sum_replicate, smul_eq_mul]

theorem chunks_flatten {size : Nat} {parts : List Bytes} (h : ∀ part ∈ parts, part.length = size) :
    chunks size parts.length parts.flatten = parts := by
  induction parts with
  | nil => rfl
  | cons part parts ih =>
    have hpart := h part List.mem_cons_self
    rw [List.length_cons, List.flatten_cons, chunks_succ, List.take_left' hpart,
      List.drop_left' hpart, ih fun q hq => h q (List.mem_cons_of_mem _ hq)]

/-! ## Writes -/

theorem writeAt_nil (bs : Bytes) (off : Nat) : writeAt bs off [] = bs := if_pos rfl

theorem writeAt_append_middle (a m b data : Bytes) (h : data.length = m.length) :
    writeAt (a ++ m ++ b) a.length data = a ++ data ++ b := by
  by_cases hdata : data = []
  · subst hdata
    rw [List.length_nil] at h
    rw [writeAt_nil, List.length_eq_zero_iff.1 h.symm]
  have hdrop : (a ++ m ++ b).drop (a.length + data.length) = b := by
    rw [h, ← List.length_append, List.drop_left]
  have htake : (a ++ m ++ b).take a.length = a := by
    rw [List.append_assoc, List.take_left]
  have hhole : a.length - (a ++ m ++ b).length = 0 := by
    simp only [List.length_append]
    omega
  rw [writeAt, if_neg hdata, hdrop, htake, hhole, List.replicate_zero, List.append_nil]

theorem writeAt_past_end (a : Bytes) (k : Nat) (hdata : data ≠ []) :
    writeAt a (a.length + k) data = a ++ List.replicate k 0 ++ data := by
  have hdrop : a.drop (a.length + k + data.length) = [] :=
    List.drop_eq_nil_of_le (by omega)
  have htake : a.take (a.length + k) = a := List.take_of_length_le (by omega)
  have hhole : a.length + k - a.length = k := by omega
  rw [writeAt, if_neg hdata, hdrop, htake, hhole, List.append_nil]

theorem writeAt_end (a data : Bytes) : writeAt a a.length data = a ++ data := by
  by_cases hdata : data = []
  · rw [hdata, writeAt_nil, List.append_nil]
  · have hpast := writeAt_past_end a 0 hdata
    rwa [Nat.add_zero, List.replicate_zero, List.append_nil] at hpast

theorem length_writeAt (h : off + data.length ≤ bs.length) :
    (writeAt bs off data).length = bs.length := by
  rw [writeAt]
  split_ifs with hdata
  · rfl
  · simp only [List.length_append, List.length_take, List.length_replicate, List.length_drop]
    omega

theorem length_writeAt_eq_max (h : data ≠ []) :
    (writeAt bs off data).length = max bs.length (off + data.length) := by
  rw [writeAt, if_neg h]
  simp only [List.length_append, List.length_take, List.length_replicate, List.length_drop]
  omega

/-- A write inside changes the bytes it covers and no others. -/
theorem getElem?_writeAt (h : off + data.length ≤ bs.length) (i : Nat) :
    (writeAt bs off data)[i]? =
      if off ≤ i ∧ i < off + data.length then data[i - off]? else bs[i]? := by
  obtain ⟨m, hm⟩ : ∃ m, bs = bs.take off ++ m ++ bs.drop (off + data.length) ∧
      data.length = m.length := by
    refine ⟨slice bs off data.length, ?_, (length_slice h).symm⟩
    rw [slice, ← List.take_add, List.take_append_drop]
  have hoff : (bs.take off).length = off := List.length_take_of_le (by omega)
  have hwrite := writeAt_append_middle (bs.take off) m (bs.drop (off + data.length)) data hm.2
  rw [← hm.1, hoff] at hwrite
  rw [hwrite]
  grind

theorem getElem?_slice (bs : Bytes) (off len i : Nat) :
    (slice bs off len)[i]? = if i < len then bs[off + i]? else none := by
  rw [slice, List.getElem?_take, List.getElem?_drop]

theorem slice_writeAt_of_disjoint {o : Nat} (h : off + data.length ≤ bs.length)
    (hdisjoint : o + n ≤ off ∨ off + data.length ≤ o) :
    slice (writeAt bs off data) o n = slice bs o n := by
  apply List.ext_getElem?
  intro i
  rw [getElem?_slice, getElem?_slice]
  split_ifs with hi
  · rw [getElem?_writeAt h, if_neg (by omega)]
  · rfl

theorem slice_writeAt_self (h : off + data.length ≤ bs.length) :
    slice (writeAt bs off data) off data.length = data := by
  apply List.ext_getElem?
  intro i
  rw [getElem?_slice]
  split_ifs with hi
  · rw [getElem?_writeAt h, if_pos (by omega), Nat.add_sub_cancel_left]
  · rw [List.getElem?_eq_none (by omega)]

/-- Two writes, the second right behind the first, are one. -/
theorem writeAt_writeAt_append {b : Bytes} (h : off + (a ++ b).length ≤ bs.length) :
    writeAt (writeAt bs off a) (off + a.length) b = writeAt bs off (a ++ b) := by
  rw [List.length_append] at h
  have ha : off + a.length ≤ bs.length := by omega
  have hb : off + a.length + b.length ≤ (writeAt bs off a).length := by
    rw [length_writeAt ha]
    omega
  apply List.ext_getElem?
  intro i
  rw [getElem?_writeAt hb, getElem?_writeAt ha,
    getElem?_writeAt (by rw [List.length_append]; omega), List.length_append]
  -- an index lies in the second write, in the first, or outside of both
  split_ifs
  · rw [List.getElem?_append_right (by omega), Nat.sub_sub]
  · omega
  · rw [List.getElem?_append_left (by omega)]
  all_goals first | omega | rfl

/-! ## Numbers in memory -/

section Field

variable {bs : Bytes} {off k n : Nat}

theorem length_writeAt_leBytes (h : off + k ≤ bs.length) :
    (writeAt bs off (leBytes k n)).length = bs.length :=
  length_writeAt (by rwa [length_leBytes])

theorem slice_writeAt_leBytes (h : off + k ≤ bs.length) :
    slice (writeAt bs off (leBytes k n)) off k = leBytes k n := by
  have hself : slice (writeAt bs off (leBytes k n)) off (leBytes k n).length = leBytes k n :=
    slice_writeAt_self (by rwa [length_leBytes])
  rwa [length_leBytes] at hself

theorem slice_writeAt_leBytes_of_disjoint {o m : Nat} (h : off + k ≤ bs.length)
    (hdisjoint : o + m ≤ off ∨ off + k ≤ o) :
    slice (writeAt bs off (leBytes k n)) o m = slice bs o m := by
  apply slice_writeAt_of_disjoint
  · rwa [length_leBytes]
  · rwa [length_leBytes]

/-- A number read one byte too early. -/
theorem leNat_slice_shifted (bs : Bytes) (off k : Nat) (h : off + 1 + k ≤ bs.length) (hk : 0 < k)
    (hlt : leNat (slice bs (off + 1) k) < 256 ^ (k - 1)) :
    256 * leNat (slice bs (off + 1) k) ≤ leNat (slice bs off k) ∧
      leNat (slice bs off k) < 256 * leNat (slice bs (off + 1) k) + 256 := by
  obtain ⟨m, rfl⟩ : ∃ m, k = m + 1 := ⟨k - 1, by omega⟩
  -- the two numbers share all bytes but the first and the last
  have hearly := slice_add bs off 1 m
  have hlate := slice_add bs (off + 1) m 1
  rw [Nat.add_comm 1 m] at hearly
  have hfirst := leNat_lt (slice bs off 1)
  rw [length_slice (by omega)] at hfirst
  have hval : leNat (slice bs (off + 1) (m + 1)) =
      leNat (slice bs (off + 1) m) + 256 ^ m * leNat (slice bs (off + 1 + m) 1) := by
    rw [hlate, leNat_append, length_slice (by omega)]
  have hzero : leNat (slice bs (off + 1 + m) 1) = 0 := by
    by_contra hne
    have hpos : 1 ≤ leNat (slice bs (off + 1 + m) 1) := Nat.pos_of_ne_zero hne
    have hbig := Nat.mul_le_mul_left (256 ^ m) hpos
    rw [Nat.add_sub_cancel, hval] at hlt
    omega
  rw [hzero, Nat.mul_zero, Nat.add_zero] at hval
  rw [hearly, leNat_append, length_slice (by omega), hval]
  omega

end Field

/-! ## The fields of a struct -/

/-- A number in a struct: where it begins, its width and its value. -/
structure Field where
  off : Nat
  width : Nat
  value : Nat

/-- The two fields do not overlap. -/
def Field.Apart (f g : Field) : Prop := f.off + f.width ≤ g.off ∨ g.off + g.width ≤ f.off

/-- Fields that are written one after the other. -/
def writeFields (bs : Bytes) (fields : List Field) : Bytes :=
  fields.foldl (fun bs f => writeAt bs f.off (leBytes f.width f.value)) bs

section Fields

variable {bs : Bytes} {fields : List Field}

theorem length_writeFields (h : ∀ f ∈ fields, f.off + f.width ≤ bs.length) :
    (writeFields bs fields).length = bs.length := by
  induction fields generalizing bs with
  | nil => rfl
  | cons f fields ih =>
    obtain ⟨hf, hfields⟩ := List.forall_mem_cons.1 h
    have hlength : (writeAt bs f.off (leBytes f.width f.value)).length = bs.length :=
      length_writeAt_leBytes hf
    refine (ih ?_).trans hlength
    rwa [hlength]

theorem slice_writeFields_of_disjoint {o m : Nat} (h : ∀ f ∈ fields, f.off + f.width ≤ bs.length)
    (hdisjoint : ∀ f ∈ fields, o + m ≤ f.off ∨ f.off + f.width ≤ o) :
    slice (writeFields bs fields) o m = slice bs o m := by
  induction fields generalizing bs with
  | nil => rfl
  | cons f fields ih =>
    obtain ⟨hf, hfields⟩ := List.forall_mem_cons.1 h
    obtain ⟨hf', hfields'⟩ := List.forall_mem_cons.1 hdisjoint
    refine (ih ?_ hfields').trans (slice_writeAt_leBytes_of_disjoint hf hf')
    rwa [length_writeAt_leBytes hf]

theorem slice_writeFields (h : ∀ f ∈ fields, f.off + f.width ≤ bs.length)
    (hapart : fields.Pairwise Field.Apart) {f : Field} (hmem : f ∈ fields) :
    slice (writeFields bs fields) f.off f.width = leBytes f.width f.value := by
  induction fields generalizing bs with
  | nil => cases hmem
  | cons g fields ih =>
    obtain ⟨hg, hfields⟩ := List.forall_mem_cons.1 h
    obtain ⟨hgapart, hapart⟩ := List.pairwise_cons.1 hapart
    have hfields' : ∀ f ∈ fields, f.off + f.width ≤
        (writeAt bs g.off (leBytes g.width g.value)).length := by
      rwa [length_writeAt_leBytes hg]
    rcases List.mem_cons.1 hmem with rfl | hmem
    · exact (slice_writeFields_of_disjoint hfields' hgapart).trans (slice_writeAt_leBytes hg)
    · exact ih hfields' hapart hmem

theorem leNat_writeFields (h : ∀ f ∈ fields, f.off + f.width ≤ bs.length)
    (hapart : fields.Pairwise Field.Apart) {off width value : Nat}
    (hmem : ⟨off, width, value⟩ ∈ fields) :
    leNat (slice (writeFields bs fields) off width) = value % 256 ^ width := by
  rw [slice_writeFields h hapart hmem]
  exact leNat_leBytes width value

end Fields

end Ava.Lib
