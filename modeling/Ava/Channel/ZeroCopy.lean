import Ava.Lib.Span

/-!
# Allocation in the zero-copy region

A zero-copy region is memory that the guest and the worker both map, each at its own base address.
`ava_zcopy_region_alloc` moves a pointer up through the region, and nothing is freed. Addresses are
sent as offsets from the base, plus a page so that no address becomes `NULL` (`common/zcopy.c`).

The end of a new allocation is compared with the end of the region as a pointer, that is modulo
2^64. An allocation whose end wraps is granted, and it moves the pointer back.
`zcopy_never_collides_iff` says that this is the only way to get allocations that collide.

All regions of the source have `VGPU_ZERO_COPY_SIZE` bytes; here the size is any number.
-/

set_option autoImplicit false

namespace Ava.Channel

open Ava.Lib

/-! ## The model -/

inductive ZcopyErrno where
  | enomem
  | efault
deriving DecidableEq, Repr

def ENCODED_PTR_OFFSET : UInt64 := 4096

/-- `struct ava_zcopy_region`. -/
structure ZcopyRegion where
  base : UInt64
  size : UInt64
  allocationPtr : UInt64
deriving DecidableEq, Repr

namespace ZcopyRegion

/-- `ava_zcopy_region_alloc`: the pointer with what is assigned to `errno`, and the region. -/
def alloc (r : ZcopyRegion) (size : UInt64) : (UInt64 × Option ZcopyErrno) × ZcopyRegion :=
  if r.base ≠ 0 ∧ r.allocationPtr + size < r.base + r.size then
    ((r.allocationPtr, none), { r with allocationPtr := r.allocationPtr + size })
  else ((0, some .enomem), r)

/-- `ava_zcopy_region_encode_position_independent`. -/
def encodePositionIndependent (r : ZcopyRegion) (ptr : UInt64) : UInt64 × Option ZcopyErrno :=
  if ptr = 0 then (0, none)
  else if r.base = 0 ∨ ptr < r.base ∨ ptr > r.base + r.size then (0, some .efault)
  else (ptr - r.base + ENCODED_PTR_OFFSET, none)

/-- `ava_zcopy_region_decode_position_independent`. -/
def decodePositionIndependent (r : ZcopyRegion) (ptr : UInt64) : UInt64 × Option ZcopyErrno :=
  if ptr = 0 then (0, none)
  else if r.base = 0 ∨ ptr < ENCODED_PTR_OFFSET ∨ ptr > ENCODED_PTR_OFFSET + r.size then
    (0, some .efault)
  else (r.base + ptr - ENCODED_PTR_OFFSET, none)

end ZcopyRegion

/-- What `mmap` has returned for a region. The end of the region does not wrap. -/
structure ZcopyMapping where
  base : UInt64
  size : UInt64
  base_pos : 0 < base.toNat
  fits : base.toNat + size.toNat < 2 ^ 64

namespace ZcopyMapping

/-- The region as `ava_zcopy_region_new_guest` and `ava_zcopy_region_new_worker` leave it. -/
def region (m : ZcopyMapping) : ZcopyRegion := ⟨m.base, m.size, m.base⟩

def span (m : ZcopyMapping) : Span := ⟨m.base.toNat, m.size.toNat⟩

end ZcopyMapping

/-! ## Sequences of calls -/

/-- A call of `ava_zcopy_region_alloc`: the allocation pointer before it, the size, what is
returned, and the allocation pointer after it. -/
structure ZcopyCall where
  before : UInt64
  size : UInt64
  ret : UInt64
  after : UInt64
deriving DecidableEq, Repr

namespace ZcopyCall

/-- The call has not returned `NULL`. -/
def Succeeds (c : ZcopyCall) : Prop := c.ret ≠ 0

instance (c : ZcopyCall) : Decidable c.Succeeds := inferInstanceAs (Decidable (_ ≠ _))

/-- The bytes that the caller may use. -/
def span (c : ZcopyCall) : Span := ⟨c.ret.toNat, c.size.toNat⟩

end ZcopyCall

namespace ZcopyRegion

def call (r : ZcopyRegion) (size : UInt64) : ZcopyCall :=
  ⟨r.allocationPtr, size, (r.alloc size).1.1, (r.alloc size).2.allocationPtr⟩

/-- The calls for a sequence of sizes. -/
def calls : ZcopyRegion → List UInt64 → List ZcopyCall
  | _, [] => []
  | r, size :: sizes => r.call size :: (r.alloc size).2.calls sizes

/-- No call asks for more bytes than there are addresses above the allocation pointer. -/
def NeverWraps (r : ZcopyRegion) (sizes : List UInt64) : Prop :=
  ∀ c ∈ r.calls sizes, c.before.toNat + c.size.toNat < 2 ^ 64

end ZcopyRegion

namespace ZcopyMapping

/-- An address is encoded to a value that is not `NULL` and that every mapping of the same size
decodes to the address with the same offset. -/
def Translates (m : ZcopyMapping) (ptr : UInt64) : Prop :=
  (m.region.encodePositionIndependent ptr).1 ≠ 0 ∧
    ∀ m' : ZcopyMapping, m'.size = m.size →
      (m'.region.decodePositionIndependent (m.region.encodePositionIndependent ptr).1).1 =
        m'.base + (ptr - m.base)

/-- The allocations of a sequence of calls do not collide, and their addresses can be sent. -/
structure NeverCollides (m : ZcopyMapping) (sizes : List UInt64) : Prop where
  apart : ((m.region.calls sizes).filter fun c => decide c.Succeeds).Pairwise
    fun c d => c.span.Apart d.span
  inside : ∀ c ∈ m.region.calls sizes, c.Succeeds → c.span.Within m.span
  unchanged : ∀ c ∈ m.region.calls sizes, ¬ c.Succeeds → c.after = c.before
  translates : ∀ c ∈ m.region.calls sizes, c.Succeeds →
    ∀ ptr : UInt64, ptr.toNat ∈ c.span → m.Translates ptr

/-- Offsets from the base leave room for the page that is added to them, or the region is so large
that they do not, and no byte of it is ever given out. -/
def LeavesPage (m : ZcopyMapping) (sizes : List UInt64) : Prop :=
  m.size.toNat + ENCODED_PTR_OFFSET.toNat < 2 ^ 64 ∨ ∀ n ∈ sizes, n = 0 ∨ m.size ≤ n

end ZcopyMapping

/-! ## One call -/

/-- The allocation pointer of a region of the mapping is in the mapping. -/
structure ZcopyRegion.Advances (m : ZcopyMapping) (r : ZcopyRegion) : Prop where
  base : r.base = m.base
  size : r.size = m.size
  low : m.base.toNat ≤ r.allocationPtr.toNat
  high : r.allocationPtr.toNat ≤ m.base.toNat + m.size.toNat

section Call

variable {m : ZcopyMapping} {r : ZcopyRegion} {n : UInt64}

theorem ZcopyMapping.advances (m : ZcopyMapping) : m.region.Advances m :=
  ⟨rfl, rfl, Nat.le_refl _, Nat.le_add_right _ _⟩

theorem ZcopyMapping.toNat_end (m : ZcopyMapping) :
    (m.base + m.size).toNat = m.base.toNat + m.size.toNat := by
  rw [UInt64.toNat_add, Nat.mod_eq_of_lt m.fits]

/-- What `ava_zcopy_region_alloc` does: it grants what ends inside the region and what wraps. -/
theorem ZcopyRegion.Advances.alloc_cases (h : r.Advances m) (n : UInt64) :
    (2 ^ 64 ≤ r.allocationPtr.toNat + n.toNat ∧ (r.call n).Succeeds ∧
      (r.call n).ret = r.allocationPtr) ∨
    (r.allocationPtr.toNat + n.toNat < m.base.toNat + m.size.toNat ∧
      r.alloc n = ((r.allocationPtr, none), ⟨m.base, m.size, r.allocationPtr + n⟩) ∧
      (r.allocationPtr + n).toNat = r.allocationPtr.toNat + n.toNat) ∨
    (m.base.toNat + m.size.toNat ≤ r.allocationPtr.toNat + n.toNat ∧
      r.allocationPtr.toNat + n.toNat < 2 ^ 64 ∧ r.alloc n = ((0, some .enomem), r)) := by
  have hfits := m.fits
  have hlow := h.low
  have hhigh := h.high
  have hpos := m.base_pos
  have hn := n.toNat_lt
  have hbase : m.base ≠ 0 := by
    intro h0
    rw [h0] at hpos
    exact absurd hpos (by decide)
  have hend : r.base + r.size = m.base + m.size := by rw [h.base, h.size]
  by_cases hwrap : 2 ^ 64 ≤ r.allocationPtr.toNat + n.toNat
  · -- the sum is smaller than the allocation pointer
    have hlt : r.allocationPtr + n < r.base + r.size := by
      rw [hend, UInt64.lt_iff_toNat_lt, m.toNat_end, UInt64.toNat_add]
      omega
    have hret : (r.call n).ret = r.allocationPtr := by
      rw [ZcopyRegion.call, ZcopyRegion.alloc, if_pos ⟨h.base ▸ hbase, hlt⟩]
    refine .inl ⟨hwrap, ?_, hret⟩
    rw [ZcopyCall.Succeeds, hret]
    intro h0
    rw [h0] at hlow
    exact absurd (Nat.lt_of_lt_of_le hpos hlow) (by decide)
  · have hsum : (r.allocationPtr + n).toNat = r.allocationPtr.toNat + n.toNat := by
      rw [UInt64.toNat_add, Nat.mod_eq_of_lt (by omega)]
    by_cases hlt : r.allocationPtr.toNat + n.toNat < m.base.toNat + m.size.toNat
    · refine .inr (.inl ⟨hlt, ?_, hsum⟩)
      have hcond : r.allocationPtr + n < r.base + r.size := by
        rw [hend, UInt64.lt_iff_toNat_lt, m.toNat_end, hsum]
        exact hlt
      rw [ZcopyRegion.alloc, if_pos ⟨h.base ▸ hbase, hcond⟩, h.base, h.size]
    · refine .inr (.inr ⟨by omega, by omega, ?_⟩)
      rw [ZcopyRegion.alloc, if_neg]
      rintro ⟨-, hcond⟩
      rw [hend, UInt64.lt_iff_toNat_lt, m.toNat_end, hsum] at hcond
      exact hlt hcond

/-- A call that does not wrap leaves the allocation pointer in the mapping. -/
theorem ZcopyRegion.Advances.alloc (h : r.Advances m)
    (hwrap : r.allocationPtr.toNat + n.toNat < 2 ^ 64) : (r.alloc n).2.Advances m := by
  rcases h.alloc_cases n with ⟨hle, -⟩ | ⟨hlt, halloc, hsum⟩ | ⟨-, -, halloc⟩
  · omega
  · rw [halloc]
    refine ⟨rfl, rfl, ?_, ?_⟩
    · rw [hsum]
      exact h.low.trans (Nat.le_add_right _ _)
    · rw [hsum]
      exact hlt.le
  · rwa [halloc]

/-- A call that does not wrap, and what it has given out. -/
theorem ZcopyRegion.Advances.call (h : r.Advances m)
    (hwrap : r.allocationPtr.toNat + n.toNat < 2 ^ 64) :
    ((r.call n).Succeeds → (r.call n).ret = r.allocationPtr ∧
      (r.call n).after.toNat = r.allocationPtr.toNat + n.toNat ∧
      r.allocationPtr.toNat + n.toNat < m.base.toNat + m.size.toNat) ∧
    (¬ (r.call n).Succeeds → (r.call n).after = r.allocationPtr) := by
  rw [ZcopyRegion.call]
  rcases h.alloc_cases n with ⟨hle, -⟩ | ⟨hlt, halloc, hsum⟩ | ⟨-, -, halloc⟩
  · omega
  · rw [halloc]
    refine ⟨fun _ => ⟨rfl, hsum, hlt⟩, fun hfails => ?_⟩
    have hpos := Nat.lt_of_lt_of_le m.base_pos h.low
    refine absurd (fun h0 => ?_) hfails
    rw [show r.allocationPtr = 0 from h0] at hpos
    exact absurd hpos (by decide)
  · rw [halloc]
    exact ⟨fun hsucceeds => absurd rfl hsucceeds, fun _ => rfl⟩

end Call

/-! ## All calls -/

section Calls

variable {m : ZcopyMapping} {r : ZcopyRegion} {sizes : List UInt64}

theorem ZcopyRegion.NeverWraps.head {n : UInt64} (h : r.NeverWraps (n :: sizes)) :
    r.allocationPtr.toNat + n.toNat < 2 ^ 64 := h (r.call n) List.mem_cons_self

theorem ZcopyRegion.NeverWraps.tail {n : UInt64} (h : r.NeverWraps (n :: sizes)) :
    (r.alloc n).2.NeverWraps sizes := fun c hc => h c (List.mem_cons_of_mem _ hc)

theorem size_mem_of_mem_calls {c : ZcopyCall} (hc : c ∈ r.calls sizes) : c.size ∈ sizes := by
  induction sizes generalizing r with
  | nil => cases hc
  | cons n sizes ih =>
    rcases List.mem_cons.1 hc with rfl | hc
    · exact List.mem_cons_self
    · exact List.mem_cons_of_mem n (ih hc)

/-- A call whose bytes are inside the region has not wrapped, so that neither do the calls of a
sequence all of whose bytes are. -/
theorem ZcopyRegion.Advances.neverWraps (h : r.Advances m)
    (hinside : ∀ c ∈ r.calls sizes, c.Succeeds → c.span.Within m.span) : r.NeverWraps sizes := by
  induction sizes generalizing r with
  | nil =>
    intro c hc
    cases hc
  | cons n sizes ih =>
    have hhead : r.allocationPtr.toNat + n.toNat < 2 ^ 64 := by
      rcases h.alloc_cases n with ⟨hle, hsucceeds, hret⟩ | ⟨hlt, -⟩ | ⟨-, hlt, -⟩
      · have hstop := (hinside _ List.mem_cons_self hsucceeds).2
        have hfits := m.fits
        simp only [Span.stop, ZcopyCall.span, hret, ZcopyMapping.span] at hstop
        change r.allocationPtr.toNat + n.toNat ≤ _ at hstop
        omega
      · exact hlt.trans m.fits
      · exact hlt
    intro c hc
    rcases List.mem_cons.1 hc with rfl | hc
    · exact hhead
    · exact ih (h.alloc hhead) (fun d hd => hinside d (List.mem_cons_of_mem _ hd)) c hc

/-- What calls that do not wrap give out is in the rest of the region. -/
theorem ZcopyRegion.Advances.succeeds (h : r.Advances m) (hwraps : r.NeverWraps sizes)
    {c : ZcopyCall} (hc : c ∈ r.calls sizes) (hsucceeds : c.Succeeds) :
    r.allocationPtr.toNat ≤ c.ret.toNat ∧
      c.ret.toNat + c.size.toNat < m.base.toNat + m.size.toNat := by
  induction sizes generalizing r with
  | nil => cases hc
  | cons n sizes ih =>
    have hhead := h.call hwraps.head
    rcases List.mem_cons.1 hc with rfl | hc
    · obtain ⟨hret, -, hlt⟩ := hhead.1 hsucceeds
      rw [hret]
      exact ⟨Nat.le_refl _, hlt⟩
    · obtain ⟨hle, hlt⟩ := ih (h.alloc hwraps.head) hwraps.tail hc
      refine ⟨?_, hlt⟩
      -- the pointer has moved up, or it is where it was
      have hafter : r.allocationPtr.toNat ≤ (r.call n).after.toNat := by
        by_cases hs : (r.call n).Succeeds
        · rw [(hhead.1 hs).2.1]
          exact Nat.le_add_right _ _
        · exact (congrArg UInt64.toNat (hhead.2 hs)).ge
      exact hafter.trans hle

theorem ZcopyRegion.Advances.fails (h : r.Advances m) (hwraps : r.NeverWraps sizes)
    {c : ZcopyCall} (hc : c ∈ r.calls sizes) (hfails : ¬ c.Succeeds) : c.after = c.before := by
  induction sizes generalizing r with
  | nil => cases hc
  | cons n sizes ih =>
    rcases List.mem_cons.1 hc with rfl | hc
    · exact (h.call hwraps.head).2 hfails
    · exact ih (h.alloc hwraps.head) hwraps.tail hc

theorem ZcopyRegion.Advances.apart (h : r.Advances m) (hwraps : r.NeverWraps sizes) :
    ((r.calls sizes).filter fun c => decide c.Succeeds).Pairwise
      fun c d => c.span.Apart d.span := by
  induction sizes generalizing r with
  | nil => exact List.Pairwise.nil
  | cons n sizes ih =>
    have hrest := ih (h.alloc hwraps.head) hwraps.tail
    rw [ZcopyRegion.calls, List.filter_cons]
    split_ifs with hs
    · obtain ⟨hret, hafter, -⟩ := (h.call hwraps.head).1 (of_decide_eq_true hs)
      refine List.pairwise_cons.2 ⟨fun d hd => ?_, hrest⟩
      obtain ⟨hd, hdsucceeds⟩ := List.mem_filter.1 hd
      have hle := ((h.alloc hwraps.head).succeeds hwraps.tail hd
        (of_decide_eq_true hdsucceeds)).1
      apply Span.apart_of_stop_le
      rw [Span.stop, ZcopyCall.span, hret]
      exact hafter.symm.trans_le hle
    · exact hrest

end Calls

/-! ## Addresses between mappings -/

section Translate

variable {m : ZcopyMapping} {ptr : UInt64} {sizes : List UInt64}

theorem ZcopyMapping.base_ne (m : ZcopyMapping) : m.base ≠ 0 := by
  intro h0
  have hpos := m.base_pos
  rw [h0] at hpos
  exact absurd hpos (by decide)

theorem encode_of_mem (h : ptr.toNat ∈ m.span) :
    m.region.encodePositionIndependent ptr = (ptr - m.base + ENCODED_PTR_OFFSET, none) ∧
      (ptr - m.base).toNat < m.size.toNat := by
  obtain ⟨hlow, hhigh⟩ := Span.mem_iff.1 h
  simp only [ZcopyMapping.span] at hlow hhigh
  have hptr : ptr ≠ 0 := by
    intro h0
    rw [h0] at hlow
    exact absurd (Nat.lt_of_lt_of_le m.base_pos hlow) (by decide)
  have hinside : ¬ (m.base = 0 ∨ ptr < m.base ∨ ptr > m.base + m.size) := by
    rintro (h0 | hlt | hgt)
    · exact m.base_ne h0
    · rw [UInt64.lt_iff_toNat_lt] at hlt
      omega
    · rw [gt_iff_lt, UInt64.lt_iff_toNat_lt, m.toNat_end] at hgt
      omega
  constructor
  · rw [ZcopyRegion.encodePositionIndependent, if_neg hptr]
    exact if_neg hinside
  · rw [UInt64.toNat_sub_of_le _ _ (UInt64.le_iff_toNat_le.2 hlow)]
    omega

/-- An address of the region can be sent if the page that is added leaves room for all of them. -/
theorem translates_iff (h : ptr.toNat ∈ m.span) :
    m.Translates ptr ↔ m.size.toNat + ENCODED_PTR_OFFSET.toNat < 2 ^ 64 := by
  obtain ⟨hencode, hoffset⟩ := encode_of_mem h
  have hpage : ENCODED_PTR_OFFSET.toNat = 4096 := rfl
  have hsize := m.size.toNat_lt
  rw [ZcopyMapping.Translates, hencode]
  constructor
  · rintro ⟨hne, hdecode⟩
    by_contra hlarge
    -- the largest code of the region wraps to less than a page
    have hefault : ptr - m.base + ENCODED_PTR_OFFSET < ENCODED_PTR_OFFSET ∨
        ptr - m.base + ENCODED_PTR_OFFSET > ENCODED_PTR_OFFSET + m.size := by
      by_contra hnot
      rw [not_or, gt_iff_lt, UInt64.lt_iff_toNat_lt, UInt64.lt_iff_toNat_lt,
        UInt64.toNat_add ENCODED_PTR_OFFSET] at hnot
      omega
    have hzero : m.base + (ptr - m.base) = 0 := by
      rw [← hdecode m rfl, ZcopyRegion.decodePositionIndependent, if_neg hne]
      exact congrArg Prod.fst (if_pos (.inr hefault))
    have hptr : ptr = 0 := by rw [← hzero, UInt64.add_comm, UInt64.sub_add_cancel]
    rw [hptr] at h
    exact absurd (Nat.lt_of_lt_of_le m.base_pos (Span.mem_iff.1 h).1) (by decide)
  · intro hfits
    have hcode : (ptr - m.base + ENCODED_PTR_OFFSET).toNat =
        (ptr - m.base).toNat + ENCODED_PTR_OFFSET.toNat := by
      rw [UInt64.toNat_add, Nat.mod_eq_of_lt (by omega)]
    have hne : ptr - m.base + ENCODED_PTR_OFFSET ≠ 0 := by
      intro h0
      rw [h0] at hcode
      change 0 = _ at hcode
      omega
    refine ⟨hne, fun m' hm' => ?_⟩
    have hinside : ¬ (m'.base = 0 ∨ ptr - m.base + ENCODED_PTR_OFFSET < ENCODED_PTR_OFFSET ∨
        ptr - m.base + ENCODED_PTR_OFFSET > ENCODED_PTR_OFFSET + m'.size) := by
      rintro (h0 | hlt | hgt)
      · exact m'.base_ne h0
      · rw [UInt64.lt_iff_toNat_lt] at hlt
        omega
      · rw [gt_iff_lt, UInt64.lt_iff_toNat_lt, hm', UInt64.toNat_add ENCODED_PTR_OFFSET,
          Nat.mod_eq_of_lt (by omega)] at hgt
        omega
    rw [ZcopyRegion.decodePositionIndependent, if_neg hne]
    refine (congrArg Prod.fst (if_neg hinside)).trans ?_
    change m'.base + (ptr - m.base + ENCODED_PTR_OFFSET) - ENCODED_PTR_OFFSET = _
    rw [← UInt64.add_assoc, UInt64.add_sub_cancel]

/-- In a region that is too large, the first byte that is given out cannot be sent. -/
theorem emptySize_of_translates {n : UInt64}
    (hlarge : 2 ^ 64 ≤ m.size.toNat + ENCODED_PTR_OFFSET.toNat)
    (hwraps : m.base.toNat + n.toNat < 2 ^ 64)
    (h : (m.region.call n).Succeeds →
      ∀ ptr : UInt64, ptr.toNat ∈ (m.region.call n).span → m.Translates ptr) :
    n = 0 ∨ m.size ≤ n := by
  by_contra hnot
  obtain ⟨hn0, hlt⟩ := not_or.1 hnot
  rw [UInt64.not_le, UInt64.lt_iff_toNat_lt] at hlt
  have hpos : 0 < n.toNat := Nat.pos_of_ne_zero fun h0 => hn0 (UInt64.toNat_inj.1 h0)
  rcases m.advances.alloc_cases n with ⟨hle, -⟩ | ⟨-, halloc, -⟩ | ⟨hle, -⟩
  · exact absurd hwraps (Nat.not_lt.2 hle)
  · have hret : (m.region.call n).ret = m.base := by
      rw [ZcopyRegion.call, halloc]
      rfl
    have hmem : m.base.toNat ∈ (m.region.call n).span := by
      rw [Span.mem_iff, ZcopyCall.span, hret]
      exact ⟨Nat.le_refl _, Nat.lt_add_of_pos_right hpos⟩
    have hsucceeds : (m.region.call n).Succeeds := by
      rw [ZcopyCall.Succeeds, hret]
      exact m.base_ne
    have hbase : m.base.toNat ∈ m.span :=
      Span.mem_iff.2 ⟨Nat.le_refl _, Nat.lt_add_of_pos_right (hpos.trans hlt)⟩
    exact absurd ((translates_iff hbase).1 (h hsucceeds m.base hmem)) (Nat.not_lt.2 hlarge)
  · have hle : m.base.toNat + m.size.toNat ≤ m.base.toNat + n.toNat := hle
    omega

/-- An allocation of nothing, or of too much, does not move the allocation pointer. -/
theorem alloc_of_emptySize {n : UInt64} (hwraps : m.base.toNat + n.toNat < 2 ^ 64)
    (hn : n = 0 ∨ m.size ≤ n) : (m.region.alloc n).2 = m.region := by
  rcases m.advances.alloc_cases n with ⟨hle, -⟩ | ⟨hlt, halloc, -⟩ | ⟨-, -, halloc⟩
  · exact absurd hwraps (Nat.not_lt.2 hle)
  · rcases hn with rfl | hle
    · rw [halloc]
      change ZcopyRegion.mk m.base m.size (m.base + 0) = _
      rw [UInt64.add_zero]
      rfl
    · have hlt : m.base.toNat + n.toNat < m.base.toNat + m.size.toNat := hlt
      rw [UInt64.le_iff_toNat_le] at hle
      omega
  · rw [halloc]

/-- In a region that is too large, no byte is given out. -/
theorem emptySizes_of_translates (hlarge : 2 ^ 64 ≤ m.size.toNat + ENCODED_PTR_OFFSET.toNat)
    (hwraps : m.region.NeverWraps sizes)
    (h : ∀ c ∈ m.region.calls sizes, c.Succeeds →
      ∀ ptr : UInt64, ptr.toNat ∈ c.span → m.Translates ptr) :
    ∀ n ∈ sizes, n = 0 ∨ m.size ≤ n := by
  induction sizes with
  | nil =>
    intro n hn
    cases hn
  | cons n sizes ih =>
    have hhead := emptySize_of_translates hlarge hwraps.head (h _ List.mem_cons_self)
    have hsame := alloc_of_emptySize hwraps.head hhead
    have htail := hwraps.tail
    rw [hsame] at htail
    have hrest := ih htail fun c hc => h c (by
      rw [ZcopyRegion.calls, hsame]
      exact List.mem_cons_of_mem _ hc)
    intro k hk
    rcases List.mem_cons.1 hk with rfl | hk
    · exact hhead
    · exact hrest k hk

end Translate

/-! ## Allocations that never collide -/

/-- The allocations of a sequence of calls are apart and inside the region, failed calls change
nothing, and all addresses can be sent, if and only if no call wraps. -/
theorem zcopy_never_collides_iff (m : ZcopyMapping) (sizes : List UInt64) :
    m.NeverCollides sizes ↔ m.region.NeverWraps sizes ∧ m.LeavesPage sizes := by
  constructor
  · intro h
    have hwraps := m.advances.neverWraps h.inside
    refine ⟨hwraps, ?_⟩
    by_cases hlarge : m.size.toNat + ENCODED_PTR_OFFSET.toNat < 2 ^ 64
    · exact .inl hlarge
    · exact .inr (emptySizes_of_translates (Nat.not_lt.1 hlarge) hwraps h.translates)
  · rintro ⟨hwraps, hpage⟩
    refine ⟨m.advances.apart hwraps, fun c hc hs => ?_, fun c hc => m.advances.fails hwraps hc,
      fun c hc hs ptr hptr => ?_⟩
    · obtain ⟨hle, hlt⟩ := m.advances.succeeds hwraps hc hs
      exact ⟨hle, hlt.le⟩
    · obtain ⟨hle, hlt⟩ := m.advances.succeeds hwraps hc hs
      have hle : m.base.toNat ≤ c.ret.toNat := hle
      simp only [Span.mem_iff, ZcopyCall.span] at hptr
      have hspan : ptr.toNat ∈ m.span := by
        simp only [Span.mem_iff, ZcopyMapping.span]
        omega
      rw [translates_iff hspan]
      refine hpage.resolve_right fun hempty => ?_
      -- an allocation with a byte is smaller than the region
      rcases hempty _ (size_mem_of_mem_calls hc) with h0 | hsize
      · rw [h0] at hptr
        exact absurd hptr.2 (Nat.not_lt.2 hptr.1)
      · rw [UInt64.le_iff_toNat_le] at hsize
        omega

/-- A region of 16 MB at address 2^30. -/
def smallMapping : ZcopyMapping := ⟨1073741824, 16777216, by decide, by decide⟩

/-- A page, then as many bytes as are needed to come back to the base, then a page again: the first
and the last allocation are the same page. -/
theorem zcopy_collides :
    ∃ c d : ZcopyCall, (smallMapping.region.calls [4096, 18446744073709547520, 4096])[0]? = some c ∧
      (smallMapping.region.calls [4096, 18446744073709547520, 4096])[2]? = some d ∧
      c.Succeeds ∧ d.Succeeds ∧ c.span = d.span ∧
      ¬ smallMapping.NeverCollides [4096, 18446744073709547520, 4096] := by
  refine ⟨_, _, rfl, rfl, by decide, by decide, by decide, fun h => ?_⟩
  have hinside := h.inside _ (List.mem_cons_of_mem _ List.mem_cons_self) (by decide)
  exact absurd hinside (by decide)

end Ava.Channel
