import Ava.Channel.SharedMemory

/-!
# The two halves of the parameter block

The guest library takes its data regions from the first half of the block that it shares with the
worker, and the worker takes them from the second half. Each end has an offset that moves up through
its half and starts again at the begin of the half when a region would get to the end.

`reserve_param_block` is documented to report that there is not enough space, but it has no way to
do so: a region that is larger than the half begins in the half and ends outside of it. The sum that
is compared with the end of the half can also overflow. `reservations_inside_iff` says that these
are the only ways out of the half. `later_region_disjoint` says for how long a region is safe from
the regions that the same end reserves later.
-/

set_option autoImplicit false

namespace Ava.Channel

open Ava.Lib

/-! ## Halves and regions -/

/-- The first offset of the half of one end. -/
def ShmChannel.low (chan : ShmChannel) : Nat :=
  match chan.side with
  | .guest => 0
  | .worker => chan.size / 2

/-- The offset behind the half of one end. -/
def ShmChannel.high (chan : ShmChannel) : Nat :=
  match chan.side with
  | .guest => chan.size / 2
  | .worker => chan.size

/-- The number of bytes in the half of one end. -/
def ShmChannel.halfWidth (chan : ShmChannel) : Nat := chan.high - chan.low

/-- The bytes from an offset on. -/
structure Region where
  offset : Nat
  size : Nat
deriving DecidableEq, Repr

/-- The whole region is in the half of the end. -/
def Region.InHalf (chan : ShmChannel) (r : Region) : Prop :=
  chan.low ≤ r.offset ∧ r.offset + r.size ≤ chan.high

instance (chan : ShmChannel) (r : Region) : Decidable (r.InHalf chan) :=
  inferInstanceAs (Decidable (_ ∧ _))

/-- Two regions have a byte in common. -/
def Region.Overlaps (r s : Region) : Prop :=
  ∃ i, (r.offset ≤ i ∧ i < r.offset + r.size) ∧ (s.offset ≤ i ∧ i < s.offset + s.size)

/-- The region that a reservation returns. -/
def ShmChannel.reserve (chan : ShmChannel) (size : Nat) : Region :=
  ⟨(chan.reserveParamBlock size).1, size⟩

/-- The channel after a reservation. -/
def ShmChannel.advance (chan : ShmChannel) (size : Nat) : ShmChannel :=
  (chan.reserveParamBlock size).2

section Reserve

variable {chan : ShmChannel} {n : Nat}

/-- A sum of two 64-bit numbers that overflows. -/
theorem mod_of_overflow {a : Nat} (h : 2 ^ 64 ≤ a) (ha : a < 2 * 2 ^ 64) :
    a % 2 ^ 64 = a - 2 ^ 64 := by
  rw [Nat.mod_eq_sub_mod h, Nat.mod_eq_of_lt (by omega)]

theorem low_le_high (chan : ShmChannel) : chan.low ≤ chan.high := by
  unfold ShmChannel.low ShmChannel.high
  cases chan.side with
  | guest => exact Nat.zero_le _
  | worker => exact Nat.div_le_self _ _

theorem high_le_size (chan : ShmChannel) : chan.high ≤ chan.size := by
  unfold ShmChannel.high
  cases chan.side with
  | guest => exact Nat.div_le_self _ _
  | worker => exact le_rfl

/-- Both ends reserve alike: from the begin of the half if the sum gets to its end. -/
theorem reserve_offset (chan : ShmChannel) (n : Nat) :
    (chan.reserve n).offset =
      if (chan.curOffset + n) % 2 ^ 64 ≥ chan.high then chan.low else chan.curOffset := by
  rcases chan with ⟨side, vmId, size, offset, cur⟩
  cases side <;> rfl

theorem advance_curOffset (chan : ShmChannel) (n : Nat) :
    (chan.advance n).curOffset = ((chan.reserve n).offset + n) % 2 ^ 64 := rfl

@[simp] theorem low_advance (chan : ShmChannel) (n : Nat) : (chan.advance n).low = chan.low := rfl

@[simp] theorem high_advance (chan : ShmChannel) (n : Nat) :
    (chan.advance n).high = chan.high := rfl

/-- The offset is not in front of the half. -/
def ShmChannel.Placed (chan : ShmChannel) : Prop :=
  chan.low ≤ chan.curOffset ∧ chan.curOffset < 2 ^ 64

/-- A region of `n` bytes fits into the half, and the sum of the offset and `n` does not
overflow. -/
def ShmChannel.Fits (chan : ShmChannel) (n : Nat) : Prop :=
  n ≤ chan.halfWidth ∧ chan.curOffset + n < 2 ^ 64

instance (chan : ShmChannel) (n : Nat) : Decidable (chan.Fits n) :=
  inferInstanceAs (Decidable (_ ∧ _))

theorem inHalf_of_fits (hplaced : chan.Placed) (h : chan.Fits n) :
    (chan.reserve n).InHalf chan := by
  obtain ⟨hlow, -⟩ := hplaced
  obtain ⟨hwidth, hsum⟩ := h
  rw [ShmChannel.halfWidth] at hwidth
  have hhalf := low_le_high chan
  rw [Region.InHalf, reserve_offset, Nat.mod_eq_of_lt hsum]
  change _ ∧ _ + n ≤ _
  split_ifs with hend
  · exact ⟨le_rfl, by omega⟩
  · exact ⟨hlow, by omega⟩

theorem fits_of_inHalf (hsize : chan.size < 2 ^ 64) (hplaced : chan.Placed)
    (h : (chan.reserve n).InHalf chan) : chan.Fits n := by
  obtain ⟨hlow, hlt⟩ := hplaced
  have hhigh := high_le_size chan
  rw [Region.InHalf, reserve_offset] at h
  change _ ∧ _ + n ≤ _ at h
  rw [ShmChannel.Fits, ShmChannel.halfWidth]
  split_ifs at h with hend
  · -- an overflowing sum would be less than `n`, which is at most the end of the half
    refine ⟨by omega, ?_⟩
    by_contra hover
    have hwrap := mod_of_overflow (not_lt.1 hover) (by omega)
    omega
  · exact ⟨by omega, by omega⟩

theorem placed_advance (hsize : chan.size < 2 ^ 64) (h : (chan.reserve n).InHalf chan) :
    (chan.advance n).Placed := by
  have hhigh := high_le_size chan
  have hend : (chan.reserve n).offset + n ≤ chan.high := h.2
  rw [ShmChannel.Placed, low_advance, advance_curOffset, Nat.mod_eq_of_lt (by omega)]
  exact ⟨h.1.trans (Nat.le_add_right _ n), by omega⟩

end Reserve

/-! ## The block between its two ends -/

/-- The parameter block of an application: the channels at the two ends. -/
structure SharedBlock where
  guest : ShmChannel
  worker : ShmChannel
  guest_side : guest.side = .guest
  worker_side : worker.side = .worker
  same_size : guest.size = worker.size
  size_lt : guest.size < 2 ^ 64

/-- The channels that `command_channel_shm_new` and `command_channel_shm_worker_new` set up. The
first one allocates its struct without clearing it and does not set the offset. -/
def SharedBlock.new (vmId : UInt8) (size offset indeterminate : UInt64) : SharedBlock where
  guest := ⟨.guest, vmId, size.toNat, offset.toNat, indeterminate.toNat⟩
  worker := ⟨.worker, vmId, size.toNat, offset.toNat, size.toNat / 2⟩
  guest_side := rfl
  worker_side := rfl
  same_size := rfl
  size_lt := size.toNat_lt

namespace SharedBlock

def channel (b : SharedBlock) : ShmSide → ShmChannel
  | .guest => b.guest
  | .worker => b.worker

/-- One end reserves a region. -/
def advance (b : SharedBlock) (side : ShmSide) (n : Nat) : SharedBlock :=
  match side with
  | .guest => { b with guest := b.guest.advance n }
  | .worker => { b with worker := b.worker.advance n }

/-- The regions that a sequence of requests of the two ends returns. -/
def regions : SharedBlock → List (ShmSide × UInt64) → List (ShmSide × Region)
  | _, [] => []
  | b, (side, n) :: rs =>
    (side, (b.channel side).reserve n.toNat) :: (b.advance side n.toNat).regions rs

/-- Every request fits when it is made. -/
def AllFit : SharedBlock → List (ShmSide × UInt64) → Prop
  | _, [] => True
  | b, (side, n) :: rs => (b.channel side).Fits n.toNat ∧ (b.advance side n.toNat).AllFit rs

/-- Every region is in the half of its end. -/
def AllInHalf (b : SharedBlock) (rs : List (ShmSide × UInt64)) : Prop :=
  ∀ p ∈ b.regions rs, p.2.InHalf (b.channel p.1)

/-- No byte is in a region of the guest and in one of the worker. -/
def Separate (b : SharedBlock) (rs : List (ShmSide × UInt64)) : Prop :=
  ∀ p ∈ b.regions rs, ∀ q ∈ b.regions rs, p.1 = .guest → q.1 = .worker → ¬ p.2.Overlaps q.2

variable {b : SharedBlock}

theorem size_channel_lt (b : SharedBlock) (side : ShmSide) : (b.channel side).size < 2 ^ 64 := by
  cases side with
  | guest => exact b.size_lt
  | worker => exact b.same_size ▸ b.size_lt

/-- A reservation does not move the halves. -/
theorem inHalf_advance (side side' : ShmSide) (n : Nat) (r : Region) :
    r.InHalf ((b.advance side n).channel side') ↔ r.InHalf (b.channel side') := by
  cases side <;> cases side' <;> exact Iff.rfl

/-- Both offsets are where they belong. -/
def Placed (b : SharedBlock) : Prop := ∀ side, (b.channel side).Placed

theorem Placed.advance (h : b.Placed) {side : ShmSide} {n : Nat}
    (hn : ((b.channel side).reserve n).InHalf (b.channel side)) : (b.advance side n).Placed := by
  have hstep := placed_advance (b.size_channel_lt side) hn
  intro side'
  cases side with
  | guest =>
    cases side' with
    | guest => exact hstep
    | worker => exact h .worker
  | worker =>
    cases side' with
    | guest => exact h .guest
    | worker => exact hstep

theorem placed_new (vmId : UInt8) (size offset indeterminate : UInt64) :
    (new vmId size offset indeterminate).Placed := by
  intro side
  cases side with
  | guest => exact ⟨Nat.zero_le _, indeterminate.toNat_lt⟩
  | worker =>
    refine ⟨le_rfl, ?_⟩
    exact (Nat.div_le_self _ _).trans_lt size.toNat_lt

theorem allInHalf_cons_iff (side : ShmSide) (n : UInt64) (rs : List (ShmSide × UInt64)) :
    b.AllInHalf ((side, n) :: rs) ↔
      ((b.channel side).reserve n.toNat).InHalf (b.channel side) ∧
        (b.advance side n.toNat).AllInHalf rs := by
  rw [AllInHalf, regions, List.forall_mem_cons]
  refine and_congr_right fun _ => forall_congr' fun p => imp_congr_right fun _ => ?_
  exact (inHalf_advance side p.1 n.toNat p.2).symm

theorem allInHalf_iff_allFit (h : b.Placed) (rs : List (ShmSide × UInt64)) :
    b.AllInHalf rs ↔ b.AllFit rs := by
  induction rs generalizing b with
  | nil => simp [AllInHalf, AllFit, regions]
  | cons r rs ih =>
    obtain ⟨side, n⟩ := r
    rw [allInHalf_cons_iff, AllFit]
    -- a region inside the half leaves an offset from which the next request is judged
    constructor
    · rintro ⟨hn, hrest⟩
      exact ⟨fits_of_inHalf (b.size_channel_lt side) (h side) hn, (ih (h.advance hn)).1 hrest⟩
    · rintro ⟨hn, hrest⟩
      have hin := inHalf_of_fits (h side) hn
      exact ⟨hin, (ih (h.advance hin)).2 hrest⟩

/-- The halves have no byte in common. -/
theorem AllInHalf.separate {rs : List (ShmSide × UInt64)} (h : b.AllInHalf rs) : b.Separate rs := by
  rintro ⟨-, r⟩ hr ⟨-, s⟩ hs rfl rfl ⟨i, hi, hi'⟩
  have hguest : r.offset + r.size ≤ b.guest.high := (h _ hr).2
  have hworker : b.worker.low ≤ s.offset := (h _ hs).1
  rw [ShmChannel.high, b.guest_side, b.same_size] at hguest
  rw [ShmChannel.low, b.worker_side] at hworker
  exact absurd (hi.2.trans_le (hguest.trans (hworker.trans hi'.1))) (lt_irrefl i)

end SharedBlock

/-- For every size of the block and every sequence of requests of the two ends: all regions are in
the half of their end if and only if every request fits, and then the guest and the worker share no
byte. -/
theorem reservations_inside_iff (vmId : UInt8) (size offset indeterminate : UInt64)
    (rs : List (ShmSide × UInt64)) :
    ((SharedBlock.new vmId size offset indeterminate).AllInHalf rs ↔
      (SharedBlock.new vmId size offset indeterminate).AllFit rs) ∧
    ((SharedBlock.new vmId size offset indeterminate).AllFit rs →
      (SharedBlock.new vmId size offset indeterminate).Separate rs) := by
  have hiff := SharedBlock.allInHalf_iff_allFit
    (SharedBlock.placed_new vmId size offset indeterminate) rs
  exact ⟨hiff, fun hfit => (hiff.2 hfit).separate⟩

/-- In a block of 4096 bytes the guest reserves 3000 and the worker 100: both get an offset, and the
regions overlap. -/
theorem guest_region_in_worker_half :
    let b := SharedBlock.new 1 4096 0 0
    let rs := [(ShmSide.guest, 3000), (ShmSide.worker, 100)]
    b.regions rs = [(.guest, ⟨0, 3000⟩), (.worker, ⟨2048, 100⟩)] ∧ ¬ b.AllInHalf rs ∧
      ¬ b.Separate rs := by
  have hregions : (SharedBlock.new 1 4096 0 0).regions
      [(ShmSide.guest, 3000), (ShmSide.worker, 100)] =
      [(.guest, ⟨0, 3000⟩), (.worker, ⟨2048, 100⟩)] := by decide
  refine ⟨hregions, fun h => ?_, fun h => ?_⟩
  · have hguest := h (.guest, ⟨0, 3000⟩) (by rw [hregions]; exact List.mem_cons_self)
    revert hguest
    decide
  · refine h (.guest, ⟨0, 3000⟩) ?_ (.worker, ⟨2048, 100⟩) ?_ rfl rfl ⟨2048, by decide, by decide⟩
    · rw [hregions]
      exact List.mem_cons_self
    · rw [hregions]
      exact List.mem_cons_of_mem _ List.mem_cons_self

/-! ## Later regions of one end -/

section Later

variable {chan later : ShmChannel} {n m total : Nat}

/-- The channel after some more reservations. -/
def ShmChannel.advanceAll (chan : ShmChannel) (sizes : List Nat) : ShmChannel :=
  sizes.foldl ShmChannel.advance chan

/-- Where the offset is after `total` more bytes: so far behind the region, once around all 64-bit
numbers, or started again at the begin of the half, after the end of the half was in reach. -/
inductive ShmChannel.Moved (chan : ShmChannel) (total : Nat) (later : ShmChannel) : Prop where
  | ahead (h : later.curOffset = chan.curOffset + total)
  | overflowed (h : later.curOffset + 2 ^ 64 = chan.curOffset + total)
  | again (d : Nat) (h : later.curOffset = chan.low + d) (hd : d ≤ total)
      (hend : chan.high ≤ chan.curOffset + total)

/-- The offset behind a region, which has not got to the end of the half. -/
theorem behind_region (hsize : chan.size < 2 ^ 64) (hcur : chan.curOffset < 2 ^ 64)
    (hn : n < chan.halfWidth) :
    (chan.advance n).curOffset < chan.high ∧
      ((chan.reserve n).offset + n = (chan.advance n).curOffset ∨
        (chan.reserve n).offset + n = (chan.advance n).curOffset + 2 ^ 64 ∧
          (chan.reserve n).offset < 2 ^ 64) := by
  have hhigh := high_le_size chan
  rw [ShmChannel.halfWidth] at hn
  rw [advance_curOffset, reserve_offset]
  split_ifs with hend
  · rw [Nat.mod_eq_of_lt (by omega)]
    exact ⟨by omega, Or.inl rfl⟩
  · refine ⟨by omega, ?_⟩
    by_cases hsum : chan.curOffset + n < 2 ^ 64
    · exact Or.inl (Nat.mod_eq_of_lt hsum).symm
    · refine Or.inr ⟨?_, hcur⟩
      rw [mod_of_overflow (not_lt.1 hsum) (by omega)]
      omega

/-- A reservation of `m` bytes after `total` bytes. If the end of the half comes into reach, then
what was reserved behind the region reaches from the region to the end, and what is reserved from
the begin of the half on does not reach up to the region. -/
theorem ShmChannel.Moved.step (hsize : chan.size < 2 ^ 64) (hcur : chan.curOffset < 2 ^ 64)
    (hn : n < chan.halfWidth) (hlow : later.low = chan.low) (hhigh : later.high = chan.high)
    (hm : m < chan.halfWidth) (htotal : 2 * (total + m) ≤ chan.halfWidth - n)
    (h : (chan.advance n).Moved total later) :
    (chan.advance n).Moved (total + m) (later.advance m) ∧
      ¬ (chan.reserve n).Overlaps (later.reserve m) := by
  obtain ⟨hend, hregion⟩ := behind_region hsize hcur hn
  have hle := high_le_size chan
  rw [ShmChannel.halfWidth] at hn hm htotal
  have hoffset := reserve_offset later m
  have hnext := advance_curOffset later m
  rw [hlow, hhigh] at hoffset
  have hapart : (later.reserve m).offset + m ≤ (chan.reserve n).offset ∨
      (chan.reserve n).offset + n ≤ (later.reserve m).offset →
      ¬ (chan.reserve n).Overlaps (later.reserve m) := by
    rintro hor ⟨i, hi, hi'⟩
    change _ ∧ i < _ + n at hi
    change _ ∧ i < _ + m at hi'
    omega
  cases h with
  | ahead hcur' =>
    by_cases hsum : later.curOffset + m < 2 ^ 64
    · rw [Nat.mod_eq_of_lt hsum] at hoffset
      split_ifs at hoffset with hreach
      · -- the end of the half is in reach: the new region begins where the half begins
        refine ⟨.again m ?_ (by omega) (by rw [high_advance]; omega), hapart ?_⟩
        · rw [hnext, hoffset, low_advance, Nat.mod_eq_of_lt (by omega)]
        · omega
      · refine ⟨.ahead ?_, hapart (by omega)⟩
        rw [hnext, hoffset, Nat.mod_eq_of_lt hsum]
        omega
    · -- the sum has overflowed, so it is small
      have hwrap := mod_of_overflow (not_lt.1 hsum) (by omega)
      rw [hwrap, if_neg (by omega)] at hoffset
      refine ⟨.overflowed ?_, hapart (by omega)⟩
      rw [hnext, hoffset, hwrap]
      omega
  | overflowed hcur' =>
    have hsum : later.curOffset + m < 2 ^ 64 := by omega
    rw [Nat.mod_eq_of_lt hsum, if_neg (by omega)] at hoffset
    refine ⟨.overflowed ?_, hapart (by omega)⟩
    rw [hnext, hoffset, Nat.mod_eq_of_lt hsum]
    omega
  | again d hcur' hd hreach =>
    -- too little is reserved since then to get to the region, or to the end a second time
    rw [low_advance] at hcur'
    rw [high_advance] at hreach
    have hsum : later.curOffset + m < 2 ^ 64 := by omega
    rw [Nat.mod_eq_of_lt hsum, if_neg (by omega)] at hoffset
    refine ⟨.again (d + m) ?_ (by omega) (by rw [high_advance]; omega), hapart (by omega)⟩
    rw [hnext, hoffset, low_advance, Nat.mod_eq_of_lt hsum]
    omega

theorem moved_advanceAll (hsize : chan.size < 2 ^ 64) (hcur : chan.curOffset < 2 ^ 64)
    (hn : n < chan.halfWidth) (sizes : List Nat) (hsizes : ∀ k ∈ sizes, k < chan.halfWidth)
    (hlow : later.low = chan.low) (hhigh : later.high = chan.high)
    (htotal : 2 * (total + sizes.sum) ≤ chan.halfWidth - n)
    (h : (chan.advance n).Moved total later) :
    (chan.advance n).Moved (total + sizes.sum) (later.advanceAll sizes) := by
  induction sizes generalizing later total with
  | nil => exact h
  | cons k sizes ih =>
    rw [List.sum_cons, ← Nat.add_assoc] at htotal ⊢
    have hstep := (h.step hsize hcur hn hlow hhigh (hsizes k List.mem_cons_self) (by omega)).1
    exact ih (fun k' hk' => hsizes k' (List.mem_cons_of_mem k hk')) hlow hhigh htotal hstep

theorem low_advanceAll (chan : ShmChannel) (sizes : List Nat) :
    (chan.advanceAll sizes).low = chan.low := by
  induction sizes generalizing chan with
  | nil => rfl
  | cons k sizes ih => exact ih (chan.advance k)

theorem high_advanceAll (chan : ShmChannel) (sizes : List Nat) :
    (chan.advanceAll sizes).high = chan.high := by
  induction sizes generalizing chan with
  | nil => rfl
  | cons k sizes ih => exact ih (chan.advance k)

end Later

/-- A region of `n` bytes is not overlapped by the region of a later reservation of `m` bytes if,
with those in between, not more than half of what the half has left besides the region was
reserved. -/
theorem later_region_disjoint (chan : ShmChannel) (hsize : chan.size < 2 ^ 64)
    (hcur : chan.curOffset < 2 ^ 64) (n : Nat) (between : List Nat) (m : Nat)
    (hn : n < chan.halfWidth) (hbetween : ∀ k ∈ between, k < chan.halfWidth)
    (hm : m < chan.halfWidth) (htotal : between.sum + m ≤ (chan.halfWidth - n) / 2) :
    ¬ (chan.reserve n).Overlaps (((chan.advance n).advanceAll between).reserve m) := by
  have hstart : (chan.advance n).Moved 0 (chan.advance n) := .ahead rfl
  have hmoved := moved_advanceAll hsize hcur hn between hbetween (low_advance chan n)
    (high_advance chan n) (by omega) hstart
  rw [Nat.zero_add] at hmoved
  have hlow := (low_advanceAll (chan.advance n) between).trans (low_advance chan n)
  have hhigh := (high_advanceAll (chan.advance n) between).trans (high_advance chan n)
  exact (hmoved.step hsize hcur hn hlow hhigh hm (by omega)).2

/-- The worker's half of a block of 4096 bytes: a region of 1000 bytes, and 500 bytes more. -/
theorem later_region_disjoint_worker :
    let chan : ShmChannel := ⟨.worker, 1, 4096, 0, 3000⟩
    chan.reserve 1000 = ⟨3000, 1000⟩ ∧
      ((chan.advance 1000).advanceAll [300]).reserve 200 = ⟨2348, 200⟩ ∧
      ¬ (chan.reserve 1000).Overlaps (((chan.advance 1000).advanceAll [300]).reserve 200) :=
  ⟨by decide, by decide, later_region_disjoint ⟨.worker, 1, 4096, 0, 3000⟩ (by decide) (by decide)
    1000 [300] 200 (by decide) (by decide) (by decide) (by decide)⟩

end Ava.Channel
