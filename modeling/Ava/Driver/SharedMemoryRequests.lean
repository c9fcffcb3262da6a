import Ava.Lib.Span
import Mathlib.Data.List.Chain

/-!
# Shared memory for the applications of a guest

The driver of the guest gives every application a block of the memory that is shared with the host.
It keeps the offset behind the last block, and starts again at offset 0 when a block does not fit
behind it (`vgpu_ioctl` in `guestdrv/vgpu_ldd.c`).

The offset is increased by the size of the block also when the block is at offset 0. So after the
first block that does not fit, no block fits: all of them are at offset 0. Apart from that, the
first block at offset 0 may reach into the last one before it, and a very long history lets the
offset wrap. `shared_memory_separate_iff` says which requests get separate blocks.
-/

set_option autoImplicit false

namespace Ava.Driver

open Ava.Lib

/-! ## The model -/

def AVA_GUEST_SHM_SIZE : Nat := 512 * 2 ^ 20

inductive AllocType where
  | unspec
  | shm
  | zcopy
deriving DecidableEq, Repr

/-- `struct app_info`. -/
structure AppInfo where
  allocType : AllocType
  freePblockOffset : UInt64
  pblockSize : UInt64
deriving DecidableEq, Repr

/-- `struct vgpu_dev`: the id of the virtual machine, `cur_offset` of the shared memory, and the
register with the physical address of the zero-copy region, if there is one. -/
structure VgpuDev where
  vmId : Int32
  curOffset : UInt64
  zcopyPhys : Option UInt64
deriving DecidableEq, Repr

inductive IoctlCmd where
  | requestShm (arg : UInt64)
  | getVmId
  | requestZcopy
  | getZcopyPhyAddr
  | unsupported
deriving DecidableEq, Repr

def EINVAL : Int32 := 22

def ENOMEM : Int32 := 12

/-- What `vgpu_ioctl` leaves: its result, what is copied to the user, and the two structs. -/
structure IoctlResult where
  r : Int32
  copied : Option UInt64
  app : AppInfo
  dev : VgpuDev

/-- `vgpu_open`: the struct is filled with zeroes. -/
def vgpuOpen : AppInfo := ⟨.unspec, 0, 0⟩

/-- `vgpu_ioctl`. -/
def vgpuIoctl (dev : VgpuDev) (app : AppInfo) : IoctlCmd → IoctlResult
  | .requestShm arg =>
    if dev.curOffset + arg > UInt64.ofNat AVA_GUEST_SHM_SIZE then
      ⟨0, none, ⟨.shm, 0, arg⟩, { dev with curOffset := dev.curOffset + arg }⟩
    else
      ⟨dev.curOffset.toUInt32.toInt32, none, ⟨.shm, dev.curOffset, arg⟩,
        { dev with curOffset := dev.curOffset + arg }⟩
  | .getVmId => ⟨dev.vmId, none, app, dev⟩
  | .requestZcopy => ⟨0, none, { app with allocType := .zcopy }, dev⟩
  | .getZcopyPhyAddr =>
    match dev.zcopyPhys with
    | none => ⟨-ENOMEM, none, app, dev⟩
    | some phys => ⟨0, some phys, app, dev⟩
  | .unsupported => ⟨-EINVAL, none, app, dev⟩

namespace VgpuDev

/-- `vgpu_probe`. -/
def probe (vmId : Int32) (zcopyPhys : Option UInt64) : VgpuDev := ⟨vmId, 0, zcopyPhys⟩

/-- The block of an application that opens the device and requests memory. -/
def block (dev : VgpuDev) (arg : UInt64) : Span :=
  let app := (vgpuIoctl dev vgpuOpen (.requestShm arg)).app
  ⟨app.freePblockOffset.toNat, app.pblockSize.toNat⟩

/-- The device after the request. -/
def request (dev : VgpuDev) (arg : UInt64) : VgpuDev :=
  (vgpuIoctl dev vgpuOpen (.requestShm arg)).dev

/-- The blocks for a sequence of requests. -/
def blocks : VgpuDev → List UInt64 → List Span
  | _, [] => []
  | dev, arg :: args => dev.block arg :: (dev.request arg).blocks args

end VgpuDev

/-! ## Separate blocks -/

/-- The memory that is shared with the host. -/
def sharedMemory : Span := ⟨0, AVA_GUEST_SHM_SIZE⟩

/-- All blocks are in the shared memory, and two that follow one another are apart if there is room
for both. -/
structure Separate (blocks : List Span) : Prop where
  inside : ∀ b ∈ blocks, b.Within sharedMemory
  apart : blocks.IsChain fun a b => a.size + b.size ≤ AVA_GUEST_SHM_SIZE → a.Apart b

/-- The condition on a request, with the offset and the last block before it: the offset does not
wrap, and a block that does not fit behind the offset ends before the last block starts, if there is
room for both and neither is empty. -/
def Meets (last : Span) (curOffset arg : UInt64) : Prop :=
  curOffset.toNat + arg.toNat < 2 ^ 64 ∧
    (AVA_GUEST_SHM_SIZE < curOffset.toNat + arg.toNat →
      last.size + arg.toNat ≤ AVA_GUEST_SHM_SIZE →
      last.size = 0 ∨ arg.toNat = 0 ∨ arg.toNat ≤ last.start)

/-- All requests of a sequence meet the condition. -/
def AllMeet : Span → VgpuDev → List UInt64 → Prop
  | _, _, [] => True
  | last, dev, arg :: args =>
    Meets last dev.curOffset arg ∧ AllMeet (dev.block arg) (dev.request arg) args

/-- The last block ends at the offset, or the offset is behind the shared memory. -/
def Follows (last : Span) (dev : VgpuDev) : Prop :=
  last.stop ≤ dev.curOffset.toNat ∨ AVA_GUEST_SHM_SIZE < dev.curOffset.toNat

section Request

variable {dev : VgpuDev} {arg : UInt64} {last : Span}

theorem request_curOffset (dev : VgpuDev) (arg : UInt64) :
    (dev.request arg).curOffset = dev.curOffset + arg := by
  rw [VgpuDev.request, vgpuIoctl]
  split_ifs <;> rfl

theorem toNat_curOffset_request (h : dev.curOffset.toNat + arg.toNat < 2 ^ 64) :
    (dev.request arg).curOffset.toNat = dev.curOffset.toNat + arg.toNat := by
  rw [request_curOffset, UInt64.toNat_add, Nat.mod_eq_of_lt h]

/-- The block is at offset 0 or at the current offset, as the sum modulo 2^64 says. -/
theorem block_eq (dev : VgpuDev) (arg : UInt64) :
    dev.block arg =
      if AVA_GUEST_SHM_SIZE < (dev.curOffset.toNat + arg.toNat) % 2 ^ 64 then ⟨0, arg.toNat⟩
      else ⟨dev.curOffset.toNat, arg.toNat⟩ := by
  have hcond : dev.curOffset + arg > UInt64.ofNat AVA_GUEST_SHM_SIZE ↔
      AVA_GUEST_SHM_SIZE < (dev.curOffset.toNat + arg.toNat) % 2 ^ 64 := by
    rw [gt_iff_lt, UInt64.lt_iff_toNat_lt, UInt64.toNat_add]
    exact Iff.rfl
  rw [VgpuDev.block, vgpuIoctl]
  by_cases h : AVA_GUEST_SHM_SIZE < (dev.curOffset.toNat + arg.toNat) % 2 ^ 64
  · rw [if_pos (hcond.2 h), if_pos h]
    rfl
  · rw [if_neg fun hc => h (hcond.1 hc), if_neg h]

/-- The block is in the shared memory and apart from the last one exactly under the condition. -/
theorem block_separate_iff (harg : arg.toNat ≤ AVA_GUEST_SHM_SIZE) (hfollows : Follows last dev) :
    ((dev.block arg).Within sharedMemory ∧
      (last.size + (dev.block arg).size ≤ AVA_GUEST_SHM_SIZE → last.Apart (dev.block arg))) ↔
    Meets last dev.curOffset arg := by
  have hcur := dev.curOffset.toNat_lt
  have hsize : AVA_GUEST_SHM_SIZE < 2 ^ 63 := by decide
  rw [block_eq, Meets, Span.apart_iff]
  rcases Nat.lt_or_ge (dev.curOffset.toNat + arg.toNat) (2 ^ 64) with hlt | hge
  · rw [Nat.mod_eq_of_lt hlt]
    split_ifs with hfits
    · -- the block is at offset 0, and ends before it would reach the next offset
      simp only [Span.Within, sharedMemory, Span.stop]
      omega
    · rcases hfollows with hstop | hbehind
      · simp only [Span.Within, sharedMemory, Span.stop] at hstop ⊢
        omega
      · omega
  · -- the sum has wrapped to less than the size of the block
    rw [Nat.mod_eq_sub_mod hge, Nat.mod_eq_of_lt (by omega), if_neg (by omega)]
    simp only [Span.Within, sharedMemory, Span.stop]
    omega

theorem follows_request (h : dev.curOffset.toNat + arg.toNat < 2 ^ 64) :
    Follows (dev.block arg) (dev.request arg) := by
  rw [Follows, toNat_curOffset_request h, block_eq, Nat.mod_eq_of_lt h]
  split_ifs with hfits
  · exact .inr hfits
  · exact .inl (Nat.le_refl _)

end Request

/-- All blocks are separate, and apart from the last one before them, exactly under the condition on
the requests. -/
theorem separate_after_iff {args : List UInt64} {dev : VgpuDev} {last : Span}
    (hargs : ∀ arg ∈ args, arg.toNat ≤ AVA_GUEST_SHM_SIZE) (hfollows : Follows last dev) :
    ((∀ b ∈ dev.blocks args, b.Within sharedMemory) ∧
      (last :: dev.blocks args).IsChain
        fun a b => a.size + b.size ≤ AVA_GUEST_SHM_SIZE → a.Apart b) ↔
    AllMeet last dev args := by
  induction args generalizing dev last with
  | nil =>
    refine iff_of_true ⟨fun b hb => ?_, List.IsChain.singleton last⟩ trivial
    cases hb
  | cons arg args ih =>
    have hblock := block_separate_iff (hargs arg List.mem_cons_self) hfollows
    rw [AllMeet, VgpuDev.blocks, List.isChain_cons_cons, List.forall_mem_cons]
    constructor
    · rintro ⟨⟨hinside, hrest⟩, hapart, hchain⟩
      have hmeets := hblock.1 ⟨hinside, hapart⟩
      refine ⟨hmeets, ?_⟩
      rw [← ih (fun a ha => hargs a (List.mem_cons_of_mem _ ha)) (follows_request hmeets.1)]
      exact ⟨hrest, hchain⟩
    · rintro ⟨hmeets, hrest⟩
      rw [← ih (fun a ha => hargs a (List.mem_cons_of_mem _ ha)) (follows_request hmeets.1)]
        at hrest
      obtain ⟨hinside, hapart⟩ := hblock.2 hmeets
      exact ⟨⟨hinside, hrest.1⟩, hapart, hrest.2⟩

/-- The blocks of a sequence of requests are separate if and only if every request meets the
condition. -/
theorem shared_memory_separate_iff (vmId : Int32) (zcopyPhys : Option UInt64) (args : List UInt64)
    (h : ∀ arg ∈ args, arg.toNat ≤ AVA_GUEST_SHM_SIZE) :
    Separate ((VgpuDev.probe vmId zcopyPhys).blocks args) ↔
      AllMeet ⟨0, 0⟩ (VgpuDev.probe vmId zcopyPhys) args := by
  rw [← separate_after_iff h (.inl (Nat.le_refl _))]
  constructor
  · rintro ⟨hinside, hapart⟩
    refine ⟨hinside, ?_⟩
    -- nothing has been given out before the first block
    rw [List.isChain_cons_iff]
    cases hblocks : (VgpuDev.probe vmId zcopyPhys).blocks args with
    | nil => exact .inl rfl
    | cons b bs =>
      rw [hblocks] at hapart
      exact .inr ⟨b, bs, fun _ => Span.apart_iff.2 (.inl rfl), hapart, rfl⟩
  · rintro ⟨hinside, hapart⟩
    exact ⟨hinside, hapart.tail⟩

/-- Two applications with the default size of 256 MB fill the shared memory. -/
theorem shared_memory_separate_two :
    Separate ((VgpuDev.probe 1 none).blocks [268435456, 268435456]) := by
  refine (shared_memory_separate_iff 1 none [268435456, 268435456]
    (by simp [AVA_GUEST_SHM_SIZE])).2 ?_
  exact ⟨⟨by decide, by decide⟩, ⟨by decide, by decide⟩, trivial⟩

/-- The third and the fourth application with the default size get the same block. -/
theorem shared_memory_given_twice :
    ((VgpuDev.probe 1 none).blocks [268435456, 268435456, 268435456, 268435456])[2]? =
        some ⟨0, 268435456⟩ ∧
      ((VgpuDev.probe 1 none).blocks [268435456, 268435456, 268435456, 268435456])[3]? =
        some ⟨0, 268435456⟩ ∧
      ¬ Separate ((VgpuDev.probe 1 none).blocks [268435456, 268435456, 268435456, 268435456]) := by
  refine ⟨by decide, by decide, fun h => ?_⟩
  have hapart := (List.isChain_cons_cons.1 (List.isChain_cons_cons.1
    (List.isChain_cons_cons.1 h.apart).2).2).1 (by decide)
  exact hapart 0 (by decide) (by decide)

end Ava.Driver
