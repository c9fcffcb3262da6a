import Ava.Lib.Bytes

/-!
# Seekable files

A file is its contents together with the position of its descriptor, which every read and write
moves. Offsets are signed, as `off_t` is: a seek to a negative offset fails and leaves the position
where it was. A write that would make the file longer than an `off_t` can say fails.

One call moves at most `maxTransfer` bytes, as on Linux. A write of more data writes the first part
of it and reports how much that is, which a caller has to look at.
-/

set_option autoImplicit false

namespace Ava.Lib

/-- An open file. -/
structure File where
  contents : Bytes
  position : Nat

/-- The value of a 64-bit signed integer after an unsigned computation. -/
def signed64 (n : Int) : Int := n.bmod (2 ^ 64)

theorem signed64_of_lt {n : Nat} (h : n < 2 ^ 63) : signed64 n = n := by
  apply Int.bmod_eq_of_le
  · omega
  · omega

namespace File

/-- An empty file. -/
def empty : File := ⟨[], 0⟩

/-- `lseek(fd, off, SEEK_SET)`. -/
def seekSet (f : File) (off : Int) : File :=
  if off < 0 then f else { f with position := off.toNat }

/-- `lseek(fd, 0, SEEK_END)`; the result is the new position. -/
def seekEnd (f : File) : Nat × File := (f.contents.length, { f with position := f.contents.length })

/-- The largest number of bytes that one `read` or `write` moves (`MAX_RW_COUNT`). -/
def maxTransfer : Nat := 0x7ffff000

/-- `read`: at most `len` bytes, less at the end of the file. -/
def read (f : File) (len : Nat) : Bytes × File :=
  let data := slice f.contents f.position (min len maxTransfer)
  (data, { f with position := f.position + data.length })

/-- `write`, for a caller that only looks whether it failed. -/
def write (f : File) (data : Bytes) : Option File :=
  let data := data.take maxTransfer
  if f.position + data.length < 2 ^ 63 then
    some ⟨writeAt f.contents f.position data, f.position + data.length⟩
  else none

variable {f g : File} {data : Bytes}

@[simp] theorem contents_seekSet (f : File) (off : Int) :
    (f.seekSet off).contents = f.contents := by
  rw [seekSet]
  split_ifs
  · rfl
  · rfl

theorem seekSet_of_nat (f : File) (off : Nat) :
    f.seekSet off = { f with position := off } := by
  rw [seekSet, if_neg (by omega), Int.toNat_natCast]

@[simp] theorem contents_read (f : File) (len : Nat) : (f.read len).2.contents = f.contents := rfl

theorem length_read_le (f : File) (len : Nat) : (f.read len).1.length ≤ maxTransfer := by
  rw [read, slice, List.length_take]
  omega

/-- A read that gets all the bytes it asks for. -/
theorem read_eq_of_readAt {len : Nat} (hlen : len ≤ maxTransfer)
    (h : readAt f.contents f.position len = some data) :
    f.read len = (data, { f with position := f.position + len }) := by
  rw [readAt] at h
  split_ifs at h with hle
  cases h
  rw [read, min_eq_left hlen, length_slice hle]

theorem read_of_length_le (h : f.contents.length ≤ f.position) (len : Nat) :
    f.read len = ([], f) := by
  have hslice : slice f.contents f.position (min len maxTransfer) = [] := by
    rw [slice, List.drop_eq_nil_of_le h, List.take_nil]
  rw [read, hslice]
  rfl

theorem write_eq_some_iff :
    f.write data = some g ↔ f.position + (data.take maxTransfer).length < 2 ^ 63 ∧
      g = ⟨writeAt f.contents f.position (data.take maxTransfer),
        f.position + (data.take maxTransfer).length⟩ := by
  rw [write]
  split_ifs with hlt
  · rw [Option.some.injEq, and_iff_right hlt, eq_comm]
  · constructor
    · intro h
      cases h
    · rintro ⟨hlt', -⟩
      exact absurd hlt' hlt

theorem exists_write (f : File) (data : Bytes) (h : f.position + data.length < 2 ^ 63) :
    ∃ g, f.write data = some g ∧ g.position ≤ f.position + data.length := by
  have hle : (data.take maxTransfer).length ≤ data.length := List.length_take_le' ..
  refine ⟨_, write_eq_some_iff.2 ⟨by omega, rfl⟩, ?_⟩
  dsimp only
  omega

theorem write_end (h : f.position = f.contents.length) (hg : f.write data = some g) :
    g.contents = f.contents ++ data.take maxTransfer ∧ g.position = g.contents.length ∧
      g.contents.length < 2 ^ 63 := by
  obtain ⟨hlt, rfl⟩ := write_eq_some_iff.1 hg
  have hcontents : writeAt f.contents f.position (data.take maxTransfer) =
      f.contents ++ data.take maxTransfer := by
    rw [h, writeAt_end]
  rw [hcontents, List.length_append, ← h]
  exact ⟨rfl, rfl, hlt⟩

end File

end Ava.Lib
