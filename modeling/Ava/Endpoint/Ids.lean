import Ava.Lib.Transition
import Mathlib.Tactic

/-!
# Handle ids and the global id counter

`common/endpoint_lib.c` issues ids from one atomic 64-bit counter. `nextId` shifts the counter
value left by four bits and adds the tag of the endpoint and a 24-bit prefix; `updateNextId` is
called when an id that another run issued is assigned to a handle and should move the counter past
that id; `isHandle` recognises the prefix.

The prefix starts at bit 40 of the id. `updateNextId` shifts the id right by four bits before it
masks the prefix, so the four bits 36..39 survive the mask: the counter it stores is
`15 * 2 ^ 36` plus the successor of the id's number (`updateTarget_toNat`). The stored value is
therefore above every counter that was never raised, whatever the number of the assigned id.
-/

set_option autoImplicit false

namespace Ava.Endpoint

/-- A `void *`, as the 64-bit value of its `uintptr_t`. -/
abbrev Ptr := UInt64

/-- The null pointer; also the sentinel object that global calls are recorded for. -/
abbrev NULL : Ptr := 0

/-- `counter_count_shift`. -/
def counterCountShift : UInt64 := 4

/-- `counter_count_min`, that is `1024 / (1 << counter_count_shift)`. -/
def counterCountMin : UInt64 := 1024 / ((1 : UInt64) <<< counterCountShift)

/-- `counter_count_prefix`. -/
def counterCountPrefix : UInt64 := (0xffffff : UInt64) <<< 40

/-- The id built from the counter value `n` by the endpoint with tag `tag`. -/
def mkId (tag n : UInt64) : Ptr :=
  (n <<< counterCountShift) ||| tag ||| counterCountPrefix

/-- The loop of `next_id`: `atomic_fetch_add` until the value read is at least `counter_count_min`.
Each iteration adds one, so `counter_count_min` iterations are enough from any start. The result is
the value read last and the counter after it. -/
def fetchCounter : Nat → UInt64 → UInt64 × UInt64
  | 0, c => (c, c + 1)
  | k + 1, c => if c < counterCountMin then fetchCounter k (c + 1) else (c, c + 1)

/-- `next_id`: the id and the counter after the call. -/
def nextId (tag c : UInt64) : Ptr × UInt64 :=
  let r := fetchCounter counterCountMin.toNat c
  (mkId tag r.1, r.2)

/-- The counter value that `update_next_id` computes from an id. -/
def updateTarget (v : Ptr) : UInt64 :=
  ((v >>> counterCountShift) + 1) &&& ~~~ counterCountPrefix

/-- `update_next_id`: the compare-and-swap loop stores the target if the counter is below it. -/
def updateNextId (c : UInt64) (v : Ptr) : UInt64 :=
  if c < updateTarget v then updateTarget v else c

/-- `is_handle`: the id carries the whole prefix. -/
def isHandle (id : Ptr) : Bool :=
  ((id &&& counterCountPrefix) ^^^ counterCountPrefix) == 0

/-! ## Bit-level facts -/

theorem counterCountMin_toNat : counterCountMin.toNat = 64 := by decide

theorem counterCountPrefix_toNat : counterCountPrefix.toNat = 0xffffff * 2 ^ 40 := by decide

/-- `a ||| b` for `b` below the lowest bit of a multiple `a` of `2 ^ k`. -/
private theorem mul_two_pow_or {a b k : Nat} (hb : b < 2 ^ k) :
    a * 2 ^ k ||| b = a * 2 ^ k + b := by
  rw [← Nat.shiftLeft_eq, Nat.shiftLeft_add_eq_or_of_lt hb]

/-- An all-ones prefix above bit 40 absorbs whatever a 64-bit value has above bit 40. -/
private theorem or_prefix (x : Nat) (hx : x < 2 ^ 64) :
    x ||| 0xffffff * 2 ^ 40 = 0xffffff * 2 ^ 40 + x % 2 ^ 40 := by
  have hlow : x % 2 ^ 40 < 2 ^ 40 := Nat.mod_lt _ (by norm_num)
  rw [← mul_two_pow_or hlow]
  -- bit by bit: below 40 the value, from 40 to 63 ones, and nothing above
  apply Nat.eq_of_testBit_eq
  intro i
  have hones : (0xffffff : Nat) = 2 ^ 24 - 1 := by norm_num
  rw [hones, Nat.testBit_or, Nat.testBit_or, ← Nat.shiftLeft_eq, Nat.testBit_shiftLeft,
    Nat.testBit_two_pow_sub_one, Nat.testBit_mod_two_pow]
  by_cases h40 : i < 40
  · simp [h40, Nat.not_le.2 h40]
  · by_cases h64 : i < 64
    · have h1 : 40 ≤ i := by omega
      have h2 : i - 40 < 24 := by omega
      simp [h1, h2]
    · have hbit : x.testBit i = false :=
        Nat.testBit_lt_two_pow (lt_of_lt_of_le hx (Nat.pow_le_pow_right (by norm_num) (by omega)))
      have h2 : ¬ i - 40 < 24 := by omega
      simp [hbit, h40, h2]

/-- The value of an id: prefix, number and tag. The number is the counter value modulo `2 ^ 36`. -/
theorem mkId_toNat (tag n : UInt64) (htag : tag.toNat < 16) :
    (mkId tag n).toNat = 0xffffff * 2 ^ 40 + (n.toNat % 2 ^ 36) * 16 + tag.toNat := by
  -- the shift drops the top four bits, which the prefix would cover anyway
  have hshift : (n <<< counterCountShift).toNat = n.toNat % 2 ^ 60 * 2 ^ 4 := by
    have h4 : counterCountShift.toNat = 4 := by decide
    rw [UInt64.toNat_shiftLeft, h4, Nat.shiftLeft_eq]
    norm_num
    omega
  have hor : ((n <<< counterCountShift) ||| tag).toNat = n.toNat % 2 ^ 60 * 2 ^ 4 + tag.toNat := by
    rw [UInt64.toNat_or, hshift, mul_two_pow_or (by omega)]
  -- what the counter has above its 36 bits disappears under the prefix
  rw [mkId, UInt64.toNat_or, counterCountPrefix_toNat, hor, or_prefix _ (by omega)]
  omega

/-- The number of an id: what is left without the tag and the prefix. -/
def idNumber (id : Ptr) : Nat := id.toNat / 16 % 2 ^ 36

/-- The number of a counter: the number of the id built from it. -/
def counterNumber (c : UInt64) : Nat := c.toNat % 2 ^ 36

theorem idNumber_mkId (tag n : UInt64) (htag : tag.toNat < 16) :
    idNumber (mkId tag n) = counterNumber n := by
  rw [idNumber, counterNumber, mkId_toNat tag n htag]
  omega

/-- Ids of one endpoint are equal exactly when their numbers are. -/
theorem mkId_inj_iff (tag m n : UInt64) (htag : tag.toNat < 16) :
    mkId tag m = mkId tag n ↔ counterNumber m = counterNumber n := by
  constructor
  · intro h
    rw [← idNumber_mkId tag m htag, ← idNumber_mkId tag n htag, h]
  · intro h
    apply UInt64.toNat_inj.1
    rw [mkId_toNat tag m htag, mkId_toNat tag n htag]
    simp only [counterNumber] at h
    rw [h]

/-- Every id of every endpoint is recognised as a handle. -/
theorem isHandle_mkId (tag n : UInt64) : isHandle (mkId tag n) = true := by
  have h : mkId tag n &&& counterCountPrefix = counterCountPrefix := by
    rw [mkId]
    apply UInt64.toNat_inj.1
    rw [UInt64.toNat_and, UInt64.toNat_or]
    -- every bit of the prefix is set by the last `or`
    apply Nat.eq_of_testBit_eq
    intro i
    rw [Nat.testBit_and, Nat.testBit_or]
    cases counterCountPrefix.toNat.testBit i <;> simp
  rw [isHandle, h]
  simp

/-- An id is never the null pointer. -/
theorem mkId_ne_null (tag n : UInt64) (htag : tag.toNat < 16) : mkId tag n ≠ NULL := by
  intro h
  have hz : (mkId tag n).toNat = 0 := by rw [h]; rfl
  rw [mkId_toNat tag n htag] at hz
  omega

/-- From a counter of at least `counter_count_min` the loop stops at once. -/
theorem nextId_of_min_le {c : UInt64} (tag : UInt64) (hc : 64 ≤ c.toNat) :
    nextId tag c = (mkId tag c, c + 1) := by
  have hlt : ¬ c < counterCountMin := by
    rw [UInt64.lt_iff_toNat_lt, counterCountMin_toNat]
    omega
  have hk : counterCountMin.toNat = 63 + 1 := by decide
  simp only [nextId, hk, fetchCounter, if_neg hlt]

/-- The target of `update_next_id` for an id with number `e`: bits 36..39 of the prefix survive the
mask, and the successor of the last number carries through the whole prefix and leaves nothing. -/
theorem updateTarget_toNat (tag n : UInt64) (htag : tag.toNat < 16) :
    (updateTarget (mkId tag n)).toNat =
      if counterNumber n + 1 < 2 ^ 36 then 15 * 2 ^ 36 + counterNumber n + 1 else 0 := by
  have h4 : counterCountShift.toNat = 4 := by decide
  have hmask : (~~~ counterCountPrefix).toNat = 2 ^ 40 - 1 := by decide
  have hone : (1 : UInt64).toNat = 1 := by decide
  rw [updateTarget, UInt64.toNat_and, hmask, Nat.and_two_pow_sub_one_eq_mod, UInt64.toNat_add,
    UInt64.toNat_shiftRight, h4, hone, mkId_toNat tag n htag, Nat.shiftRight_eq_div_pow,
    counterNumber]
  norm_num
  -- the mask clears from bit 40 on, but after the shift the prefix starts at bit 36
  split_ifs with h <;> omega

end Ava.Endpoint
