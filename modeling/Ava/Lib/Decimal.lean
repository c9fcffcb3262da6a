import Mathlib.Algebra.Order.Ring.Int
import Mathlib.Data.List.TakeWhile
import Mathlib.Data.Option.Basic

/-!
# Decimal numbers in texts

`std::to_string` writes a number in decimal digits, which is `Nat.toDigits 10`. `strtol` reads one:
it skips white space, takes a sign and as many digits as there are, and ignores what follows.
`std::stoi` and `std::stol` are `strtol` with the range of their result; what they do not convert
is an exception.
-/

set_option autoImplicit false

namespace Ava.Lib

/-- `isspace` in the C locale. -/
def isSpaceChar (c : Char) : Bool :=
  c == ' ' || (9 ≤ c.toNat && c.toNat ≤ 13)

/-- The digits that a text begins with. -/
def digitsOf (cs : List Char) : Option Nat :=
  let digits := cs.takeWhile Char.isDigit
  if digits.isEmpty then none else some (Nat.ofDigitChars 10 digits 0)

/-- `strtol` in base 10, without a bound. -/
def strtol (cs : List Char) : Option Int :=
  match cs.dropWhile isSpaceChar with
  | '-' :: cs => (digitsOf cs).map fun n : Nat => -(n : Int)
  | '+' :: cs => (digitsOf cs).map fun n : Nat => (n : Int)
  | cs => (digitsOf cs).map fun n : Nat => (n : Int)

/-- The number at the begin of a text, if it is in the range of a signed type of `bits` bits. -/
def stringToSigned (bits : Nat) (cs : List Char) : Option Int :=
  (strtol cs).filter fun n => -2 ^ (bits - 1) ≤ n && n < 2 ^ (bits - 1)

/-- `std::stoi`. -/
def stoi (cs : List Char) : Option Int := stringToSigned 32 cs

/-- `std::stol`. -/
def stol (cs : List Char) : Option Int := stringToSigned 64 cs

/-! ## Numbers are read as they were written -/

theorem digitsOf_toDigits (n : Nat) : digitsOf (Nat.toDigits 10 n) = some n := by
  have hall : (Nat.toDigits 10 n).takeWhile Char.isDigit = Nat.toDigits 10 n := by
    rw [List.takeWhile_eq_self_iff]
    intro c hc
    exact Nat.isDigit_of_mem_toDigits (by decide) (by decide) hc
  have hne : (Nat.toDigits 10 n).isEmpty = false := by
    rw [List.isEmpty_eq_false_iff]
    exact Nat.toDigits_ne_nil
  rw [digitsOf]
  simp only [hall, hne, Nat.ofDigitChars_ten_toDigits, Bool.false_eq_true, if_false]

theorem strtol_toDigits (n : Nat) : strtol (Nat.toDigits 10 n) = some (n : Int) := by
  obtain ⟨c, cs, heq⟩ := List.exists_cons_of_ne_nil (Nat.toDigits_ne_nil (n := n) (b := 10))
  have hdigit : c.isDigit = true :=
    Nat.isDigit_of_mem_toDigits (b := 10) (n := n) (by decide) (by decide)
      (heq ▸ List.mem_cons_self ..)
  have hdigits := digitsOf_toDigits n
  -- the text begins with a digit, which is neither white space nor a sign
  have hbounds : 48 ≤ c.toNat ∧ c.toNat ≤ 57 := by
    rw [Char.isDigit, Bool.and_eq_true, decide_eq_true_iff, decide_eq_true_iff] at hdigit
    exact hdigit
  have hspace : isSpaceChar c = false := by
    rw [isSpaceChar, Bool.or_eq_false_iff, Bool.and_eq_false_iff, beq_eq_false_iff_ne]
    refine ⟨?_, Or.inr ?_⟩
    · rintro rfl
      exact absurd hbounds.1 (by decide)
    · rw [decide_eq_false_iff_not]
      omega
  have hminus : c ≠ '-' := by
    rintro rfl
    exact absurd hbounds.1 (by decide)
  have hplus : c ≠ '+' := by
    rintro rfl
    exact absurd hbounds.1 (by decide)
  rw [heq] at hdigits ⊢
  rw [strtol, List.dropWhile_cons_of_neg (by rw [hspace]; decide)]
  split
  · rename_i h
    exact absurd (List.cons.inj h).1 hminus
  · rename_i h
    exact absurd (List.cons.inj h).1 hplus
  · rw [hdigits]
    rfl

theorem strtol_toString (n : Int) : strtol (toString n).toList = some n := by
  cases n with
  | ofNat m =>
    have htext : (toString (Int.ofNat m)).toList = Nat.toDigits 10 m := Nat.toList_repr
    rw [htext, strtol_toDigits]
    rfl
  | negSucc m =>
    have htext : (toString (Int.negSucc m)).toList = '-' :: Nat.toDigits 10 (m + 1) := by
      rw [← Nat.toList_repr (n := m + 1)]
      exact String.toList_append (s := "-")
    rw [htext, strtol, List.dropWhile_cons_of_neg (by decide)]
    exact congrArg (Option.map fun n : Nat => -(n : Int)) (digitsOf_toDigits (m + 1))

theorem stringToSigned_eq_some {bits : Nat} {cs : List Char} {n : Int} (h : strtol cs = some n)
    (hle : -2 ^ (bits - 1) ≤ n) (hlt : n < 2 ^ (bits - 1)) : stringToSigned bits cs = some n := by
  rw [stringToSigned, h, Option.filter_some, if_pos]
  simp [hle, hlt]

theorem stringToSigned_bounds {bits : Nat} {cs : List Char} {n : Int}
    (h : stringToSigned bits cs = some n) : -2 ^ (bits - 1) ≤ n ∧ n < 2 ^ (bits - 1) := by
  obtain ⟨-, hrange⟩ := Option.filter_eq_some_iff.1 h
  rwa [Bool.and_eq_true, decide_eq_true_iff, decide_eq_true_iff] at hrange

theorem stringToSigned_toDigits {bits n : Nat} (h : n < 2 ^ (bits - 1)) :
    stringToSigned bits (Nat.toDigits 10 n) = some (n : Int) := by
  have hlt : (n : Int) < 2 ^ (bits - 1) := by exact_mod_cast h
  have hpos : (0 : Int) < 2 ^ (bits - 1) := Int.pow_pos (by decide)
  exact stringToSigned_eq_some (strtol_toDigits n) (by omega) hlt

end Ava.Lib
