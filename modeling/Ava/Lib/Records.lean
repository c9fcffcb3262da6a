import Ava.Lib.Bytes
import Ava.Lib.Transition

/-!
# Files of records

A program reads a file in a loop: at each round it finds a record, with which it does something, or
it stops, because the file has ended or because of what it has found there. Both can fail.

`readLoop_append` says what the loop does with records that were written one after the other, and
`readLoop_sound` what is in a file that has been read.
-/

set_option autoImplicit false

namespace Ava.Lib

variable {α σ τ ε : Type}

/-- The next `n` bytes and what is behind them; `short` if there are fewer. -/
def takeBytes (short : ε) (n : Nat) (bs : Bytes) : Except ε (Bytes × Bytes) :=
  if n ≤ bs.length then .ok (bs.take n, bs.drop n) else .error short

variable {n : Nat}

theorem takeBytes_append (short : ε) {a : Bytes} (h : a.length = n) (b : Bytes) :
    takeBytes short n (a ++ b) = .ok (a, b) := by
  rw [takeBytes, if_pos (by rw [List.length_append]; omega), List.take_left' h, List.drop_left' h]

theorem takeBytes_eq_ok {short : ε} {bs a b : Bytes} (h : takeBytes short n bs = .ok (a, b)) :
    bs = a ++ b ∧ a.length = n := by
  rw [takeBytes] at h
  split_ifs at h with hle
  cases h
  exact ⟨(List.take_append_drop n bs).symm, List.length_take_of_le hle⟩

theorem takeBytes_short (short : ε) {bs : Bytes} (h : bs.length < n) :
    takeBytes short n bs = .error short :=
  if_neg (not_le.2 h)

/-- What is found in a file: a record and what is behind it, or a reason to stop. -/
inductive Found (α τ : Type) where
  | record (x : α) (rest : Bytes)
  | stop (last : τ)

/-- The result of a loop: the state, the records that were read, and why the loop has stopped. -/
structure Reading (σ α τ : Type) where
  state : σ
  records : List α
  last : τ

/-- The loop. It makes at most `fuel` rounds. -/
def readLoop (stuck : ε) (next : Bytes → Except ε (Found α τ)) (act : σ → α → Except ε σ) :
    Nat → σ → Bytes → Except ε (Reading σ α τ)
  | 0, _, _ => .error stuck
  | fuel + 1, s, bs =>
    match next bs with
    | .error e => .error e
    | .ok (.stop last) => .ok ⟨s, [], last⟩
    | .ok (.record x rest) =>
      match act s x with
      | .error e => .error e
      | .ok s => (readLoop stuck next act fuel s rest).map fun r =>
        ⟨r.state, x :: r.records, r.last⟩

/-- The loop over a file. Every record has at least one byte, so that the rounds suffice. -/
def readAll (stuck : ε) (next : Bytes → Except ε (Found α τ)) (act : σ → α → Except ε σ) (s : σ)
    (bs : Bytes) : Except ε (Reading σ α τ) :=
  readLoop stuck next act (bs.length + 1) s bs

section

variable {stuck : ε} {next : Bytes → Except ε (Found α τ)} {act : σ → α → Except ε σ}
variable {encode : α → Bytes}

variable {xs : List α}

/-- The records that come first are read one by one. -/
theorem readLoop_append (hnext : ∀ x ∈ xs, ∀ rest, next (encode x ++ rest) = .ok (.record x rest))
    (tail : Bytes) (fuel : Nat) (s : σ) :
    readLoop stuck next act (xs.length + fuel) s (xs.flatMap encode ++ tail) =
      (xs.foldlM act s).bind fun s => (readLoop stuck next act fuel s tail).map fun r =>
        ⟨r.state, xs ++ r.records, r.last⟩ := by
  induction xs generalizing s with
  | nil =>
    rw [List.length_nil, Nat.zero_add, List.flatMap_nil, List.nil_append, List.foldlM_nil]
    cases hread : readLoop stuck next act fuel s tail with
    | error e => simp [pure, Except.pure, Except.bind, Except.map, hread]
    | ok r => simp [pure, Except.pure, Except.bind, Except.map, hread]
  | cons x xs ih =>
    have hx := hnext x List.mem_cons_self (xs.flatMap encode ++ tail)
    have hrest := ih fun y hy => hnext y (List.mem_cons_of_mem _ hy)
    rw [List.flatMap_cons, List.append_assoc, List.length_cons, Nat.add_right_comm, readLoop, hx,
      List.foldlM_cons]
    dsimp only
    cases hact : act s x with
    | error e => rfl
    | ok t =>
      dsimp only
      rw [hrest]
      change _ = (xs.foldlM act t).bind _
      cases xs.foldlM act t with
      | error e => rfl
      | ok u =>
        simp only [Except.bind]
        cases readLoop stuck next act fuel u tail with
        | error e => rfl
        | ok r => rfl

/-- What the loop needs for records that have some bytes. -/
theorem length_le_flatMap (hpos : ∀ x ∈ xs, 0 < (encode x).length) :
    xs.length ≤ (xs.flatMap encode).length := by
  induction xs with
  | nil => exact Nat.le_refl 0
  | cons x xs ih =>
    have hx := hpos x List.mem_cons_self
    have hxs := ih fun y hy => hpos y (List.mem_cons_of_mem _ hy)
    rw [List.flatMap_cons, List.length_append, List.length_cons]
    omega

theorem readAll_append (stuck : ε) (act : σ → α → Except ε σ)
    (hpos : ∀ x ∈ xs, 0 < (encode x).length)
    (hnext : ∀ x ∈ xs, ∀ rest, next (encode x ++ rest) = .ok (.record x rest)) (tail : Bytes)
    (s : σ) : ∃ fuel, readAll stuck next act s (xs.flatMap encode ++ tail) =
      (xs.foldlM act s).bind fun s => (readLoop stuck next act (fuel + 1) s tail).map fun r =>
        ⟨r.state, xs ++ r.records, r.last⟩ := by
  obtain ⟨fuel, hfuel⟩ := Nat.exists_eq_add_of_le
    (show xs.length ≤ (xs.flatMap encode ++ tail).length by
      rw [List.length_append]
      exact (length_le_flatMap hpos).trans (Nat.le_add_right _ _))
  refine ⟨fuel, ?_⟩
  rw [readAll, hfuel, Nat.add_assoc, readLoop_append hnext]

theorem readAll_stop (hpos : ∀ x ∈ xs, 0 < (encode x).length)
    (hnext : ∀ x ∈ xs, ∀ rest, next (encode x ++ rest) = .ok (.record x rest)) {tail : Bytes}
    {last : τ} (hstop : next tail = .ok (.stop last)) (s : σ) :
    readAll stuck next act s (xs.flatMap encode ++ tail) =
      (xs.foldlM act s).map fun s => ⟨s, xs, last⟩ := by
  obtain ⟨fuel, hread⟩ := readAll_append stuck act hpos hnext tail s
  rw [hread]
  cases xs.foldlM act s with
  | error e => rfl
  | ok t => simp [Except.bind, Except.map, readLoop, hstop]

/-- A file that has been read consists of the records and of the place where the loop stopped. -/
theorem readLoop_sound {P : α → Prop}
    (hsound : ∀ bs x rest, next bs = .ok (.record x rest) → bs = encode x ++ rest ∧ P x)
    {fuel : Nat} {s : σ} {bs : Bytes} {r : Reading σ α τ}
    (h : readLoop stuck next act fuel s bs = .ok r) :
    (∀ x ∈ r.records, P x) ∧ r.records.foldlM act s = .ok r.state ∧
      ∃ tail, bs = r.records.flatMap encode ++ tail ∧ next tail = .ok (.stop r.last) := by
  induction fuel generalizing s bs r with
  | zero => cases h
  | succ fuel ih =>
    rw [readLoop] at h
    cases hfound : next bs with
    | error e =>
      rw [hfound] at h
      cases h
    | ok found =>
      rw [hfound] at h
      cases found with
      | stop last =>
        cases h
        exact ⟨fun x hx => absurd hx List.not_mem_nil, rfl, bs, rfl, hfound⟩
      | record x rest =>
        dsimp only at h
        cases hact : act s x with
        | error e =>
          rw [hact] at h
          cases h
        | ok t =>
          rw [hact] at h
          obtain ⟨r', hread, rfl⟩ := map_eq_ok.1 h
          obtain ⟨hall, hfold, tail, hbytes, hstop⟩ := ih hread
          obtain ⟨hx, hpx⟩ := hsound bs x rest hfound
          refine ⟨List.forall_mem_cons.2 ⟨hpx, hall⟩, ?_, tail, ?_, hstop⟩
          · rw [List.foldlM_cons, hact]
            exact hfold
          · rw [hx, hbytes, List.flatMap_cons, List.append_assoc]

end

end Ava.Lib
