import Ava.Lib.Bytes
import Ava.Lib.Transition

/-!
# Framed messages on a byte stream

A message on a stream begins with a header of fixed length, from which the receiver computes how
many bytes follow. The receiver loops until it has the header and then until it has the rest; a
single `recv` may return any positive number of the bytes it asks for, and a single `send` may take
any positive number of those it is given.

`accept_eq_run` says that the splitting does not matter to the receiver, and `Link.delivers` that
a sender and a receiver with these loops, in any interleaving, transport the sent messages.
-/

set_option autoImplicit false

namespace Ava.Lib

/-- How messages are delimited: the length of the header, and the number of bytes after it. -/
structure Framing where
  header : Nat
  header_pos : 0 < header
  rest : Bytes → Nat

/-- Where the receiver is: in the loop for the header, or in the one for the rest. -/
inductive Receiver where
  | head (got : Bytes)
  | body (got : Bytes) (left : Nat)
  deriving DecidableEq

namespace Framing

variable (F : Framing)

/-- How many bytes the current loop still asks for. -/
def left : Receiver → Nat
  | .head got => F.header - got.length
  | .body _ left => left

/-- A `recv` that returns `chunk`: the receiver after it, and the message that is complete. -/
def accept : Receiver → Bytes → Receiver × List Bytes
  | .head got, chunk =>
    if (got ++ chunk).length < F.header then (.head (got ++ chunk), [])
    else if F.rest (got ++ chunk) = 0 then (.head [], [got ++ chunk])
    else (.body (got ++ chunk) (F.rest (got ++ chunk)), [])
  | .body got left, chunk =>
    if chunk.length < left then (.body (got ++ chunk) (left - chunk.length), [])
    else (.head [], [got ++ chunk])

/-- The receiver with all bytes arriving one by one. -/
def run : Receiver → Bytes → Receiver × List Bytes
  | r, [] => (r, [])
  | r, byte :: bytes =>
    ((run (F.accept r [byte]).1 bytes).1,
      (F.accept r [byte]).2 ++ (run (F.accept r [byte]).1 bytes).2)

/-- A message whose header says its length. -/
def Framed (m : Bytes) : Prop :=
  F.header ≤ m.length ∧ F.rest (m.take F.header) = m.length - F.header

variable {F}

theorem run_append (r : Receiver) (a b : Bytes) :
    F.run r (a ++ b) = ((F.run (F.run r a).1 b).1, (F.run r a).2 ++ (F.run (F.run r a).1 b).2) := by
  induction a generalizing r with
  | nil => simp [run]
  | cons byte a ih => simp [run, ih]

theorem left_accept_pos (r : Receiver) (chunk : Bytes) : 0 < F.left (F.accept r chunk).1 := by
  have hpos := F.header_pos
  cases r with
  | head got =>
    rw [accept]
    split_ifs with hshort hrest
    · simp only [left]
      omega
    · exact hpos
    · exact Nat.pos_of_ne_zero hrest
  | body got left =>
    rw [accept]
    split_ifs with hshort
    · exact Nat.sub_pos_of_lt hshort
    · exact hpos

variable {r : Receiver}

theorem left_run_pos (hr : 0 < F.left r) (bytes : Bytes) : 0 < F.left (F.run r bytes).1 := by
  induction bytes generalizing r with
  | nil => exact hr
  | cons byte bytes ih => exact ih (left_accept_pos r [byte])

/-- A byte that is not the last one asked for completes nothing. -/
theorem accept_cons {byte : UInt8} {bytes : Bytes} (hne : bytes ≠ [])
    (hle : (byte :: bytes).length ≤ F.left r) :
    (F.accept r [byte]).2 = [] ∧ bytes.length ≤ F.left (F.accept r [byte]).1 ∧
      F.accept r (byte :: bytes) = F.accept (F.accept r [byte]).1 bytes := by
  have hlength : 0 < bytes.length := List.length_pos_of_ne_nil hne
  rw [List.length_cons] at hle
  cases r with
  | head got =>
    rw [left] at hle
    have hshort : (got ++ [byte]).length < F.header := by
      rw [List.length_append, List.length_singleton]
      omega
    have hstep : F.accept (.head got) [byte] = (.head (got ++ [byte]), []) := by
      rw [accept, if_pos hshort]
    rw [hstep]
    refine ⟨rfl, ?_, ?_⟩
    · rw [left, List.length_append, List.length_singleton]
      omega
    · simp only [accept, List.append_assoc, List.singleton_append]
  | body got n =>
    rw [left] at hle
    have hstep : F.accept (.body got n) [byte] = (.body (got ++ [byte]) (n - 1), []) := by
      rw [accept, if_pos (by rw [List.length_singleton]; omega)]
      rfl
    rw [hstep]
    refine ⟨rfl, ?_, ?_⟩
    · rw [left]
      omega
    · have hcond : (byte :: bytes).length < n ↔ bytes.length < n - 1 := by
        rw [List.length_cons]
        omega
      have hleft : n - (byte :: bytes).length = n - 1 - bytes.length := by
        rw [List.length_cons]
        omega
      simp only [accept, hcond, hleft, List.append_assoc, List.singleton_append]

/-- It does not matter in how many pieces the bytes arrive. -/
theorem accept_eq_run {chunk : Bytes} (hne : chunk ≠ []) (hle : chunk.length ≤ F.left r) :
    F.accept r chunk = F.run r chunk := by
  induction chunk generalizing r with
  | nil => exact absurd rfl hne
  | cons byte bytes ih =>
    rcases eq_or_ne bytes [] with rfl | hbytes
    · simp [run]
    · obtain ⟨hnone, hleft, hstep⟩ := accept_cons hbytes hle
      rw [hstep, ih hbytes hleft, run, hnone, List.nil_append]

/-- A framed message is received as a whole, and the receiver waits for the next one. -/
theorem run_framed {m : Bytes} (hm : F.Framed m) : F.run (.head []) m = (.head [], [m]) := by
  obtain ⟨hheader, hrest⟩ := hm
  have hpos := F.header_pos
  have htake : (m.take F.header).length = F.header := List.length_take_of_le hheader
  have hhead : F.run (.head []) (m.take F.header) = F.accept (.head []) (m.take F.header) := by
    refine (accept_eq_run ?_ ?_).symm
    · intro hnil
      rw [hnil] at htake
      exact absurd htake.symm hpos.ne'
    · exact htake.le
  rw [accept, List.nil_append, if_neg htake.not_lt] at hhead
  have hsplit := run_append (F := F) (.head []) (m.take F.header) (m.drop F.header)
  rw [List.take_append_drop] at hsplit
  rw [hsplit, hhead]
  by_cases hzero : F.rest (m.take F.header) = 0
  · have hdrop : m.drop F.header = [] := List.drop_eq_nil_of_le (by omega)
    have hall : m.take F.header = m := List.take_of_length_le (by omega)
    rw [if_pos hzero, hdrop, hall]
    rfl
  · rw [if_neg hzero]
    have hdrop : (m.drop F.header).length = F.rest (m.take F.header) := by
      rw [List.length_drop, hrest]
    have hbody : F.run (.body (m.take F.header) (F.rest (m.take F.header))) (m.drop F.header) =
        (.head [], [m]) := by
      rw [← accept_eq_run, accept, if_neg hdrop.not_lt, List.take_append_drop]
      · intro hnil
        rw [hnil] at hdrop
        exact hzero hdrop.symm
      · exact hdrop.le
    rw [hbody]
    rfl

/-- A header that asks for more than there is leaves the receiver waiting. -/
theorem run_incomplete {m : Bytes} (hheader : F.header ≤ m.length)
    (hrest : m.length - F.header < F.rest (m.take F.header)) :
    (F.run (.head []) m).2 = [] := by
  have hpos := F.header_pos
  have htake : (m.take F.header).length = F.header := List.length_take_of_le hheader
  have hhead : F.run (.head []) (m.take F.header) =
      (.body (m.take F.header) (F.rest (m.take F.header)), []) := by
    rw [← accept_eq_run, accept, List.nil_append, if_neg htake.not_lt, if_neg (by omega)]
    · intro hnil
      rw [hnil] at htake
      exact absurd htake.symm hpos.ne'
    · exact htake.le
  have hdrop : (m.drop F.header).length < F.rest (m.take F.header) := by
    rwa [List.length_drop]
  have hsplit := run_append (F := F) (.head []) (m.take F.header) (m.drop F.header)
  rw [List.take_append_drop] at hsplit
  rw [hsplit, hhead, List.nil_append]
  rcases eq_or_ne (m.drop F.header) [] with hnil | hne
  · rw [hnil]
    rfl
  · have hbody : F.accept (.body (m.take F.header) (F.rest (m.take F.header))) (m.drop F.header) =
        F.run _ (m.drop F.header) := accept_eq_run hne hdrop.le
    rw [← hbody, accept, if_pos hdrop]

/-- Messages that follow each other are received one by one. -/
theorem run_flatten {ms : List Bytes} (hms : ∀ m ∈ ms, F.Framed m) :
    F.run (.head []) ms.flatten = (.head [], ms) := by
  induction ms with
  | nil => rfl
  | cons m ms ih =>
    have hm := run_framed (hms m List.mem_cons_self)
    have hrest := ih fun n hn => hms n (List.mem_cons_of_mem m hn)
    rw [List.flatten_cons, run_append, hm, hrest]
    rfl

end Framing

/-! ## A sender and a receiver -/

/-- One direction of a connection: the messages to be sent, what the current `send` loop still has
to send, the bytes on their way, and the receiver with what it has received. -/
structure Link where
  pending : List Bytes
  out : Bytes
  pipe : Bytes
  receiver : Receiver
  received : List Bytes

inductive LinkOp where
  | start
  | send (n : Nat)
  | recv (n : Nat)

namespace Link

/-- The state before the first message. -/
def new (ms : List Bytes) : Link := ⟨ms, [], [], .head [], []⟩

/-- An upper bound for the number of steps that are left. -/
def remaining (s : Link) : Nat :=
  (s.pending.map fun m => 2 * m.length + 1).sum + 2 * s.out.length + s.pipe.length

end Link

/-- The next message is taken, or a `send` or a `recv` moves `n` bytes. A message must not be
empty. -/
def linkStep (F : Framing) (s : Link) : LinkOp → Option Link
  | .start =>
    match s.pending with
    | [] => none
    | m :: pending =>
      if s.out = [] ∧ m ≠ [] then some { s with pending := pending, out := m } else none
  | .send n =>
    if 0 < n ∧ n ≤ s.out.length then
      some { s with out := s.out.drop n, pipe := s.pipe ++ s.out.take n }
    else none
  | .recv n =>
    if 0 < n ∧ n ≤ s.pipe.length ∧ n ≤ F.left s.receiver then
      some { s with
        pipe := s.pipe.drop n
        receiver := (F.accept s.receiver (s.pipe.take n)).1
        received := s.received ++ (F.accept s.receiver (s.pipe.take n)).2 }
    else none

namespace Link

variable {F : Framing} {ms : List Bytes} {s t : Link}

/-- The receiver has read a first part of the stream, and the rest is still to come. -/
def Carries (F : Framing) (ms : List Bytes) (s : Link) : Prop :=
  ∃ consumed, F.run (.head []) consumed = (s.receiver, s.received) ∧
    consumed ++ s.pipe ++ s.out ++ s.pending.flatten = ms.flatten

theorem carries_new (ms : List Bytes) : Carries F ms (new ms) := ⟨[], rfl, rfl⟩

variable {op : LinkOp}

theorem step_cases (hstep : linkStep F s op = some t) :
    (∃ m pending, s.pending = m :: pending ∧ s.out = [] ∧
      t = { s with pending := pending, out := m }) ∨
    (∃ n, 0 < n ∧ n ≤ s.out.length ∧
      t = { s with out := s.out.drop n, pipe := s.pipe ++ s.out.take n }) ∨
    ∃ n, 0 < n ∧ n ≤ s.pipe.length ∧ n ≤ F.left s.receiver ∧
      t = { s with
        pipe := s.pipe.drop n
        receiver := (F.accept s.receiver (s.pipe.take n)).1
        received := s.received ++ (F.accept s.receiver (s.pipe.take n)).2 } := by
  cases op with
  | start =>
    left
    simp only [linkStep] at hstep
    split at hstep
    · cases hstep
    · next m pending hpending =>
        split_ifs at hstep with hm
        exact ⟨m, pending, hpending, hm.1, (Option.some.inj hstep).symm⟩
  | send n =>
    right
    left
    simp only [linkStep] at hstep
    split_ifs at hstep with hn
    exact ⟨n, hn.1, hn.2, (Option.some.inj hstep).symm⟩
  | recv n =>
    right
    right
    simp only [linkStep] at hstep
    split_ifs at hstep with hn
    exact ⟨n, hn.1, hn.2.1, hn.2.2, (Option.some.inj hstep).symm⟩

theorem Carries.step (h : Carries F ms s) (hstep : linkStep F s op = some t) : Carries F ms t := by
  obtain ⟨consumed, hrun, hstream⟩ := h
  rcases step_cases hstep with ⟨m, pending, hpending, hout, rfl⟩ | ⟨n, -, -, rfl⟩ |
    ⟨n, hpos, hpipe, hleft, rfl⟩
  · refine ⟨consumed, hrun, ?_⟩
    simp only [← hstream, hpending, hout, List.flatten_cons, List.append_nil, List.append_assoc]
  · refine ⟨consumed, hrun, ?_⟩
    rw [← hstream]
    simp only [List.append_assoc]
    rw [← List.append_assoc (s.out.take n), List.take_append_drop]
  · have hlength : (s.pipe.take n).length = n := List.length_take_of_le hpipe
    have hne : s.pipe.take n ≠ [] := List.ne_nil_of_length_pos (by omega)
    have haccept := Framing.accept_eq_run hne (hlength.le.trans hleft)
    refine ⟨consumed ++ s.pipe.take n, ?_, ?_⟩
    · rw [Framing.run_append, hrun, haccept]
    · rw [← hstream]
      simp only [List.append_assoc]
      rw [← List.append_assoc (s.pipe.take n), List.take_append_drop]

/-- What was received is a first part of what was to be sent. -/
theorem Carries.received_first (h : Carries F ms s) (hms : ∀ m ∈ ms, F.Framed m) :
    s.received <+: ms := by
  obtain ⟨consumed, hrun, hstream⟩ := h
  have hall := Framing.run_flatten hms
  rw [← hstream, List.append_assoc, List.append_assoc, Framing.run_append, hrun] at hall
  exact ⟨_, congrArg Prod.snd hall⟩

/-- Either all messages have been received or a step can be made. -/
theorem Carries.progress (h : Carries F ms s) (hms : ∀ m ∈ ms, F.Framed m)
    (hpending : ∀ m ∈ s.pending, m ≠ []) :
    s.received = ms ∨ ∃ op t, linkStep F s op = some t := by
  obtain ⟨consumed, hrun, hstream⟩ := h
  by_cases hpipe : s.pipe = []
  · by_cases hout : s.out = []
    · cases hp : s.pending with
      | nil =>
        left
        rw [hpipe, hout, hp] at hstream
        simp only [List.append_nil, List.flatten_nil] at hstream
        have hall := Framing.run_flatten hms
        rw [← hstream, hrun] at hall
        exact congrArg Prod.snd hall
      | cons m pending =>
        right
        have hm : m ≠ [] := hpending m (by rw [hp]; exact List.mem_cons_self)
        exact ⟨.start, _, by simp only [linkStep, hp]; exact if_pos ⟨hout, hm⟩⟩
    · right
      exact ⟨.send 1, _, if_pos ⟨Nat.one_pos, List.length_pos_of_ne_nil hout⟩⟩
  · right
    have hleft : 0 < F.left s.receiver := by
      have hpos := Framing.left_run_pos (F := F) (r := .head []) F.header_pos consumed
      rwa [hrun] at hpos
    exact ⟨.recv 1, _, if_pos ⟨Nat.one_pos, List.length_pos_of_ne_nil hpipe, hleft⟩⟩

theorem pending_subset (hstep : linkStep F s op = some t) {m : Bytes} (hm : m ∈ t.pending) :
    m ∈ s.pending := by
  rcases step_cases hstep with ⟨m', pending, hpending, -, rfl⟩ | ⟨n, -, -, rfl⟩ | ⟨n, -, -, -, rfl⟩
  · rw [hpending]
    exact List.mem_cons_of_mem m' hm
  · exact hm
  · exact hm

/-- Every step brings the end nearer. -/
theorem remaining_lt (hstep : linkStep F s op = some t) : t.remaining < s.remaining := by
  rcases step_cases hstep with ⟨m, pending, hpending, hout, rfl⟩ | ⟨n, hpos, hout, rfl⟩ |
    ⟨n, hpos, hpipe, -, rfl⟩
  · simp only [remaining, hpending, hout, List.map_cons, List.sum_cons, List.length_nil]
    omega
  · simp only [remaining, List.length_append, List.length_take, List.length_drop]
    omega
  · simp only [remaining, List.length_drop]
    omega

/-- However sends and receives split the stream, the messages arrive as they were sent: in order
and unchanged, and each run can only end when all of them have arrived. -/
theorem delivers (hms : ∀ m ∈ ms, F.Framed m)
    (h : Reaches (linkStep F) (fun _ _ => True) (new ms) s) :
    s.received <+: ms ∧ (s.received = ms ∨ ∃ op t, linkStep F s op = some t) := by
  have hcarries : Carries F ms s :=
    h.invariant (I := Carries F ms) (fun _ _ _ hI _ hstep => hI.step hstep) (carries_new ms)
  have hpending : ∀ m ∈ s.pending, m ∈ ms := by
    refine h.invariant (I := fun s => ∀ m ∈ s.pending, m ∈ ms) ?_ (fun m hm => hm)
    intro u op v hI _ hstep m hm
    exact hI m (pending_subset hstep hm)
  refine ⟨hcarries.received_first hms, hcarries.progress hms ?_⟩
  rintro m hm rfl
  exact absurd ((hms [] (hpending [] hm)).1.trans_lt F.header_pos) (lt_irrefl _)

end Link

end Ava.Lib
