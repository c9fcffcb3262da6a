import Ava.Channel.SocketStream
import Mathlib.Logic.Function.Basic

/-!
# Concurrent senders on one socket

Threads call `command_channel_socket_send_command` and `command_channel_socket_transfer_command` on
the same channel. A send holds the mutex while its loop writes the command piece by piece. A
transfer takes no mutex and writes the struct and the data region with two calls of `send_socket`,
each of which asserts that there is something to send.

`senders_intact_iff` says for which calls every interleaving is harmless: no transferred command has
an empty data region, and no other thread sends anything beside one that transfers.
-/

set_option autoImplicit false

namespace Ava.Channel

open Ava.Lib

/-! ## The threads -/

/-- A call that a thread makes. -/
inductive SendOp where
  | send (cmd : Command)
  | transfer (cmd : Command)

/-- The `send_socket` loop that a thread is in: that of a send, or one of the two of a transfer. -/
inductive SendPart where
  | send
  | struct
  | region
  deriving DecidableEq

/-- A thread inside a call, with what its current loop has still to write. -/
structure InCall where
  part : SendPart
  cmd : Command
  out : Bytes

structure Sender where
  call : Option InCall
  program : List SendOp

/-- The threads, the owner of `send_mutex`, what was written to the socket, and the calls that have
returned. A failed assertion ends the process. -/
structure Senders (τ : Type) where
  threads : τ → Sender
  lock : Option τ
  stream : Bytes
  completed : List (τ × Command)
  aborted : Bool

inductive SenderOp (τ : Type) where
  | call (i : τ)
  | write (i : τ) (n : Nat)
  | next (i : τ)

def SendOp.cmd : SendOp → Command
  | .send cmd => cmd
  | .transfer cmd => cmd

def Sender.left (t : Sender) : List Command :=
  t.call.toList.map InCall.cmd ++ t.program.map SendOp.cmd

section Model

variable {τ : Type} [DecidableEq τ]

namespace Senders

def new (programs : τ → List SendOp) : Senders τ :=
  ⟨fun i => ⟨none, programs i⟩, none, [], [], false⟩

/-- Thread `i` enters `send_socket` for the bytes `buf`. -/
def sendSocket (s : Senders τ) (i : τ) (part : SendPart) (cmd : Command) (buf : Bytes)
    (program : List SendOp) : Senders τ :=
  if buf = [] then { s with aborted := true }
  else { s with threads := Function.update s.threads i ⟨some ⟨part, cmd, buf⟩, program⟩ }

/-- The call of thread `i` returns. -/
def done (s : Senders τ) (i : τ) (cmd : Command) (program : List SendOp) : Senders τ :=
  { s with
    threads := Function.update s.threads i ⟨none, program⟩
    completed := s.completed ++ [(i, cmd)] }

/-- Thread `i` starts its next call. A send takes the mutex first. `cmd` is the block as it is
written, after `send_command` has set its `command_type`. -/
def startCall (s : Senders τ) (i : τ) : Option (Senders τ) :=
  match s.threads i with
  | ⟨none, .send cmd :: program⟩ =>
    if s.lock = none then
      some (sendSocket { s with lock := some i } i .send cmd
        (slice cmd.bytes 0 (commandSize cmd.bytes + regionSize cmd.bytes)) program)
    else none
  | ⟨none, .transfer cmd :: program⟩ =>
    some (s.sendSocket i .struct cmd (slice cmd.bytes 0 (commandSize cmd.bytes)) program)
  | _ => none

/-- A `send` of thread `i` takes `n` bytes. -/
def write (s : Senders τ) (i : τ) (n : Nat) : Option (Senders τ) :=
  match s.threads i with
  | ⟨some a, program⟩ =>
    if 0 < n ∧ n ≤ a.out.length then
      some { s with
        threads := Function.update s.threads i ⟨some { a with out := a.out.drop n }, program⟩
        stream := s.stream ++ a.out.take n }
    else none
  | _ => none

/-- Thread `i` has left the loop of `send_socket`. -/
def leaveLoop (s : Senders τ) (i : τ) : Option (Senders τ) :=
  match s.threads i with
  | ⟨some ⟨.send, cmd, []⟩, program⟩ => some (done { s with lock := none } i cmd program)
  | ⟨some ⟨.struct, cmd, []⟩, program⟩ =>
    some (s.sendSocket i .region cmd
      (slice cmd.bytes (commandSize cmd.bytes) (regionSize cmd.bytes)) program)
  | ⟨some ⟨.region, cmd, []⟩, program⟩ => some (s.done i cmd program)
  | _ => none

end Senders

/-- One step of one thread. -/
def senderStep (s : Senders τ) (op : SenderOp τ) : Option (Senders τ) :=
  if s.aborted then none
  else
    match op with
    | .call i => s.startCall i
    | .write i n => s.write i n
    | .next i => s.leaveLoop i

/-! ## What should hold -/

namespace Senders

/-- The calls of a thread that have not returned. -/
def left (s : Senders τ) (i : τ) : List Command := (s.threads i).left

/-- No assertion has failed; the calls go on until all have returned; and whenever no thread is in a
call, the receiver obtains from the stream the commands of the calls that have returned. -/
structure Intact (programs : τ → List SendOp) (s : Senders τ) : Prop where
  notAborted : s.aborted = false
  calls : ∀ i, (s.completed.filter fun p => p.1 = i).map Prod.snd ++ s.left i =
    (programs i).map SendOp.cmd
  progress : (∀ i, s.left i = []) ∨ ∃ op t, senderStep s op = some t
  received : (∀ i, (s.threads i).call = none) →
    (commandFraming.run (.head []) s.stream).1 = .head [] ∧
      (commandFraming.run (.head []) s.stream).2.Perm (s.completed.map fun p => p.2.bytes)

end Senders

/-- No transferred command has an empty data region, and beside a thread that transfers no other
thread makes a call. -/
def Exclusive (programs : τ → List SendOp) : Prop :=
  (∀ i cmd, .transfer cmd ∈ programs i → regionSize cmd.bytes ≠ 0) ∧
    ∀ i j cmd, i ≠ j → .transfer cmd ∈ programs i → programs j = []

/-! ## What one step does -/

theorem Command.slice_all (c : Command) :
    slice c.bytes 0 (commandSize c.bytes + regionSize c.bytes) = c.bytes := by
  rw [c.size_eq, slice_zero_length]

theorem Command.length_struct (c : Command) : c.struct.length = commandSize c.bytes := by
  apply length_slice
  rw [Nat.zero_add, ← c.size_eq]
  exact Nat.le_add_right _ _

theorem Command.struct_ne_nil (c : Command) : c.struct ≠ [] := by
  apply List.ne_nil_of_length_pos
  rw [c.length_struct]
  exact lt_of_lt_of_le (Nat.succ_pos 135) c.header_le

theorem Command.region_eq_nil_iff (c : Command) : c.region = [] ↔ regionSize c.bytes = 0 := by
  have hlength : c.region.length = regionSize c.bytes := length_slice c.size_eq.le
  rw [← List.length_eq_zero_iff, hlength]

namespace Senders

/-- The steps, by what the thread was doing. -/
inductive Step (s : Senders τ) : Senders τ → Prop
  | send {i : τ} {cmd : Command} {program : List SendOp}
      (hthread : s.threads i = ⟨none, .send cmd :: program⟩) (hlock : s.lock = none) :
      Step s { s with
        lock := some i
        threads := Function.update s.threads i ⟨some ⟨.send, cmd, cmd.bytes⟩, program⟩ }
  | transfer {i : τ} {cmd : Command} {program : List SendOp}
      (hthread : s.threads i = ⟨none, .transfer cmd :: program⟩) :
      Step s { s with
        threads := Function.update s.threads i ⟨some ⟨.struct, cmd, cmd.struct⟩, program⟩ }
  | write {i : τ} {a : InCall} {program : List SendOp} {n : Nat}
      (hthread : s.threads i = ⟨some a, program⟩) (hpos : 0 < n) (hle : n ≤ a.out.length) :
      Step s { s with
        threads := Function.update s.threads i ⟨some { a with out := a.out.drop n }, program⟩
        stream := s.stream ++ a.out.take n }
  | sent {i : τ} {cmd : Command} {program : List SendOp}
      (hthread : s.threads i = ⟨some ⟨.send, cmd, []⟩, program⟩) :
      Step s (done { s with lock := none } i cmd program)
  | region {i : τ} {cmd : Command} {program : List SendOp}
      (hthread : s.threads i = ⟨some ⟨.struct, cmd, []⟩, program⟩)
      (hregion : regionSize cmd.bytes ≠ 0) :
      Step s { s with
        threads := Function.update s.threads i ⟨some ⟨.region, cmd, cmd.region⟩, program⟩ }
  | abort {i : τ} {cmd : Command} {program : List SendOp}
      (hthread : s.threads i = ⟨some ⟨.struct, cmd, []⟩, program⟩)
      (hregion : regionSize cmd.bytes = 0) :
      Step s { s with aborted := true }
  | transferred {i : τ} {cmd : Command} {program : List SendOp}
      (hthread : s.threads i = ⟨some ⟨.region, cmd, []⟩, program⟩) :
      Step s (s.done i cmd program)

variable {s t : Senders τ}

/-- A call of `send_socket` with something to send. -/
theorem sendSocket_of_ne_nil (s : Senders τ) (i : τ) (part : SendPart) (cmd : Command)
    (program : List SendOp) {buf : Bytes} (h : buf ≠ []) :
    s.sendSocket i part cmd buf program =
      { s with threads := Function.update s.threads i ⟨some ⟨part, cmd, buf⟩, program⟩ } :=
  if_neg h

theorem step_of_senderStep {op : SenderOp τ} (h : senderStep s op = some t) : s.Step t := by
  unfold senderStep at h
  split_ifs at h with haborted
  cases op with
  | call i =>
    simp only [startCall] at h
    split at h
    · next cmd program hthread =>
        split_ifs at h with hlock
        obtain rfl := Option.some.inj h
        rw [cmd.slice_all, sendSocket_of_ne_nil _ _ _ _ _ cmd.bytes_ne_nil]
        exact .send hthread hlock
    · next cmd program hthread =>
        obtain rfl := Option.some.inj h
        have hsend := s.sendSocket_of_ne_nil i .struct cmd program cmd.struct_ne_nil
        exact hsend ▸ .transfer hthread
    · cases h
  | write i n =>
    simp only [write] at h
    split at h
    · next a program hthread =>
        split_ifs at h with hn
        obtain rfl := Option.some.inj h
        exact .write hthread hn.1 hn.2
    · cases h
  | next i =>
    simp only [leaveLoop] at h
    split at h
    · next cmd program hthread =>
        obtain rfl := Option.some.inj h
        exact .sent hthread
    · next cmd program hthread =>
        obtain rfl := Option.some.inj h
        by_cases hregion : cmd.region = []
        · have habort : s.sendSocket i .region cmd cmd.region program =
              { s with aborted := true } := if_pos hregion
          exact habort ▸ .abort hthread (cmd.region_eq_nil_iff.1 hregion)
        · have hsend := s.sendSocket_of_ne_nil i .region cmd program hregion
          exact hsend ▸ .region hthread (mt cmd.region_eq_nil_iff.2 hregion)
    · next cmd program hthread =>
        obtain rfl := Option.some.inj h
        exact .transferred hthread
    · cases h

/-- Each of these steps can be made. -/
theorem Step.exists_op (h : s.Step t) (haborted : s.aborted = false) :
    ∃ op, senderStep s op = some t := by
  have hrun : ∀ op, senderStep s op = match op with
      | .call i => s.startCall i
      | .write i n => s.write i n
      | .next i => s.leaveLoop i := by
    intro op
    rw [senderStep.eq_def, haborted]
    rfl
  cases h with
  | @send i cmd program hthread hlock =>
    refine ⟨.call i, (hrun _).trans ?_⟩
    simp only [startCall, hthread, if_pos hlock, cmd.slice_all]
    rw [sendSocket_of_ne_nil _ _ _ _ _ cmd.bytes_ne_nil]
  | @transfer i cmd program hthread =>
    refine ⟨.call i, (hrun _).trans ?_⟩
    simp only [startCall, hthread]
    exact congrArg some (s.sendSocket_of_ne_nil i .struct cmd program cmd.struct_ne_nil)
  | @write i a program n hthread hpos hle =>
    refine ⟨.write i n, (hrun _).trans ?_⟩
    simp only [Senders.write, hthread]
    exact if_pos ⟨hpos, hle⟩
  | @sent i cmd program hthread =>
    refine ⟨.next i, (hrun _).trans ?_⟩
    simp only [leaveLoop, hthread]
  | @region i cmd program hthread hregion =>
    refine ⟨.next i, (hrun _).trans ?_⟩
    simp only [leaveLoop, hthread]
    exact congrArg some (s.sendSocket_of_ne_nil i .region cmd program
      (mt cmd.region_eq_nil_iff.1 hregion))
  | @abort i cmd program hthread hregion =>
    refine ⟨.next i, (hrun _).trans ?_⟩
    simp only [leaveLoop, hthread]
    exact congrArg some (if_pos (cmd.region_eq_nil_iff.2 hregion))
  | @transferred i cmd program hthread =>
    refine ⟨.next i, (hrun _).trans ?_⟩
    simp only [leaveLoop, hthread]

/-! ## One call at a time -/

end Senders

/-- What a call has still to write. -/
def InCall.remaining (a : InCall) : Bytes :=
  a.out ++ if a.part = .struct then a.cmd.region else []

def InCall.op (a : InCall) : SendOp :=
  if a.part = .send then .send a.cmd else .transfer a.cmd

theorem InCall.cmd_op (a : InCall) : a.op.cmd = a.cmd := by
  rw [InCall.op]
  split_ifs
  · rfl
  · rfl

namespace Senders

/-- The commands of the calls that have returned, one after the other. -/
def sentBytes (s : Senders τ) : Bytes := (s.completed.map fun p => p.2.bytes).flatten

/-- No thread is in a call. -/
structure Quiet (s : Senders τ) : Prop where
  idle : ∀ i, (s.threads i).call = none
  lock : s.lock = none
  stream : s.stream = s.sentBytes

/-- Only thread `i` is in a call, and the stream ends with what this call has written. -/
structure Busy (programs : τ → List SendOp) (s : Senders τ) (i : τ) (a : InCall)
    (program : List SendOp) : Prop where
  thread : s.threads i = ⟨some a, program⟩
  idle : ∀ j, j ≠ i → (s.threads j).call = none
  op : a.op ∈ programs i
  lock : s.lock = if a.part = .send then some i else none
  stream : s.stream ++ a.remaining = s.sentBytes ++ a.cmd.bytes

structure Orderly (programs : τ → List SendOp) (s : Senders τ) : Prop where
  notAborted : s.aborted = false
  calls : ∀ i, (s.completed.filter fun p => p.1 = i).map Prod.snd ++ s.left i =
    (programs i).map SendOp.cmd
  ops : ∀ i, ∀ op ∈ (s.threads i).program, op ∈ programs i
  state : s.Quiet ∨ ∃ i a program, s.Busy programs i a program

variable {programs : τ → List SendOp} {s t : Senders τ}

theorem orderly_new : Orderly programs (new programs) where
  notAborted := rfl
  calls _ := rfl
  ops _ _ hop := hop
  state := .inl ⟨fun _ => rfl, rfl, rfl⟩

variable {i : τ} {u : Sender}

/-- What has returned and what is left is not changed by a step of thread `i`. -/
theorem calls_update (returned : List Command)
    (h : ∀ j, (s.completed.filter fun p => p.1 = j).map Prod.snd ++ s.left j =
      (programs j).map SendOp.cmd)
    (hthreads : t.threads = Function.update s.threads i u)
    (hcompleted : t.completed = s.completed ++ returned.map fun cmd => (i, cmd))
    (hleft : returned ++ u.left = s.left i) (j : τ) :
    (t.completed.filter fun p => p.1 = j).map Prod.snd ++ t.left j =
      (programs j).map SendOp.cmd := by
  rw [← h j, hcompleted, left, hthreads, List.filter_append, List.map_append, List.filter_map,
    List.map_map]
  by_cases hj : j = i
  · subst hj
    have hall : (returned.filter
        ((fun p : τ × Command => decide (p.1 = j)) ∘ fun cmd => (j, cmd))) =
        returned := by
      simp [Function.comp_def]
    have hid : (Prod.snd ∘ fun cmd : Command => (j, cmd)) = id := rfl
    rw [Function.update_self, hall, hid, List.map_id, List.append_assoc, hleft]
  · have hnone : (returned.filter
        ((fun p : τ × Command => decide (p.1 = j)) ∘ fun cmd => (i, cmd))) =
        [] := by
      simp [Function.comp_def, Ne.symm hj]
    rw [Function.update_of_ne hj, hnone, List.map_nil, List.append_nil, left]

theorem ops_update (h : ∀ j, ∀ op ∈ (s.threads j).program, op ∈ programs j)
    (hthreads : t.threads = Function.update s.threads i u)
    (hprogram : ∀ op ∈ u.program, op ∈ (s.threads i).program) (j : τ) :
    ∀ op ∈ (t.threads j).program, op ∈ programs j := by
  intro op hop
  rw [hthreads] at hop
  by_cases hj : j = i
  · subst hj
    rw [Function.update_self] at hop
    exact h j op (hprogram op hop)
  · rw [Function.update_of_ne hj] at hop
    exact h j op hop

theorem idle_update (h : ∀ j, j ≠ i → (s.threads j).call = none)
    (hthreads : t.threads = Function.update s.threads i u) :
    ∀ j, j ≠ i → (t.threads j).call = none := by
  intro j hj
  rw [hthreads, Function.update_of_ne hj]
  exact h j hj

variable {program : List SendOp}

theorem call_eq_none_of_update (h : ∀ j, j ≠ i → (s.threads j).call = none)
    (hthreads : t.threads = Function.update s.threads i ⟨none, program⟩) (j : τ) :
    (t.threads j).call = none := by
  by_cases hj : j = i
  · subst hj
    rw [hthreads, Function.update_self]
  · exact idle_update h hthreads j hj

/-- A thread that starts a call is the only one in a call. -/
theorem Orderly.quiet_of_start (h : s.Orderly programs) (hexclusive : Exclusive programs)
    {op : SendOp} (hthread : s.threads i = ⟨none, op :: program⟩)
    (hop : s.lock = none ∨ ∃ cmd, op = .transfer cmd) : s.Quiet := by
  rcases h.state with hquiet | ⟨j, a, rest, hbusy⟩
  · exact hquiet
  have hmem : op ∈ programs i := h.ops i op (by rw [hthread]; exact List.mem_cons_self)
  have hne : j ≠ i := by
    rintro rfl
    have hcall := hbusy.thread
    rw [hthread] at hcall
    cases hcall
  rcases hop with hlock | ⟨cmd, rfl⟩
  · -- the other thread does not hold the mutex, so it transfers
    have hpart : a.part ≠ .send := by
      intro hpart
      have hheld := hbusy.lock
      rw [hlock, if_pos hpart] at hheld
      cases hheld
    have htransfer := hbusy.op
    rw [InCall.op, if_neg hpart] at htransfer
    rw [hexclusive.2 j i a.cmd hne htransfer] at hmem
    cases hmem
  · have hnone := hbusy.op
    rw [hexclusive.2 i j cmd hne.symm hmem] at hnone
    cases hnone

variable {a : InCall}

/-- A thread that is in a call is the only one. -/
theorem Orderly.busy_of_call (h : s.Orderly programs) (hthread : s.threads i = ⟨some a, program⟩) :
    s.Busy programs i a program := by
  rcases h.state with hquiet | ⟨j, b, rest, hbusy⟩
  · have hidle := hquiet.idle i
    rw [hthread] at hidle
    cases hidle
  · have hij : i = j := by
      by_contra hne
      have hidle := hbusy.idle i hne
      rw [hthread] at hidle
      cases hidle
    subst hij
    have hsame := hbusy.thread
    rw [hthread] at hsame
    cases hsame
    exact hbusy

theorem Orderly.start (h : s.Orderly programs) (hquiet : s.Quiet) (a : InCall)
    (hthread : s.threads i = ⟨none, a.op :: program⟩) (hremaining : a.remaining = a.cmd.bytes) :
    Orderly programs { s with
      lock := if a.part = .send then some i else none
      threads := Function.update s.threads i ⟨some a, program⟩ } := by
  refine ⟨h.notAborted, ?_, ?_, .inr ⟨i, a, program, ?_⟩⟩
  · have hleft : [] ++ Sender.left ⟨some a, program⟩ = s.left i := by
      rw [left, hthread]
      simp [Sender.left, InCall.cmd_op]
    refine calls_update [] h.calls ?_ (List.append_nil _).symm hleft
    rfl
  · apply ops_update h.ops rfl
    intro op hop
    rw [hthread]
    exact List.mem_cons_of_mem _ hop
  · have hmem : a.op ∈ programs i := h.ops i _ (by rw [hthread]; exact List.mem_cons_self)
    refine ⟨Function.update_self .., idle_update (fun j _ => hquiet.idle j) rfl, hmem, rfl, ?_⟩
    rw [hremaining]
    exact congrArg (· ++ a.cmd.bytes) hquiet.stream

theorem Orderly.goOn (h : s.Orderly programs) (b : InCall)
    (hthread : s.threads i = ⟨some a, program⟩) (hcmd : b.cmd = a.cmd)
    (hpart : b.part = .send ↔ a.part = .send) {stream : Bytes}
    (hstream : stream ++ b.remaining = s.stream ++ a.remaining) :
    Orderly programs { s with
      threads := Function.update s.threads i ⟨some b, program⟩
      stream := stream } := by
  have hbusy := h.busy_of_call hthread
  refine ⟨h.notAborted, ?_, ?_, .inr ⟨i, b, program, ?_⟩⟩
  · have hleft : [] ++ Sender.left ⟨some b, program⟩ = s.left i := by
      rw [left, hthread]
      simp [Sender.left, hcmd]
    refine calls_update [] h.calls ?_ (List.append_nil _).symm hleft
    rfl
  · apply ops_update h.ops rfl
    intro op hop
    rw [hthread]
    exact hop
  · refine ⟨Function.update_self .., idle_update hbusy.idle rfl, ?_, ?_, ?_⟩
    · simp only [InCall.op, hpart, hcmd]
      exact hbusy.op
    · simp only [hpart]
      exact hbusy.lock
    · rw [hcmd]
      exact hstream.trans hbusy.stream

theorem Orderly.finish (h : s.Orderly programs) (hthread : s.threads i = ⟨some a, program⟩)
    (hremaining : a.remaining = []) :
    Orderly programs (done { s with lock := none } i a.cmd program) := by
  have hbusy := h.busy_of_call hthread
  refine ⟨h.notAborted, ?_, ?_, .inl ⟨?_, rfl, ?_⟩⟩
  · have hleft : [a.cmd] ++ Sender.left ⟨none, program⟩ = s.left i := by
      rw [left, hthread]
      simp [Sender.left]
    refine calls_update [a.cmd] h.calls ?_ ?_ hleft
    · rfl
    · rfl
  · apply ops_update h.ops rfl
    intro op hop
    rw [hthread]
    exact hop
  · exact call_eq_none_of_update hbusy.idle rfl
  · have hstream := hbusy.stream
    rw [hremaining, List.append_nil] at hstream
    change s.stream = ((s.completed ++ [(i, a.cmd)]).map fun p => p.2.bytes).flatten
    simp [hstream, sentBytes]

theorem Orderly.step (h : s.Orderly programs) (hexclusive : Exclusive programs)
    (hstep : s.Step t) : t.Orderly programs := by
  cases hstep with
  | @send i cmd program hthread hlock =>
    have hquiet := h.quiet_of_start hexclusive hthread (.inl hlock)
    apply h.start hquiet ⟨.send, cmd, cmd.bytes⟩ hthread
    exact List.append_nil _
  | @transfer i cmd program hthread =>
    have hquiet := h.quiet_of_start hexclusive hthread (.inr ⟨cmd, rfl⟩)
    have hstart := h.start hquiet ⟨.struct, cmd, cmd.struct⟩ hthread cmd.struct_append_region
    have hpart : SendPart.struct ≠ .send := by decide
    rwa [if_neg hpart, ← hquiet.lock] at hstart
  | @write i a program n hthread hpos hle =>
    apply h.goOn { a with out := a.out.drop n } hthread rfl Iff.rfl
    simp only [InCall.remaining, List.append_assoc]
    rw [← List.append_assoc (a.out.take n), List.take_append_drop]
  | @sent i cmd program hthread => exact h.finish hthread rfl
  | @region i cmd program hthread hregion =>
    have hpart : SendPart.region = .send ↔ SendPart.struct = .send := by decide
    apply h.goOn ⟨.region, cmd, cmd.region⟩ hthread rfl hpart
    exact congrArg (s.stream ++ ·) (List.append_nil _)
  | @abort i cmd program hthread hregion =>
    have hbusy := h.busy_of_call hthread
    exact absurd hregion (hexclusive.1 i cmd hbusy.op)
  | @transferred i cmd program hthread =>
    have hfinish := h.finish hthread rfl
    have hlock : s.lock = none := (h.busy_of_call hthread).lock
    rwa [← hlock] at hfinish

/-- A thread in a call can go on. -/
theorem exists_step_of_call (hthread : s.threads i = ⟨some a, program⟩) : ∃ t, s.Step t := by
  rcases a with ⟨part, cmd, _ | ⟨byte, out⟩⟩
  · cases part with
    | send => exact ⟨_, .sent hthread⟩
    | struct =>
      by_cases hregion : regionSize cmd.bytes = 0
      · exact ⟨_, .abort hthread hregion⟩
      · exact ⟨_, .region hthread hregion⟩
    | region => exact ⟨_, .transferred hthread⟩
  · exact ⟨_, .write hthread Nat.one_pos (Nat.succ_le_succ (Nat.zero_le _))⟩

/-- Where only one thread at a time is in a call, nothing is corrupted. -/
theorem Orderly.intact (h : s.Orderly programs) : s.Intact programs := by
  refine ⟨h.notAborted, h.calls, ?_, ?_⟩
  · rcases h.state with hquiet | ⟨i, a, program, hbusy⟩
    · by_cases hleft : ∀ i, s.left i = []
      · exact .inl hleft
      · right
        obtain ⟨i, hi⟩ := not_forall.1 hleft
        have hidle := hquiet.idle i
        rcases hthread : s.threads i with ⟨call, program⟩
        rw [hthread] at hidle
        cases hidle
        cases program with
        | nil => exact absurd (by rw [left, hthread]; rfl) hi
        | cons op program =>
          cases op with
          | send cmd =>
            obtain ⟨op, hop⟩ := (Step.send hthread hquiet.lock).exists_op h.notAborted
            exact ⟨op, _, hop⟩
          | transfer cmd =>
            obtain ⟨op, hop⟩ := (Step.transfer hthread).exists_op h.notAborted
            exact ⟨op, _, hop⟩
    · right
      obtain ⟨t, hstep⟩ := exists_step_of_call hbusy.thread
      obtain ⟨op, hop⟩ := hstep.exists_op h.notAborted
      exact ⟨op, t, hop⟩
  · intro hidle
    rcases h.state with hquiet | ⟨i, a, program, hbusy⟩
    · have hframed : ∀ m ∈ s.completed.map (fun p => p.2.bytes), commandFraming.Framed m := by
        intro m hm
        obtain ⟨p, -, rfl⟩ := List.mem_map.1 hm
        exact Command.framed p.2
      rw [hquiet.stream, sentBytes, Framing.run_flatten hframed]
      exact ⟨rfl, List.Perm.refl _⟩
    · have hcall := hidle i
      rw [hbusy.thread] at hcall
      cases hcall

/-! ## Runs that go wrong -/

/-- From `s` to `t` only thread `i` has made steps: it is now `u`, has written `bytes`, and its
calls for the commands in `returned` have returned. -/
structure Did (s t : Senders τ) (i : τ) (u : Sender) (bytes : Bytes) (returned : List Command) :
    Prop where
  reaches : Reaches senderStep (fun _ _ => True) s t
  notAborted : t.aborted = false
  threads : t.threads = Function.update s.threads i u
  stream : t.stream = s.stream ++ bytes
  completed : t.completed = s.completed ++ returned.map fun cmd => (i, cmd)

section Did

variable {w : Senders τ} {i : τ} {a : InCall} {u v : Sender} {op : SendOp}
  {program : List SendOp} {b c : Bytes} {q r : List Command}

theorem Did.thread (h : s.Did t i u b r) : t.threads i = u := by
  rw [h.threads, Function.update_self]

theorem Did.other (h : s.Did t i u b r) {j : τ} (hj : j ≠ i) : t.threads j = s.threads j := by
  rw [h.threads, Function.update_of_ne hj]

theorem Did.trans (h : s.Did t i u b q) (h' : t.Did w i v c r) :
    s.Did w i v (b ++ c) (q ++ r) where
  reaches := h.reaches.trans h'.reaches
  notAborted := h'.notAborted
  threads := by rw [h'.threads, h.threads, Function.update_idem]
  stream := by rw [h'.stream, h.stream, List.append_assoc]
  completed := by rw [h'.completed, h.completed, List.map_append, List.append_assoc]

theorem Step.reaches (h : s.Step t) (haborted : s.aborted = false) :
    Reaches senderStep (fun _ _ => True) s t := by
  obtain ⟨op, hop⟩ := h.exists_op haborted
  exact Relation.ReflTransGen.single ⟨op, trivial, hop⟩

theorem exists_write (hthread : s.threads i = ⟨some a, program⟩) (haborted : s.aborted = false)
    {n : Nat} (hle : n ≤ a.out.length) :
    ∃ t, s.Did t i ⟨some { a with out := a.out.drop n }, program⟩ (a.out.take n) [] ∧
      t.lock = s.lock := by
  rcases Nat.eq_zero_or_pos n with rfl | hpos
  · refine ⟨s, ⟨.refl, haborted, ?_, (List.append_nil _).symm, (List.append_nil _).symm⟩, rfl⟩
    rw [List.drop_zero, ← hthread, Function.update_eq_self]
  · exact ⟨_, ⟨(Step.write hthread hpos hle).reaches haborted, haborted, rfl, rfl,
      (List.append_nil _).symm⟩, rfl⟩

/-- A call that is not a transfer of an empty region returns. -/
theorem exists_done (hthread : s.threads i = ⟨some a, program⟩) (haborted : s.aborted = false)
    (hregion : a.part = .struct → regionSize a.cmd.bytes ≠ 0) :
    ∃ t, s.Did t i ⟨none, program⟩ a.remaining [a.cmd] ∧
      t.lock = if a.part = .send then none else s.lock := by
  obtain ⟨t, ht, hlock⟩ := exists_write hthread haborted (le_refl a.out.length)
  rw [List.drop_length, List.take_length] at ht
  obtain ⟨part, cmd, out⟩ := a
  cases part with
  | send =>
    refine ⟨_, ht.trans ⟨(Step.sent ht.thread).reaches ht.notAborted, ht.notAborted, rfl,
      (List.append_nil _).symm, rfl⟩, rfl⟩
  | struct =>
    -- the loop for the struct is followed by one for the region
    have hnext : t.Did _ i ⟨some ⟨.region, cmd, cmd.region⟩, program⟩ [] [] :=
      ⟨(Step.region ht.thread (hregion rfl)).reaches ht.notAborted, ht.notAborted, rfl,
        (List.append_nil _).symm, (List.append_nil _).symm⟩
    obtain ⟨w, hw, hlock'⟩ := exists_write hnext.thread hnext.notAborted
      (le_refl cmd.region.length)
    rw [List.drop_length, List.take_length] at hw
    have hend : w.Did _ i ⟨none, program⟩ [] [cmd] :=
      ⟨(Step.transferred hw.thread).reaches hw.notAborted, hw.notAborted, rfl,
        (List.append_nil _).symm, rfl⟩
    refine ⟨w.done i cmd program, ?_, hlock'.trans hlock⟩
    simpa [InCall.remaining] using (ht.trans hnext).trans (hw.trans hend)
  | region =>
    refine ⟨_, ht.trans ⟨(Step.transferred ht.thread).reaches ht.notAborted, ht.notAborted, rfl,
      (List.append_nil _).symm, rfl⟩, hlock⟩

/-- A call begins. A send has to wait for the mutex. -/
theorem exists_start (hthread : s.threads i = ⟨none, op :: program⟩) (haborted : s.aborted = false)
    (hlock : (∃ cmd, op = .send cmd) → s.lock = none) :
    ∃ t a, s.Did t i ⟨some a, program⟩ [] [] ∧ a.cmd = op.cmd ∧ a.op = op ∧
      a.remaining = op.cmd.bytes ∧ a.out ≠ [] ∧
      t.lock = if a.part = .send then some i else s.lock := by
  cases op with
  | send cmd =>
    have hstep := Step.send hthread (hlock ⟨cmd, rfl⟩)
    exact ⟨_, ⟨.send, cmd, cmd.bytes⟩, ⟨hstep.reaches haborted, haborted, rfl,
      (List.append_nil _).symm, (List.append_nil _).symm⟩, rfl, rfl, List.append_nil _,
      cmd.bytes_ne_nil, rfl⟩
  | transfer cmd =>
    have hstep := Step.transfer hthread
    exact ⟨_, ⟨.struct, cmd, cmd.struct⟩, ⟨hstep.reaches haborted, haborted, rfl,
      (List.append_nil _).symm, (List.append_nil _).symm⟩, rfl, rfl, cmd.struct_append_region,
      cmd.struct_ne_nil, rfl⟩

theorem exists_call (hthread : s.threads i = ⟨none, op :: program⟩) (haborted : s.aborted = false)
    (hlock : (∃ cmd, op = .send cmd) → s.lock = none)
    (hregion : ∀ cmd, op = .transfer cmd → regionSize cmd.bytes ≠ 0) :
    ∃ t, s.Did t i ⟨none, program⟩ op.cmd.bytes [op.cmd] ∧ t.lock = s.lock := by
  obtain ⟨t, a, ht, hcmd, hop, hremaining, -, hheld⟩ := exists_start hthread haborted hlock
  have hstruct : a.part = .struct → regionSize a.cmd.bytes ≠ 0 := by
    intro hpart
    apply hregion
    rw [← hop, InCall.op, if_neg (by rw [hpart]; decide)]
  obtain ⟨w, hw, hfree⟩ := exists_done ht.thread ht.notAborted hstruct
  have hdid := ht.trans hw
  rw [hremaining, hcmd] at hdid
  refine ⟨w, hdid, ?_⟩
  rw [hfree, hheld]
  by_cases hpart : a.part = .send
  · rw [if_pos hpart]
    refine (hlock ⟨a.cmd, ?_⟩).symm
    rw [← hop, InCall.op, if_pos hpart]
  · rw [if_neg hpart, if_neg hpart]

/-- Several calls of one thread, without the others. -/
theorem exists_calls {ops : List SendOp} (hthread : s.threads i = ⟨none, ops ++ program⟩)
    (haborted : s.aborted = false) (hlock : s.lock = none)
    (hregion : ∀ cmd, .transfer cmd ∈ ops → regionSize cmd.bytes ≠ 0) :
    ∃ t, s.Did t i ⟨none, program⟩ (ops.map fun op => op.cmd.bytes).flatten
        (ops.map SendOp.cmd) ∧ t.lock = none := by
  induction ops generalizing s with
  | nil =>
    refine ⟨s, ⟨.refl, haborted, ?_, (List.append_nil _).symm, (List.append_nil _).symm⟩, hlock⟩
    rw [List.nil_append] at hthread
    rw [← hthread, Function.update_eq_self]
  | cons op ops ih =>
    have hop : ∀ cmd, op = .transfer cmd → regionSize cmd.bytes ≠ 0 := by
      intro cmd heq
      apply hregion
      rw [heq]
      exact List.mem_cons_self
    obtain ⟨t, ht, hfree⟩ := exists_call hthread haborted (fun _ => hlock) hop
    obtain ⟨w, hw, hfree'⟩ := ih ht.thread ht.notAborted (hfree.trans hlock)
      fun cmd hmem => hregion cmd (List.mem_cons_of_mem op hmem)
    exact ⟨w, ht.trans hw, hfree'⟩

end Did

variable {j : τ}

/-- While the first byte of one call is written, a call of another thread is made. This can happen
if one of the two is a transfer. -/
theorem exists_inserted (hij : i ≠ j) {x y : SendOp} {px py : List SendOp}
    (hi : s.threads i = ⟨none, x :: px⟩) (hj : s.threads j = ⟨none, y :: py⟩)
    (hidle : ∀ k, (s.threads k).call = none) (haborted : s.aborted = false) (hlock : s.lock = none)
    (hregion : ∀ cmd, x = .transfer cmd ∨ y = .transfer cmd → regionSize cmd.bytes ≠ 0)
    (htransfer : (∃ cmd, x = .transfer cmd) ∨ ∃ cmd, y = .transfer cmd) :
    ∃ t, Reaches senderStep (fun _ _ => True) s t ∧ (∀ k, (t.threads k).call = none) ∧
      t.stream = s.stream ++
        (x.cmd.bytes.take 1 ++ y.cmd.bytes ++ x.cmd.bytes.drop 1) ∧
      t.completed = s.completed ++ [(j, y.cmd), (i, x.cmd)] := by
  obtain ⟨s₁, a, h₁, hcmd, hop, hremaining, hout, hheld⟩ :=
    exists_start hi haborted fun _ => hlock
  have hone : 1 ≤ a.out.length := List.length_pos_of_ne_nil hout
  obtain ⟨s₂, h₂, hheld₂⟩ := exists_write h₁.thread h₁.notAborted hone
  have h₂' := h₁.trans h₂
  -- the other call needs the mutex only if this one does not hold it
  have hfree : (∃ cmd, y = .send cmd) → s₂.lock = none := by
    rintro ⟨cmd, rfl⟩
    obtain ⟨c, hc⟩ : ∃ c, x = .transfer c := htransfer.resolve_right fun ⟨c, hc⟩ => by cases hc
    have hpart : a.part ≠ .send := by
      intro hpart
      rw [InCall.op, if_pos hpart, hc] at hop
      cases hop
    rw [hheld₂, hheld, if_neg hpart, hlock]
  obtain ⟨s₃, h₃, hheld₃⟩ := exists_call ((h₂'.other hij.symm).trans hj) h₂.notAborted hfree
    fun cmd hy => hregion cmd (.inr hy)
  have hstruct : a.part = .struct → regionSize a.cmd.bytes ≠ 0 := by
    intro hpart
    apply hregion
    left
    rw [← hop, InCall.op, if_neg (by rw [hpart]; decide)]
  obtain ⟨s₄, h₄, hheld₄⟩ := exists_done (a := { a with out := a.out.drop 1 })
    ((h₃.other hij).trans h₂'.thread) h₃.notAborted hstruct
  -- the first byte is the first one of the command
  have hbytes : x.cmd.bytes = a.out ++ if a.part = .struct then a.cmd.region else [] :=
    hremaining.symm
  refine ⟨s₄, h₂'.reaches.trans (h₃.reaches.trans h₄.reaches), ?_, ?_, ?_⟩
  · intro k
    rw [h₄.threads, h₃.threads, h₂'.threads]
    by_cases hki : k = i
    · subst hki
      rw [Function.update_self]
    · rw [Function.update_of_ne hki]
      by_cases hkj : k = j
      · subst hkj
        rw [Function.update_self]
      · rw [Function.update_of_ne hkj, Function.update_of_ne hki]
        exact hidle k
  · rw [h₄.stream, h₃.stream, h₂'.stream, hbytes, List.take_append_of_le_length hone,
      List.drop_append_of_le_length hone, InCall.remaining]
    simp only [List.append_assoc, List.nil_append]
  · rw [h₄.completed, h₃.completed, h₂'.completed]
    simp [hcmd]

theorem exists_first_transfer {ops : List SendOp} {cmd : Command} (hmem : .transfer cmd ∈ ops)
    (hzero : regionSize cmd.bytes = 0) :
    ∃ before c after, ops = before ++ .transfer c :: after ∧
      (∀ d, .transfer d ∈ before → regionSize d.bytes ≠ 0) ∧ regionSize c.bytes = 0 := by
  induction ops with
  | nil => cases hmem
  | cons op ops ih =>
    by_cases hop : ∃ c, op = .transfer c ∧ regionSize c.bytes = 0
    · obtain ⟨c, rfl, hc⟩ := hop
      exact ⟨[], c, ops, rfl, (fun d hd => nomatch hd), hc⟩
    · have htail : .transfer cmd ∈ ops := by
        rcases List.mem_cons.1 hmem with heq | htail
        · exact absurd ⟨cmd, heq.symm, hzero⟩ hop
        · exact htail
      obtain ⟨before, c, after, rfl, hbefore, hc⟩ := ih htail
      refine ⟨op :: before, c, after, rfl, ?_, hc⟩
      intro d hd hd0
      rcases List.mem_cons.1 hd with heq | hd
      · exact hop ⟨d, heq.symm, hd0⟩
      · exact hbefore d hd hd0

/-- With a longer command behind its first byte, a command announces a size that is never
reached. -/
theorem run_inserted {x y : Command} (hle : x.bytes.length ≤ y.bytes.length) :
    (commandFraming.run (.head []) (x.bytes.take 1 ++ y.bytes ++ x.bytes.drop 1)).2 = [] := by
  have hx := x.length_ge
  have hy := y.length_ge
  have hlt := y.size_lt
  have hsize := y.size_eq
  rw [commandBaseSize] at hx hy
  have hone : (x.bytes.take 1).length = 1 := List.length_take_of_le (by omega)
  have hlength : (x.bytes.take 1 ++ y.bytes ++ x.bytes.drop 1).length =
      x.bytes.length + y.bytes.length := by
    rw [List.length_append, List.length_append, hone, List.length_drop]
    omega
  -- the fields are read one byte too early in the inserted command
  have hfield : ∀ off, off + 9 ≤ 136 →
      slice (x.bytes.take 1 ++ y.bytes ++ x.bytes.drop 1) (off + 1) 8 = slice y.bytes off 8 := by
    intro off hoff
    rw [List.append_assoc, Nat.add_comm off 1]
    have hright := slice_append_right (x.bytes.take 1) (y.bytes ++ x.bytes.drop 1) off 8
    rw [hone] at hright
    rw [hright]
    exact slice_append_left _ (by omega)
  have hcs := leNat_slice_shifted y.bytes 47 8 (by omega) (by decide)
    (by change commandSize y.bytes < _; omega)
  have hrs := leNat_slice_shifted y.bytes 63 8 (by omega) (by decide)
    (by change regionSize y.bytes < _; omega)
  generalize hX : x.bytes.take 1 ++ y.bytes ++ x.bytes.drop 1 = stream at hlength hfield ⊢
  have hheader : commandBaseSize ≤ stream.length := by
    rw [commandBaseSize]
    omega
  have htake : (stream.take commandBaseSize).length = commandBaseSize :=
    List.length_take_of_le hheader
  obtain ⟨-, -, hs, hr⟩ := fields_append (stream.drop commandBaseSize) htake.ge
  rw [List.take_append_drop] at hs hr
  apply Framing.run_incomplete hheader
  change stream.length - commandBaseSize < (commandSize (stream.take commandBaseSize) +
    regionSize (stream.take commandBaseSize) + (2 ^ 64 - commandBaseSize)) % 2 ^ 64
  rw [← hs, ← hr, commandSize, regionSize, hfield 47 (by decide), hfield 63 (by decide), hlength,
    commandBaseSize]
  change 256 * commandSize y.bytes ≤ _ ∧ _ < 256 * commandSize y.bytes + 256 at hcs
  change 256 * regionSize y.bytes ≤ _ ∧ _ < 256 * regionSize y.bytes + 256 at hrs
  omega

variable {programs : τ → List SendOp}

/-- If all runs are intact, no transferred command has an empty region. -/
theorem regionSize_ne_zero_of_intact
    (h : ∀ s, Reaches senderStep (fun _ _ => True) (new programs) s → s.Intact programs) (i : τ)
    (cmd : Command) (hmem : .transfer cmd ∈ programs i) : regionSize cmd.bytes ≠ 0 := by
  intro hzero
  -- the first such transfer of the thread
  obtain ⟨ops, c, rest, hsplit, hbefore, hc⟩ : ∃ ops c rest,
      programs i = ops ++ .transfer c :: rest ∧
        (∀ d, .transfer d ∈ ops → regionSize d.bytes ≠ 0) ∧ regionSize c.bytes = 0 :=
    exists_first_transfer hmem hzero
  have hthread : (new programs).threads i = ⟨none, ops ++ .transfer c :: rest⟩ := by
    rw [← hsplit]
    rfl
  obtain ⟨s₁, h₁, -⟩ := exists_calls hthread rfl rfl hbefore
  have h₂ := (Step.transfer h₁.thread).reaches h₁.notAborted
  obtain ⟨s₃, h₃, -⟩ := exists_write (s := { s₁ with
    threads := Function.update s₁.threads i ⟨some ⟨.struct, c, c.struct⟩, rest⟩ })
    (Function.update_self ..) h₁.notAborted (le_refl c.struct.length)
  rw [List.drop_length] at h₃
  have h₄ := (Step.abort h₃.thread hc).reaches h₃.notAborted
  have hintact := h _ (h₁.reaches.trans (h₂.trans (h₃.reaches.trans h₄)))
  exact Bool.noConfusion hintact.notAborted

/-- After complete commands, an insertion as above is not intact. -/
theorem not_intact_of_inserted {k : τ} {x y : Command} {ops : List SendOp}
    (h : ∀ s, Reaches senderStep (fun _ _ => True) (new programs) s → s.Intact programs)
    (hreaches : Reaches senderStep (fun _ _ => True) (new programs) s)
    (hstream : s.stream = [] ++ (ops.map fun op => op.cmd.bytes).flatten)
    (hcompleted : s.completed = [] ++ (ops.map SendOp.cmd).map fun cmd => (k, cmd))
    (hinserted : ∃ t, Reaches senderStep (fun _ _ => True) s t ∧ (∀ k, (t.threads k).call = none) ∧
      t.stream = s.stream ++ (x.bytes.take 1 ++ y.bytes ++ x.bytes.drop 1) ∧
      t.completed = s.completed ++ [(j, y), (i, x)])
    (hle : x.bytes.length ≤ y.bytes.length) : False := by
  obtain ⟨t, ht, hidle, hstream', hcompleted'⟩ := hinserted
  have hperm := ((h t (hreaches.trans ht)).received hidle).2
  have hframed : ∀ m ∈ ops.map (fun op => op.cmd.bytes), commandFraming.Framed m := by
    intro m hm
    obtain ⟨op, -, rfl⟩ := List.mem_map.1 hm
    exact op.cmd.framed
  rw [hstream', hstream, List.nil_append, Framing.run_append, Framing.run_flatten hframed,
    run_inserted hle] at hperm
  have hlength := hperm.length_eq
  rw [hcompleted', hcompleted] at hlength
  simp at hlength

/-- If all runs are intact, nobody sends beside a thread that transfers. -/
theorem program_eq_nil_of_intact
    (h : ∀ s, Reaches senderStep (fun _ _ => True) (new programs) s → s.Intact programs)
    (hij : i ≠ j) {cmd : Command} (hmem : .transfer cmd ∈ programs i) : programs j = [] := by
  cases hj : programs j with
  | nil => rfl
  | cons y py =>
    exfalso
    have hregion := regionSize_ne_zero_of_intact h
    obtain ⟨ops, rest, hsplit⟩ := List.append_of_mem hmem
    have hthread : (new programs).threads i = ⟨none, ops ++ .transfer cmd :: rest⟩ := by
      rw [← hsplit]
      rfl
    obtain ⟨s₁, h₁, hlock⟩ := exists_calls hthread rfl rfl
      fun d hd => hregion i d (by rw [hsplit]; exact List.mem_append_left _ hd)
    have hidle : ∀ k, (s₁.threads k).call = none :=
      call_eq_none_of_update (fun k _ => rfl) h₁.threads
    have hyj : s₁.threads j = ⟨none, y :: py⟩ := by
      rw [h₁.other hij.symm, ← hj]
      rfl
    have hregions : ∀ c, SendOp.transfer cmd = .transfer c ∨ y = .transfer c →
        regionSize c.bytes ≠ 0 := by
      rintro c (heq | rfl)
      · cases heq
        exact hregion i cmd hmem
      · exact hregion j c (by rw [hj]; exact List.mem_cons_self)
    -- the longer one of the two commands is written behind the first byte of the shorter one
    rcases Nat.le_total cmd.bytes.length y.cmd.bytes.length with hle | hle
    · exact not_intact_of_inserted h h₁.reaches h₁.stream h₁.completed
        (exists_inserted hij h₁.thread hyj hidle h₁.notAborted hlock hregions (.inl ⟨cmd, rfl⟩))
        hle
    · exact not_intact_of_inserted h h₁.reaches h₁.stream h₁.completed
        (exists_inserted hij.symm hyj h₁.thread hidle h₁.notAborted hlock
          (fun c hc => hregions c hc.symm) (.inr ⟨cmd, rfl⟩)) hle

end Senders

/-- Every interleaving of the calls of any threads is intact if and only if no transferred command
has an empty data region and no other thread makes a call beside one that transfers. -/
theorem senders_intact_iff (programs : τ → List SendOp) :
    (∀ s, Reaches senderStep (fun _ _ => True) (Senders.new programs) s → s.Intact programs) ↔
      Exclusive programs := by
  constructor
  · intro h
    refine ⟨Senders.regionSize_ne_zero_of_intact h, ?_⟩
    intro i j cmd hij hmem
    exact Senders.program_eq_nil_of_intact h hij hmem
  · intro hexclusive s hs
    apply Senders.Orderly.intact
    refine hs.invariant (I := Senders.Orderly programs) ?_ Senders.orderly_new
    intro u op v hu _ hstep
    exact hu.step hexclusive (Senders.step_of_senderStep hstep)

end Model

/-- A command with one byte of data. -/
def oneByteCommand : Command :=
  .ofBase (CommandBase.new commandBaseSize 1 (List.replicate 64 0) length_zeroArea) [] [9]
    rfl rfl (Nat.lt_of_sub_pos (Nat.succ_pos _))

set_option maxRecDepth 8000 in
/-- The first byte of a transferred command is followed by a command that another thread sends, and
the receiver obtains nothing. A transfer of a command without data fails an assertion. -/
theorem transfer_corrupts_stream :
    (∃ s : Senders Bool, Reaches senderStep (fun _ _ => True)
        (.new fun i => if i then [.transfer oneByteCommand] else [.send oneByteCommand]) s ∧
      (∀ i, s.left i = []) ∧ s.aborted = false ∧
      (commandFraming.run (.head []) s.stream).2 = []) ∧
    ∃ s : Senders Unit, Reaches senderStep (fun _ _ => True)
      (.new fun _ => [.transfer (.ofIds 1 1)]) s ∧ s.aborted = true := by
  refine ⟨⟨_, Reaches.of_runGuarded [.call true, .write true 1, .call false, .write false 137,
    .next false, .write true 135, .next true, .write true 1, .next true] rfl, ?_, rfl, by decide⟩,
    ⟨_, Reaches.of_runGuarded [.call (), .write () 136, .next ()] rfl, rfl⟩⟩
  intro i
  cases i with
  | false => rfl
  | true => rfl

end Ava.Channel
