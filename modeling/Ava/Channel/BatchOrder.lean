import Ava.Channel.Batch
import Ava.Lib.Fifo
import Mathlib.Data.List.Forall2

/-!
# Batches keep the order of commands

To the worker the two queues of the batch thread look like one first-in first-out queue. A batch
that is sent is the concatenation of its commands, in order, since the second queue of `batch_emit`
turns the order around twice; the worker's loop takes the concatenation apart at the size fields. So
a round of the thread is a number of steps of the queue, in which the collected commands leave it
together.

The collected commands are asynchronous and fewer than `BATCH_SIZE`, which also bounds the size of a
batch.
-/

set_option autoImplicit false

namespace Ava.Channel

open Ava.Lib

/-! ## A batch and back -/

/-- The bytes of a batch. -/
def batchBytes (cmds : List Command) : Bytes := (cmds.map Command.bytes).flatten

@[simp] theorem batchBytes_nil : batchBytes [] = [] := rfl

@[simp] theorem batchBytes_cons (cmd : Command) (cmds : List Command) :
    batchBytes (cmd :: cmds) = cmd.bytes ++ batchBytes cmds := rfl

theorem batchCollect_eq (active queue : List Command) (total : Nat)
    (h : total + (batchBytes active).length < 2 ^ 64) :
    batchCollect active queue total =
      (active.reverse ++ queue, total + (batchBytes active).length) := by
  induction active generalizing queue total with
  | nil => rfl
  | cons cmd active ih =>
    rw [batchBytes_cons, List.length_append] at h ⊢
    rw [batchCollect, cmd.size_eq, Nat.mod_eq_of_lt (by omega), ih _ _ (by omega),
      List.reverse_cons, List.append_assoc, Nat.add_assoc]
    rfl

theorem copyCommand_eq (cmd : Command) (copied rest : Bytes) (h : cmd.bytes.length ≤ rest.length) :
    copyCommand cmd (copied ++ rest, copied.length) =
      some (copied ++ cmd.bytes ++ rest.drop cmd.bytes.length,
        (copied ++ cmd.bytes).length) := by
  have hsplit : copied ++ rest =
      copied ++ rest.take cmd.bytes.length ++ rest.drop cmd.bytes.length := by
    rw [List.append_assoc, List.take_append_drop]
  have hfits : ¬ (copied ++ rest).length < copied.length + cmd.bytes.length := by
    rw [List.length_append]
    omega
  rw [copyCommand]
  simp only [cmd.size_eq, if_neg hfits]
  rw [slice_zero_length, hsplit, writeAt_append_middle copied _ _ cmd.bytes (by simp [h]),
    List.length_append]

/-- The loop that copies fills the buffer from the front. -/
theorem foldlM_copyCommand (cmds : List Command) (copied rest : Bytes)
    (h : rest.length = (batchBytes cmds).length) :
    cmds.foldlM (fun r cmd => copyCommand cmd r) (copied ++ rest, copied.length) =
      some (copied ++ batchBytes cmds, (copied ++ batchBytes cmds).length) := by
  induction cmds generalizing copied rest with
  | nil =>
    rw [batchBytes_nil, List.length_nil, List.length_eq_zero_iff] at h
    rw [h]
    simp
  | cons cmd cmds ih =>
    rw [batchBytes_cons, List.length_append] at h
    rw [List.foldlM_cons, copyCommand_eq cmd copied rest (by omega)]
    change cmds.foldlM _ _ = _
    rw [ih _ _ (by rw [List.length_drop]; omega), batchBytes_cons, List.append_assoc]

/-- A batch is the concatenation of its commands. -/
theorem batchEmit_eq (fresh : Nat → UInt8) (active : List Command)
    (h : (batchBytes active).length < 2 ^ 64) :
    batchEmit fresh active = some (batchBytes active, (batchBytes active).length) := by
  rw [batchEmit, batchCollect_eq active [] 0 (by omega), List.append_nil, Nat.zero_add]
  dsimp only
  have hcopy := foldlM_copyCommand active [] ((List.range (batchBytes active).length).map fresh)
    (by simp)
  rw [List.nil_append, List.length_nil, List.nil_append] at hcopy
  rw [List.foldrM_reverse, hcopy]
  simp

/-- The loop of the worker takes a batch apart. -/
theorem batchExecute_eq (cmds : List Command) (executed : Bytes) (rounds total : Nat)
    (htotal : total = executed.length + (batchBytes cmds).length) (hrounds : cmds.length < rounds) :
    batchExecute (executed ++ batchBytes cmds) total rounds executed.length =
      some (cmds.map Command.bytes) := by
  induction cmds generalizing executed rounds with
  | nil =>
    obtain ⟨rounds, rfl⟩ := Nat.exists_eq_succ_of_ne_zero (by omega : rounds ≠ 0)
    rw [batchExecute, if_neg (by simp [htotal])]
    rfl
  | cons cmd cmds ih =>
    obtain ⟨rounds, rfl⟩ := Nat.exists_eq_succ_of_ne_zero (by omega : rounds ≠ 0)
    have hlength := cmd.length_ge
    rw [batchBytes_cons, List.length_append] at htotal
    rw [commandBaseSize] at hlength
    obtain ⟨-, -, hcs, hrs⟩ := fields_append (batchBytes cmds) cmd.length_ge
    have hslice : slice (executed ++ (cmd.bytes ++ batchBytes cmds)) executed.length
        cmd.bytes.length = cmd.bytes := by
      have hright := slice_append_right executed (cmd.bytes ++ batchBytes cmds) 0 cmd.bytes.length
      rwa [Nat.add_zero, slice_zero_append] at hright
    have hrest := ih (executed ++ cmd.bytes) rounds (by rw [List.length_append]; omega)
      (by rw [List.length_cons] at hrounds; omega)
    rw [List.append_assoc, List.length_append] at hrest
    rw [batchExecute, if_pos (by omega), batchBytes_cons, List.drop_left]
    simp only [hcs, hrs, cmd.size_eq, hslice, hrest, Option.map_some, List.map_cons]

theorem length_batchBytes_le (cmds : List Command) :
    (batchBytes cmds).length ≤ cmds.length * 2 ^ 47 := by
  induction cmds with
  | nil => simp
  | cons cmd cmds ih =>
    have hlt := cmd.size_lt
    rw [batchBytes_cons, List.length_append, List.length_cons]
    omega

theorem length_le_batchBytes (cmds : List Command) : cmds.length ≤ (batchBytes cmds).length := by
  induction cmds with
  | nil => simp
  | cons cmd cmds ih =>
    have hge := cmd.length_ge
    rw [commandBaseSize] at hge
    rw [batchBytes_cons, List.length_append, List.length_cons]
    omega

/-- What the worker executes for a batch is what was put into it. -/
theorem execute_batchEmit (γ : Type) (fresh : Nat → UInt8) (cmds : List Command)
    (h : cmds.length ≤ BATCH_SIZE) :
    ∃ r, batchEmit fresh cmds = some r ∧
      (Emission.batch r.1 r.2 : Emission γ).execute = some (cmds.map Command.bytes) := by
  have hle := length_batchBytes_le cmds
  rw [BATCH_SIZE] at h
  refine ⟨_, batchEmit_eq fresh cmds (by omega), ?_⟩
  have hcount := length_le_batchBytes cmds
  exact batchExecute_eq cmds [] _ _ (by simp) (by omega)

/-! ## The thread id -/

/-- The two blocks differ at most in their `thread_id`. -/
def SameExceptThreadId (a b : Bytes) : Prop :=
  a.length = b.length ∧ ∀ i, ¬ (16 ≤ i ∧ i < 24) → a[i]? = b[i]?

theorem SameExceptThreadId.refl (a : Bytes) : SameExceptThreadId a a := ⟨rfl, fun _ _ => rfl⟩

theorem sameExceptThreadId_setThreadId (cmd : Command) (threadId : Nat) :
    SameExceptThreadId (setThreadId cmd.bytes threadId) cmd.bytes := by
  have hge := cmd.length_ge
  rw [commandBaseSize] at hge
  refine ⟨length_writeAt_leBytes (by omega), fun i hi => ?_⟩
  rw [setThreadId, getElem?_writeAt (by rw [length_leBytes]; omega), if_neg]
  rw [length_leBytes]
  exact hi

/-! ## The queues as one queue -/

namespace CommandBatch

variable {γ : Type} {b b' : CommandBatch γ} {f g : Flow (CommandWrapper γ)}

/-- The two queues together are the waiting part of one queue, and what the worker has executed is
what has left it. -/
structure Carries (b : CommandBatch γ) (f : Flow (CommandWrapper γ)) : Prop where
  entered : f.entered = b.inserted
  waiting : ∃ active, f.waiting = active ++ b.pendingCmds ∧
    b.activeCmds = active.map CommandWrapper.cmd ∧ (∀ w ∈ active, w.isAsync = true) ∧
    active.length < BATCH_SIZE
  left : ∃ executed, b.executed = some executed ∧
    List.Forall₂ SameExceptThreadId executed (f.left.map fun w => w.cmd.bytes)

theorem executed_append {executed cmds : List Bytes} {e : Emission γ}
    (h : b.executed = some executed) (he : e.execute = some cmds) (active : List Command)
    (pending : List (CommandWrapper γ)) :
    ({ b with pendingCmds := pending, activeCmds := active, emitted := b.emitted ++ [e] } :
      CommandBatch γ).executed = some (executed ++ cmds) := by
  obtain ⟨parts, hparts, rfl⟩ := Option.map_eq_some_iff.1 h
  rw [CommandBatch.executed, List.mapM_append, hparts]
  simp [he]

theorem carries_empty : Carries (empty : CommandBatch γ) ⟨[], [], []⟩ :=
  ⟨rfl, ⟨[], rfl, rfl, by simp, Nat.succ_pos _⟩, ⟨[], rfl, .nil⟩⟩

theorem Carries.insert (h : Carries b f) (wrap : CommandWrapper γ) :
    Carries (b.insertCommand wrap) ⟨f.entered ++ [wrap], f.waiting ++ [wrap], f.left⟩ := by
  obtain ⟨active, hwaiting, hactive, hasync, hlength⟩ := h.waiting
  refine ⟨by rw [h.entered]; rfl, ⟨active, ?_, hactive, hasync, hlength⟩, h.left⟩
  rw [hwaiting, List.append_assoc]
  rfl

theorem carries_emit (hleft : ∃ executed, b.executed = some executed ∧
      List.Forall₂ SameExceptThreadId executed (f.left.map fun w => w.cmd.bytes))
    {active : List (CommandWrapper γ)} (hlength : active.length ≤ BATCH_SIZE)
    (pending : List (CommandWrapper γ)) (fresh : Nat → UInt8) :
    ∃ r, batchEmit fresh (active.map CommandWrapper.cmd) = some r ∧
      Carries { b with
          pendingCmds := pending, activeCmds := [], emitted := b.emitted ++ [.batch r.1 r.2] }
        ⟨b.inserted, pending, f.left ++ active⟩ := by
  obtain ⟨executed, hexecuted, hsame⟩ := hleft
  obtain ⟨r, hr, hexecute⟩ := execute_batchEmit γ fresh (active.map CommandWrapper.cmd)
    (by rwa [List.length_map])
  refine ⟨r, hr, rfl, ⟨[], rfl, rfl, by simp, Nat.succ_pos _⟩,
    ⟨_, executed_append hexecuted hexecute [] pending, ?_⟩⟩
  rw [List.map_append, List.map_map]
  exact List.rel_append hsame (List.forall₂_same.2 fun _ _ => .refl _)

/-- A round that has taken a command out of the pending queue. -/
theorem Carries.process (h : Carries b f) {wrap : CommandWrapper γ}
    {pending : List (CommandWrapper γ)} (hpending : b.pendingCmds = wrap :: pending)
    (threadId : Nat) (elapsed : Bool) (fresh : Nat → UInt8) :
    ∃ b' g, step threadId b (.process elapsed fresh) = some b' ∧
      Relation.ReflTransGen Flow.Keeps f g ∧ Carries b' g := by
  obtain ⟨active, hwaiting, hactive, hasync, hlength⟩ := h.waiting
  have hall : f.waiting = (active ++ [wrap]) ++ pending := by
    rw [hwaiting, hpending, List.append_assoc]
    rfl
  have hleaves : Relation.ReflTransGen Flow.Keeps f
      ⟨b.inserted, pending, f.left ++ (active ++ [wrap])⟩ := by
    have hrun := Flow.leaves f.entered (active ++ [wrap]) pending f.left
    rw [← hall] at hrun
    rw [← h.entered]
    exact hrun
  have hcmds : b.activeCmds ++ [wrap.cmd] = (active ++ [wrap]).map CommandWrapper.cmd := by
    rw [hactive, List.map_append]
    rfl
  simp only [step, hpending, processWrap, Option.map_some, Option.toList_some]
  by_cases hdirect : wrap.isAsync = false ∧ b.activeCmds.length = 0
  · -- the command leaves the queue alone, with another thread id
    obtain ⟨executed, hexecuted, hsame⟩ := h.left
    have hnil : active = [] := by
      rw [hactive, List.length_map] at hdirect
      exact List.length_eq_zero_iff.1 hdirect.2
    rw [if_pos hdirect]
    refine ⟨_, _, rfl, hleaves, rfl, ⟨[], rfl, ?_, by simp, Nat.succ_pos _⟩,
      ⟨_, executed_append hexecuted rfl b.activeCmds pending, ?_⟩⟩
    · rw [hactive, hnil]
    · rw [hnil, List.map_append]
      exact List.rel_append hsame (.cons (sameExceptThreadId_setThreadId _ _) .nil)
  rw [if_neg hdirect]
  by_cases hemit : wrap.isAsync = false ∨ BATCH_SIZE ≤ (b.activeCmds ++ [wrap.cmd]).length ∨
      elapsed = true
  · -- all that is collected leaves the queue together
    have hlength : (active ++ [wrap]).length ≤ BATCH_SIZE := by
      rw [List.length_append, List.length_singleton]
      omega
    obtain ⟨r, hr, hcarries⟩ := carries_emit h.left hlength pending fresh
    refine ⟨_, _, (if_pos hemit).trans ?_, hleaves, hcarries⟩
    rw [hcmds, hr]
    rfl
  · -- the command stays in the waiting part, now on the other side of the border
    obtain ⟨hwrap, hsize, -⟩ := not_or.1 hemit |>.imp_right not_or.1
    refine ⟨_, f, if_neg hemit, .refl, h.entered,
      ⟨active ++ [wrap], hall, hcmds, fun w hw => ?_, ?_⟩, h.left⟩
    · rcases List.mem_append.1 hw with hw | hw
      · exact hasync w hw
      · rw [List.mem_singleton.1 hw]
        exact Bool.not_eq_false _ ▸ hwrap
    · rw [hcmds, List.length_map] at hsize
      omega

theorem Carries.timeout (h : Carries b f) (hpending : b.pendingCmds = []) (threadId : Nat)
    (elapsed : Bool) (fresh : Nat → UInt8) :
    ∃ b' g, step threadId b (.timeout elapsed fresh) = some b' ∧
      Relation.ReflTransGen Flow.Keeps f g ∧ Carries b' g := by
  obtain ⟨active, hwaiting, hactive, hasync, hlength⟩ := h.waiting
  have hstep : step threadId b (.timeout elapsed fresh) =
      processWrap threadId b none elapsed fresh := by
    simp only [step, hpending]
  simp only [hstep, processWrap, Option.map_none, Option.toList_none, List.append_nil]
  by_cases hemit : BATCH_SIZE ≤ b.activeCmds.length ∨ elapsed = true
  · obtain ⟨r, hr, hcarries⟩ := carries_emit h.left hlength.le b.pendingCmds fresh
    have hrun := Flow.leaves f.entered active b.pendingCmds f.left
    rw [← hwaiting] at hrun
    refine ⟨_, ⟨b.inserted, _, _⟩, (if_pos hemit).trans ?_, ?_, hcarries⟩
    · rw [hactive, hr]
      rfl
    · rw [← h.entered]
      exact hrun
  · exact ⟨_, f, if_neg hemit, .refl, h⟩

/-- Every step of the threads is a number of steps of the queue. -/
theorem Carries.step (h : Carries b f) {threadId : Nat} {op : BatchOp γ}
    (hstep : step threadId b op = some b') :
    ∃ g, Relation.ReflTransGen Flow.Keeps f g ∧ Carries b' g := by
  cases op with
  | insert wrap =>
    cases hstep
    exact ⟨_, .single (.enter f wrap), h.insert wrap⟩
  | process elapsed fresh =>
    cases hpending : b.pendingCmds with
    | nil =>
      simp only [CommandBatch.step, hpending] at hstep
      cases hstep
    | cons wrap pending =>
      obtain ⟨b₁, g, hb₁, hrun, hcarries⟩ := h.process hpending threadId elapsed fresh
      cases hb₁.symm.trans hstep
      exact ⟨g, hrun, hcarries⟩
  | timeout elapsed fresh =>
    cases hpending : b.pendingCmds with
    | nil =>
      obtain ⟨b₁, g, hb₁, hrun, hcarries⟩ := h.timeout hpending threadId elapsed fresh
      cases hb₁.symm.trans hstep
      exact ⟨g, hrun, hcarries⟩
    | cons wrap pending =>
      simp only [CommandBatch.step, hpending] at hstep
      cases hstep

theorem carries_of_reaches {threadId : Nat}
    (h : Reaches (step threadId) (fun _ _ => True) empty b) :
    ∃ f, f.Complete ∧ Carries b f := by
  refine h.invariant (I := fun b => ∃ f, f.Complete ∧ Carries b f) ?_ ⟨_, rfl, carries_empty⟩
  rintro b op b' ⟨f, hcomplete, hcarries⟩ - hstep
  obtain ⟨g, hrun, hcarries'⟩ := hcarries.step hstep
  exact ⟨g, hcomplete.run hrun, hcarries'⟩

/-- A synchronous command that has been taken out of the pending queue has been sent. -/
theorem Carries.lt_of_sync (h : Carries b f) (hcomplete : f.Complete) {i : Nat}
    {w : CommandWrapper γ} (hw : b.inserted[i]? = some w) (hsync : w.isAsync = false)
    (hi : i < b.inserted.length - b.pendingCmds.length) : i < f.left.length := by
  obtain ⟨active, hwaiting, -, hasync, -⟩ := h.waiting
  have hall : f.left ++ (active ++ b.pendingCmds) = b.inserted := by
    rw [← hwaiting, ← h.entered]
    exact hcomplete
  -- a command that is collected but not sent is asynchronous
  by_contra hle
  rw [← hall, List.length_append, List.length_append] at hi
  rw [← hall, List.getElem?_append_right (by omega),
    List.getElem?_append_left (by omega)] at hw
  rw [hasync w (List.mem_of_getElem? hw)] at hsync
  cases hsync

/-- In every interleaving of insertions with rounds of the batch thread, what the worker executes is
a first part of what has been inserted, command by command up to the thread id; a synchronous
command that the thread has taken has been sent, with all before it; and the thread can always go
on. -/
theorem batching_preserves_order {threadId : Nat}
    (h : Reaches (step threadId) (fun _ _ => True) empty b) :
    (∃ executed, b.executed = some executed ∧
      List.Forall₂ SameExceptThreadId executed
        ((b.inserted.take executed.length).map fun w => w.cmd.bytes) ∧
      ∀ (i : Nat) (w : CommandWrapper γ), b.inserted[i]? = some w → w.isAsync = false →
        i < b.inserted.length - b.pendingCmds.length → i < executed.length) ∧
    ∀ elapsed fresh,
      (b.pendingCmds ≠ [] → ∃ b', step threadId b (.process elapsed fresh) = some b') ∧
      (b.pendingCmds = [] → ∃ b', step threadId b (.timeout elapsed fresh) = some b') := by
  obtain ⟨f, hcomplete, hcarries⟩ := carries_of_reaches h
  obtain ⟨executed, hexecuted, hsame⟩ := hcarries.left
  have hlength : executed.length = f.left.length := by
    rw [hsame.length_eq, List.length_map]
  refine ⟨⟨executed, hexecuted, ?_, fun i w hw hsync hi => ?_⟩, fun elapsed fresh => ⟨?_, ?_⟩⟩
  · rw [hlength, ← hcarries.entered, ← hcomplete, List.take_left]
    exact hsame
  · rw [hlength]
    exact hcarries.lt_of_sync hcomplete hw hsync hi
  · intro hne
    obtain ⟨wrap, pending, hpending⟩ := List.exists_cons_of_ne_nil hne
    obtain ⟨b', -, hb', -⟩ := hcarries.process hpending threadId elapsed fresh
    exact ⟨b', hb'⟩
  · intro hnil
    obtain ⟨b', -, hb', -⟩ := hcarries.timeout hnil threadId elapsed fresh
    exact ⟨b', hb'⟩

set_option maxRecDepth 4000 in
/-- An asynchronous command and a synchronous one are sent together, the next synchronous one
alone. -/
theorem batching_preserves_order_three :
    ∃ b : CommandBatch Unit, Reaches (step 9) (fun _ _ => True) empty b ∧
      b.inserted.length = 3 ∧ b.pendingCmds = [] ∧ ∃ executed, b.executed = some executed ∧
        List.Forall₂ SameExceptThreadId executed
          ((b.inserted.take executed.length).map fun w => w.cmd.bytes) :=
  have h : Reaches (step 9) (fun _ _ => True) (empty : CommandBatch Unit) _ :=
    Reaches.of_runGuarded [.insert ⟨.ofIds 1 5, (), true⟩, .process false fun _ => 0,
      .insert ⟨.ofIds 1 6, (), false⟩, .insert ⟨.ofIds 1 7, (), false⟩, .process false fun _ => 0,
      .process false fun _ => 0] rfl
  have hresult := (batching_preserves_order h).1
  ⟨_, h, rfl, rfl, hresult.choose, hresult.choose_spec.1, hresult.choose_spec.2.1⟩

end CommandBatch

end Ava.Channel
