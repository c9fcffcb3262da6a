import Ava.Threads.ThreadOrder

/-!
# Commands and the end of a thread

A shadow thread that has taken a thread-exit command takes no more commands, but it stays in the
table until its destructor removes it. A command that is dispatched to it in between, or that has
been put behind the exit command before, is lost. When the application uses the id of a thread
again, for a new thread, the dispatcher can be early enough for that.

`NotBehindExit` is the condition on the dispatcher under which every flow stays complete.
-/

set_option autoImplicit false

namespace Ava.Threads

open Ava.Lib

namespace ThreadPool

variable {ι ρ β : Type} [DecidableEq ι] [DecidableEq ρ]
variable {s u : ThreadPool ι ρ β}

/-- The step is one of the dispatcher or of a shadow thread. -/
def Op.isShadowStep : Op ι ρ β → Bool
  | .selfCheck _ => false
  | .selfRegister _ _ => false
  | _ => true

/-- The thread has not been told to end. -/
def isOpen (t : ShadowThread ι β) : Bool :=
  !t.exiting && t.queue.all fun cmd => !cmd.isThreadExit

/-- No command is dispatched to a thread that has been told to end and is still registered. -/
def NotBehindExit (s : ThreadPool ι ρ β) : Op ι ρ β → Prop
  | .lookup cmd => cmd.isThreadExit = false → ∀ t ∈ s.threadOf cmd.threadId, isOpen t = true
  | _ => True

instance (s : ThreadPool ι ρ β) : (op : Op ι ρ β) → Decidable (s.NotBehindExit op)
  | .lookup cmd => inferInstanceAs (Decidable
      (cmd.isThreadExit = false → ∀ t ∈ s.threadOf cmd.threadId, isOpen t = true))
  | .create _ _ => isTrue trivial
  | .push => isTrue trivial
  | .selfCheck _ => isTrue trivial
  | .selfRegister _ _ => isTrue trivial
  | .handle _ => isTrue trivial
  | .free _ _ => isTrue trivial

/-- Every command that does not end its thread has been handled, or waits for a thread that will
take it. -/
def NothingLost (s : ThreadPool ι ρ β) : Prop := ∀ id, (s.flow id).Complete

/-- What holds when commands are not dispatched behind an exit command. -/
structure Lossless (s : ThreadPool ι ρ β) : Prop where
  nothingLost : s.NothingLost
  /-- Behind an exit command there are only exit commands. -/
  exitsLast : ∀ ptr t, s.records.lookup ptr = some t →
    t.queue.Pairwise fun a b => a.isThreadExit = true → b.isThreadExit = true
  shadows : ∀ ptr t, s.records.lookup ptr = some t → t.isSolid = false
  opened : ∀ cmd ptr t, s.lock = some (.pushing cmd ptr) → cmd.isThreadExit = false →
    s.records.lookup ptr = some t → isOpen t = true

omit [DecidableEq ι] in
theorem isOpen_iff (t : ShadowThread ι β) :
    isOpen t = true ↔ t.exiting = false ∧ ∀ cmd ∈ t.queue, cmd.isThreadExit = false := by
  simp [isOpen]

variable {P : ShadowThread ι β → Prop} {ptr : ρ} {t : ShadowThread ι β}

omit [DecidableEq ι] in
/-- A record of the new state is the changed one or an old one. -/
theorem NewQueue.forall_records {t' : ShadowThread ι β} (hnew : NewQueue s ptr t t' u) (ht' : P t')
    (h : ∀ p t, s.records.lookup p = some t → P t) : ∀ p t, u.records.lookup p = some t → P t := by
  intro p t₁ ht₁
  rw [hnew.records] at ht₁
  split_ifs at ht₁
  · cases ht₁
    exact ht'
  · exact h p t₁ ht₁

theorem NewThread.forall_records (hnew : NewThread s ptr t u) (ht : P t)
    (h : ∀ p t, s.records.lookup p = some t → P t) : ∀ p t, u.records.lookup p = some t → P t := by
  intro p t₁ ht₁
  rw [hnew.records] at ht₁
  split_ifs at ht₁
  · cases ht₁
    exact ht
  · exact h p t₁ ht₁

theorem Removed.forall_records (hremoved : Removed s ptr t u)
    (h : ∀ p t, s.records.lookup p = some t → P t) : ∀ p t, u.records.lookup p = some t → P t := by
  intro p t₁ ht₁
  rw [hremoved.records] at ht₁
  split_ifs at ht₁
  exact h p t₁ ht₁

variable {op : Op ι ρ β}

theorem Lossless.shadows_change (h : s.Lossless) (hop : op.isShadowStep = true)
    (hchange : Change s op u) : ∀ ptr t, u.records.lookup ptr = some t → t.isSolid = false := by
  cases hchange with
  | drop => exact h.shadows
  | create => exact h.shadows
  | found => exact h.shadows
  | shadow _ hnew _ _ hshadow => exact hnew.forall_records hshadow h.shadows
  | push _ hnew =>
    have hold := h.shadows _ _ hnew.record
    exact hnew.forall_records (P := fun t => t.isSolid = false) hold h.shadows
  | check => exact h.shadows
  | registering => exact h.shadows
  | solid => cases hop
  | handle _ _ _ _ hnew =>
    have hold := h.shadows _ _ hnew.record
    exact hnew.forall_records (P := fun t => t.isSolid = false) hold h.shadows
  | exit _ _ _ hnew =>
    have hold := h.shadows _ _ hnew.record
    exact hnew.forall_records (P := fun t => t.isSolid = false) hold h.shadows
  | free hremoved => exact hremoved.forall_records h.shadows

theorem Lossless.exitsLast_change (h : s.Lossless) (hchange : Change s op u) :
    ∀ ptr t, u.records.lookup ptr = some t →
      t.queue.Pairwise fun a b => a.isThreadExit = true → b.isThreadExit = true := by
  cases hchange with
  | drop => exact h.exitsLast
  | create => exact h.exitsLast
  | found => exact h.exitsLast
  | shadow _ hnew =>
    refine hnew.forall_records ?_ h.exitsLast
    rw [hnew.empty]
    exact List.Pairwise.nil
  | @push cmd ptr t _ hlock hnew =>
    refine hnew.forall_records ?_ h.exitsLast
    rw [List.pairwise_append]
    refine ⟨h.exitsLast _ _ hnew.record, List.pairwise_singleton _ _, fun a ha b hb hexit => ?_⟩
    rw [List.mem_singleton.1 hb]
    -- otherwise the thread was open, and has no exit command
    by_contra hcmd
    have hopen := h.opened cmd ptr t hlock (Bool.eq_false_iff.2 hcmd) hnew.record
    rw [((isOpen_iff t).1 hopen).2 a ha] at hexit
    cases hexit
  | check => exact h.exitsLast
  | registering => exact h.exitsLast
  | solid hnew =>
    refine hnew.forall_records ?_ h.exitsLast
    rw [hnew.empty]
    exact List.Pairwise.nil
  | handle _ hhead _ _ hnew =>
    exact hnew.forall_records (List.pairwise_cons.1 (hhead ▸ h.exitsLast _ _ hnew.record)).2
      h.exitsLast
  | exit _ hhead _ hnew =>
    exact hnew.forall_records (List.pairwise_cons.1 (hhead ▸ h.exitsLast _ _ hnew.record)).2
      h.exitsLast
  | free hremoved => exact hremoved.forall_records h.exitsLast

theorem Lossless.opened_change (h : s.Lossless) (hop : op.isShadowStep = true)
    (hok : s.NotBehindExit op) (hchange : Change s op u) :
    ∀ cmd ptr t, u.lock = some (.pushing cmd ptr) → cmd.isThreadExit = false →
      u.records.lookup ptr = some t → isOpen t = true := by
  intro cmd ptr t hlock hexit ht
  cases hchange with
  | drop hunlocked => cases hunlocked.symm.trans hlock
  | create => cases hlock
  | found _ hknown =>
    cases hlock
    apply hok hexit t
    rw [Option.mem_def, threadOf, hknown]
    exact ht
  | shadow _ hnew _ halive _ hpushing =>
    cases hpushing.symm.trans hlock
    rw [hnew.records, if_pos rfl] at ht
    cases ht
    rw [isOpen_iff, hnew.empty]
    exact ⟨halive, by simp⟩
  | push _ _ hunlocked => cases hunlocked.symm.trans hlock
  | check => exact h.opened cmd ptr t hlock hexit ht
  | registering => exact h.opened cmd ptr t hlock hexit ht
  | solid => cases hop
  | handle halive hhead _ _ hnew hsame =>
    rw [hsame] at hlock
    rw [hnew.records] at ht
    split_ifs at ht with hptr
    · cases ht
      have hopen := (isOpen_iff _).1 (h.opened cmd ptr _ hlock hexit (hptr ▸ hnew.record))
      rw [isOpen_iff]
      exact ⟨halive, fun c hc => hopen.2 c (hhead ▸ List.mem_cons_of_mem _ hc)⟩
    · exact h.opened cmd ptr t hlock hexit ht
  | exit _ hhead hexit' hnew hsame =>
    rw [hsame] at hlock
    rw [hnew.records] at ht
    split_ifs at ht with hptr
    · have hopen := (isOpen_iff _).1 (h.opened cmd ptr _ hlock hexit (hptr ▸ hnew.record))
      have hhead' := hopen.2 _ (hhead ▸ List.mem_cons_self)
      cases hhead'.symm.trans hexit'
    · exact h.opened cmd ptr t hlock hexit ht
  | free hremoved => cases hremoved.unlocked.symm.trans (hremoved.lock ▸ hlock)

omit [DecidableEq ι] in
/-- A thread that takes an exit command has no other command to take. -/
theorem waiting_of_exitsLast {cmd : ThreadCommand ι β} {queue : List (ThreadCommand ι β)}
    (hhead : t.queue = cmd :: queue) (hexit : cmd.isThreadExit = true)
    (h : t.queue.Pairwise fun a b => a.isThreadExit = true → b.isThreadExit = true) :
    waiting t = [] := by
  have hall : ∀ c ∈ t.queue, c.isThreadExit = true := by
    rw [hhead] at h ⊢
    intro c hc
    rcases List.mem_cons.1 hc with rfl | hc
    · exact hexit
    · exact (List.pairwise_cons.1 h).1 c hc hexit
  rw [waiting]
  split_ifs
  · rfl
  · rw [List.filter_eq_nil_iff]
    intro c hc
    simp [hall c hc]

/-- A step that meets the condition loses nothing. -/
theorem Lossless.flow_change (h : s.Lossless) (hs : s.Sound) (hchange : Change s op u) (id : ι) :
    Flow.Keeps (s.flow id) (u.flow id) := by
  -- clearing a flow in which nothing waits does nothing
  have hclear : ∀ {t : ShadowThread ι β} {ptr : ρ}, s.records.lookup ptr = some t →
      waiting t = [] →
      (if id = t.avaId then ⟨s.dispatchedOf id, [], s.handledOf id⟩ else s.flow id) =
        s.flow id := by
    intro t ptr ht hwaiting
    split_ifs with hid
    · rw [flow, hid, hs.registered.waitingOf_record ht, hwaiting]
    · rfl
  cases hchange with
  | drop _ hexit =>
    rw [flow_drop hexit]
    exact .refl _
  | create => exact .refl _
  | found => exact .refl _
  | shadow _ hnew =>
    rw [hnew.flow hs.registered]
    exact .refl _
  | push hlock hnew _ hdispatched hhandled =>
    rw [flow_push hs.registered (hs.threadId_of_pushing hlock hnew.record) hnew hdispatched
      hhandled]
    split_ifs with hcmd hexiting
    · have hopen := (isOpen_iff _).1 (h.opened _ _ _ hlock hcmd.2 hnew.record)
      cases hopen.1.symm.trans hexiting
    · exact .enter _ _
    · exact .refl _
  | check => exact .refl _
  | registering => exact .refl _
  | solid hnew =>
    rw [hnew.flow hs.registered]
    exact .refl _
  | handle halive hhead hexit hcmd hnew _ hdispatched hhandled =>
    exact flow_handle hs.registered halive hhead hexit hcmd hnew hdispatched hhandled id
  | exit _ hhead hexit hnew _ hdispatched hhandled =>
    rw [flow_exit hs.registered hnew hdispatched hhandled, hclear hnew.record
      (waiting_of_exitsLast hhead hexit (h.exitsLast _ _ hnew.record))]
    exact .refl _
  | free hremoved hended =>
    have hexiting := hended.resolve_left (by simp [h.shadows _ _ hremoved.record])
    rw [hremoved.flow hs.registered, hclear hremoved.record (if_pos hexiting)]
    exact .refl _

theorem Lossless.change (h : s.Lossless) (hs : s.Sound) (hop : op.isShadowStep = true)
    (hok : s.NotBehindExit op) (hchange : Change s op u) : u.Lossless :=
  ⟨fun id => (h.nothingLost id).keeps (h.flow_change hs hchange id), h.exitsLast_change hchange,
    h.shadows_change hop hchange, h.opened_change hop hok hchange⟩

/-- In every interleaving of the dispatcher and the shadow threads in which no command is dispatched
to a thread that has been told to end, no command is lost. -/
theorem nothing_lost_of_notBehindExit
    (h : Reaches step (fun s op => op.isShadowStep = true ∧ s.NotBehindExit op) empty s) :
    s.NothingLost := by
  have hlossless : s.Sound ∧ s.Lossless := by
    refine h.invariant (I := fun s => s.Sound ∧ s.Lossless) ?_
      ⟨sound_empty, fun _ => rfl, fun _ _ ht => (by cases ht), fun _ _ ht => (by cases ht),
        fun _ _ _ hlock => (by cases hlock)⟩
    rintro s op u ⟨hs, hlossless⟩ ⟨hop, hok⟩ hstep
    have hchange := change_of_run (eq_ok_of_toOption hstep)
    exact ⟨hs.change hchange, hlossless.change hs hop hok hchange⟩
  exact hlossless.2.nothingLost

/-- Thread 7 ends and is removed before its id is used again. -/
theorem nothing_lost_of_notBehindExit_reuse :
    ∃ s : ThreadPool Nat Nat Nat,
      Reaches step (fun s op => op.isShadowStep = true ∧ s.NotBehindExit op) empty s ∧
        s.handledOf 7 = [⟨1, 5, 7, 100⟩] ∧ s.waitingOf 7 = [⟨1, 5, 7, 101⟩] ∧ s.NothingLost :=
  have h : Reaches step (fun s op => op.isShadowStep = true ∧ s.NotBehindExit op)
      (empty : ThreadPool Nat Nat Nat) _ :=
    Reaches.of_runGuarded
      [.lookup ⟨1, 5, 7, 100⟩, .create 40 90, .push, .lookup ⟨0, 3, 7, 0⟩, .push,
      .handle 40, .handle 40, .free 40 0, .lookup ⟨1, 5, 7, 101⟩, .create 41 91, .push] rfl
  ⟨_, h, rfl, rfl, nothing_lost_of_notBehindExit h⟩

/-- The id is used again after the thread has taken the exit command and before it is removed. -/
theorem command_lost_behind_exit :
    ∃ s : ThreadPool Nat Nat Nat, Reaches step (fun _ op => op.isShadowStep = true) empty s ∧
      s.dispatchedOf 7 = [⟨1, 5, 7, 100⟩, ⟨1, 5, 7, 101⟩] ∧ s.handledOf 7 = [⟨1, 5, 7, 100⟩] ∧
        s.waitingOf 7 = [] ∧ ¬ s.NothingLost :=
  have h : Reaches step (fun _ op => op.isShadowStep = true) (empty : ThreadPool Nat Nat Nat) _ :=
    Reaches.of_runGuarded
      [.lookup ⟨1, 5, 7, 100⟩, .create 40 90, .push, .lookup ⟨0, 3, 7, 0⟩, .push,
      .handle 40, .handle 40, .lookup ⟨1, 5, 7, 101⟩, .push] rfl
  ⟨_, h, rfl, rfl, rfl, fun hlost => nomatch hlost 7⟩

end ThreadPool

end Ava.Threads
