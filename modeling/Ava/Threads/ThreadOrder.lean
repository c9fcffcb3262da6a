import Ava.Lib.Fifo
import Ava.Threads.ThreadPool

/-!
# Commands are handled in order

For every thread id the commands that are dispatched, wait and have been handled are a `Flow`. Every
step of the dispatcher and of the threads is a step of each of these flows, or leaves it alone: a
push enters a command, or loses it if the thread is about to end; a thread that handles a command
takes it out; a thread that ends clears what waits. So the commands of an id are handled in the
order in which they are dispatched.

The invariant `Registered` says that the table and the threads agree, and that the commands in the
queue of a thread are its own.
-/

set_option autoImplicit false

namespace Ava.Threads

open Ava.Lib

namespace ThreadPool

variable {ι ρ β : Type} [DecidableEq ι] [DecidableEq ρ]
variable {s u : ThreadPool ι ρ β}

/-- The thread that is registered for an id. -/
def threadOf (s : ThreadPool ι ρ β) (id : ι) : Option (ShadowThread ι β) :=
  (s.threads.lookup id).bind fun ptr => s.records.lookup ptr

/-- The table has the threads that there are, each under its own id. -/
structure Registered (s : ThreadPool ι ρ β) : Prop where
  table : ∀ id ptr, s.threads.lookup id = some ptr →
    ∃ t, s.records.lookup ptr = some t ∧ t.avaId = id
  record : ∀ ptr t, s.records.lookup ptr = some t → s.threads.lookup t.avaId = some ptr
  queue : ∀ ptr t, s.records.lookup ptr = some t → ∀ cmd ∈ t.queue, cmd.threadId = t.avaId

/-- The dispatcher has found the thread of the command. -/
def FoundThread (s : ThreadPool ι ρ β) : Prop :=
  ∀ cmd ptr, s.lock = some (.pushing cmd ptr) → s.threads.lookup cmd.threadId = some ptr

/-! ## What the steps do -/

/-- A new thread in the table. -/
structure NewThread (s : ThreadPool ι ρ β) (ptr : ρ) (t : ShadowThread ι β)
    (u : ThreadPool ι ρ β) : Prop where
  fresh : s.records.lookup ptr = none
  unused : s.threads.lookup t.avaId = none
  empty : t.queue = []
  threads : ∀ id, u.threads.lookup id = if id = t.avaId then some ptr else s.threads.lookup id
  records : ∀ p, u.records.lookup p = if p = ptr then some t else s.records.lookup p
  dispatched : u.dispatched = s.dispatched
  handled : u.handled = s.handled

/-- A thread has changed its queue. -/
structure NewQueue (s : ThreadPool ι ρ β) (ptr : ρ) (t t' : ShadowThread ι β)
    (u : ThreadPool ι ρ β) : Prop where
  record : s.records.lookup ptr = some t
  avaId : t'.avaId = t.avaId
  threads : u.threads = s.threads
  records : ∀ p, u.records.lookup p = if p = ptr then some t' else s.records.lookup p

/-- A thread is removed. -/
structure Removed (s : ThreadPool ι ρ β) (ptr : ρ) (t : ShadowThread ι β)
    (u : ThreadPool ι ρ β) : Prop where
  record : s.records.lookup ptr = some t
  unlocked : s.lock = none
  threads : ∀ id, u.threads.lookup id = if id = t.avaId then none else s.threads.lookup id
  records : ∀ p, u.records.lookup p = if p = ptr then none else s.records.lookup p
  lock : u.lock = s.lock
  dispatched : u.dispatched = s.dispatched
  handled : u.handled = s.handled

/-- The ways in which a step succeeds. -/
inductive Change (s : ThreadPool ι ρ β) : Op ι ρ β → ThreadPool ι ρ β → Prop where
  | drop {cmd} (unlocked : s.lock = none) (isExit : cmd.isThreadExit = true) :
      Change s (.lookup cmd) { s with dispatched := s.dispatched ++ [cmd] }
  | create {cmd} (unlocked : s.lock = none) (unknown : s.threads.lookup cmd.threadId = none)
      (notExit : cmd.isThreadExit = false) :
      Change s (.lookup cmd) { s with lock := some (.creating cmd) }
  | found {cmd ptr} (unlocked : s.lock = none) (known : s.threads.lookup cmd.threadId = some ptr) :
      Change s (.lookup cmd) { s with lock := some (.pushing cmd ptr) }
  | shadow {ptr thread cmd t u} (creating : s.lock = some (.creating cmd))
      (new : NewThread s ptr t u) (id : t.avaId = cmd.threadId) (alive : t.exiting = false)
      (shadow : t.isSolid = false) (lock : u.lock = some (.pushing cmd ptr)) :
      Change s (.create ptr thread) u
  | push {cmd ptr t u} (pushing : s.lock = some (.pushing cmd ptr))
      (queue : NewQueue s ptr t { t with queue := t.queue ++ [cmd] } u) (lock : u.lock = none)
      (dispatched : u.dispatched = s.dispatched ++ [cmd]) (handled : u.handled = s.handled) :
      Change s .push u
  | check {self} : Change s (.selfCheck self) s
  | registering {self} :
      Change s (.selfCheck self) { s with registering := self :: s.registering }
  | solid {self ptr t u} (new : NewThread s ptr t u) (lock : u.lock = s.lock) :
      Change s (.selfRegister self ptr) u
  | handle {ptr t cmd queue u} (alive : t.exiting = false) (head : t.queue = cmd :: queue)
      (notExit : cmd.isThreadExit = false) (own : cmd.threadId = t.avaId)
      (new : NewQueue s ptr t { t with queue := queue } u) (lock : u.lock = s.lock)
      (dispatched : u.dispatched = s.dispatched)
      (handled : u.handled = s.handled ++ [(t.avaId, cmd)]) :
      Change s (.handle ptr) u
  | exit {ptr t cmd queue u} (alive : t.exiting = false) (head : t.queue = cmd :: queue)
      (isExit : cmd.isThreadExit = true)
      (new : NewQueue s ptr t { t with queue := queue, exiting := true } u) (lock : u.lock = s.lock)
      (dispatched : u.dispatched = s.dispatched) (handled : u.handled = s.handled) :
      Change s (.handle ptr) u
  | free {ptr t body u} (removed : Removed s ptr t u)
      (ended : t.isSolid = true ∨ t.exiting = true) : Change s (.free ptr body) u

variable {cmd : ThreadCommand ι β}

theorem change_of_lookup (h : s.lookup cmd = .ok u) : Change s (.lookup cmd) u := by
  have hunlocked : s.lock = none := by
    by_contra hlock
    rw [lookup, if_pos (Option.isSome_iff_ne_none.2 hlock)] at h
    cases h
  rw [lookup, if_neg (by simp [hunlocked])] at h
  cases hid : s.threads.lookup cmd.threadId with
  | some ptr =>
    rw [hid] at h
    cases h
    exact .found hunlocked hid
  | none =>
    rw [hid] at h
    dsimp only at h
    split_ifs at h with hexit
    · cases h
      exact .drop hunlocked hexit
    · cases h
      exact .create hunlocked hid (Bool.eq_false_iff.2 hexit)

variable {ptr : ρ} {t : ShadowThread ι β}

theorem newThread_insert {lock : Option (Dispatching ι ρ β)} {registering : List ι}
    (hfresh : ptr ∉ s.records) (hid : t.avaId ∉ s.threads) (hempty : t.queue = []) :
    NewThread s ptr t { s with
      threads := s.threads.insert t.avaId ptr
      records := s.records.insert ptr t
      lock := lock
      registering := registering } :=
  ⟨AList.lookup_eq_none.2 hfresh, AList.lookup_eq_none.2 hid, hempty,
    fun _ => HashTable.lookup_insert_eq _ _ _ _, fun _ => HashTable.lookup_insert_eq _ _ _ _,
    rfl, rfl⟩

theorem change_of_create {thread : ι} (h : s.shadowThreadNew ptr thread = .ok u) :
    Change s (.create ptr thread) u := by
  rw [shadowThreadNew] at h
  cases hlock : s.lock with
  | none =>
    rw [hlock] at h
    cases h
  | some d =>
    rw [hlock] at h
    cases d with
    | pushing cmd t => cases h
    | creating cmd =>
      dsimp only at h
      split_ifs at h with hfresh hid hthread
      cases h
      exact .shadow hlock
        (newThread_insert (t := ⟨cmd.threadId, [], thread, false⟩) hfresh hid rfl) rfl rfl
        (beq_false_of_ne (Ne.symm hthread)) rfl

theorem change_of_push (h : s.push = .ok u) : Change s .push u := by
  rw [push] at h
  cases hlock : s.lock with
  | none =>
    rw [hlock] at h
    cases h
  | some d =>
    rw [hlock] at h
    cases d with
    | creating cmd => cases h
    | pushing cmd ptr =>
      dsimp only at h
      cases ht : s.records.lookup ptr with
      | none =>
        rw [ht] at h
        cases h
      | some t =>
        rw [ht] at h
        cases h
        exact .push hlock
          ⟨ht, rfl, rfl, fun _ => HashTable.lookup_insert_eq _ _ _ _⟩ rfl rfl rfl

theorem change_of_handle (h : s.handleSingleCommand ptr = .ok u) : Change s (.handle ptr) u := by
  rw [handleSingleCommand] at h
  cases ht : s.records.lookup ptr with
  | none =>
    rw [ht] at h
    cases h
  | some t =>
    rw [ht] at h
    dsimp only at h
    have hexiting : t.exiting = false := by
      by_contra hexiting
      rw [if_pos (Bool.not_eq_false _ ▸ hexiting)] at h
      cases h
    rw [if_neg (by simp [hexiting])] at h
    cases hqueue : t.queue with
    | nil =>
      rw [hqueue] at h
      cases h
    | cons cmd queue =>
      rw [hqueue] at h
      dsimp only at h
      split_ifs at h with hexit hsolid hown
      · cases h
        exact .exit hexiting hqueue hexit
          ⟨ht, rfl, rfl, fun _ => HashTable.lookup_insert_eq _ _ _ _⟩ rfl rfl rfl
      · cases h
        exact .handle hexiting hqueue (Bool.eq_false_iff.2 hexit)
          (not_not.1 hown) ⟨ht, rfl, rfl, fun _ => HashTable.lookup_insert_eq _ _ _ _⟩
          rfl rfl rfl

theorem change_of_free {body : β} (h : s.freeFromThread ptr body = .ok u) :
    Change s (.free ptr body) u := by
  have hunlocked : s.lock = none := by
    by_contra hlock
    rw [freeFromThread, if_pos (Option.isSome_iff_ne_none.2 hlock)] at h
    cases h
  rw [freeFromThread, if_neg (by simp [hunlocked])] at h
  cases ht : s.records.lookup ptr with
  | none =>
    rw [ht] at h
    cases h
  | some t =>
    rw [ht] at h
    dsimp only at h
    by_cases hended : t.isSolid || t.exiting
    · rw [if_pos hended] at h
      cases h
      exact .free ⟨ht, hunlocked, fun _ => HashTable.lookup_erase_eq _ _ _,
        fun _ => HashTable.lookup_erase_eq _ _ _, rfl, rfl, rfl⟩ (by simpa using hended)
    · rw [if_neg hended] at h
      cases h

variable {op : Op ι ρ β}

theorem change_of_run (h : s.run op = .ok u) : Change s op u := by
  cases op with
  | lookup cmd => exact change_of_lookup h
  | create ptr thread => exact change_of_create h
  | push => exact change_of_push h
  | selfCheck self =>
    rw [run, selfCheck] at h
    cases hself : (s.threads.lookup self).bind fun ptr => s.records.lookup ptr with
    | none =>
      rw [hself] at h
      cases h
      exact .registering
    | some t =>
      rw [hself] at h
      dsimp only at h
      split_ifs at h
      cases h
      exact .check
  | selfRegister self ptr =>
    rw [run, selfRegister] at h
    split_ifs at h with hblocked hid
    cases h
    exact .solid
      (newThread_insert (t := ⟨self, [], self, false⟩) (not_or.1 hblocked).2 hid rfl) rfl
  | handle ptr => exact change_of_handle h
  | free ptr body => exact change_of_free h

/-! ## The table and the threads agree -/

theorem Registered.threadOf_record (h : s.Registered) (ht : s.records.lookup ptr = some t) :
    s.threadOf t.avaId = some t := by
  rw [threadOf, h.record ptr t ht, Option.bind_some, ht]

/-- Another pointer in the table is that of another id. -/
theorem Registered.ne_of_ne (h : s.Registered) {p : ρ} {id : ι} (ht : s.records.lookup ptr = some t)
    (hid : s.threads.lookup id = some p) (hne : id ≠ t.avaId) : p ≠ ptr := by
  rintro rfl
  obtain ⟨t', ht', rfl⟩ := h.table id p hid
  cases ht.symm.trans ht'
  exact hne rfl

theorem Registered.newThread (h : s.Registered) (hnew : NewThread s ptr t u) : u.Registered := by
  -- the id is not in the table, so no record has it
  have hother : ∀ p t', s.records.lookup p = some t' → t'.avaId ≠ t.avaId := by
    intro p t' ht' heq
    have hid := h.record p t' ht'
    rw [heq, hnew.unused] at hid
    cases hid
  refine ⟨fun id p hid => ?_, fun p t' ht' => ?_, fun p t' ht' => ?_⟩
  · rw [hnew.threads] at hid
    split_ifs at hid with heq
    · cases hid
      exact ⟨t, by rw [hnew.records, if_pos rfl], heq.symm⟩
    · obtain ⟨t', ht', hid'⟩ := h.table id p hid
      refine ⟨t', ?_, hid'⟩
      rw [hnew.records, if_neg, ht']
      rintro rfl
      cases hnew.fresh.symm.trans ht'
  · rw [hnew.records] at ht'
    rw [hnew.threads]
    split_ifs at ht' with hp
    · cases ht'
      rw [if_pos rfl, hp]
    · rw [if_neg (hother p t' ht')]
      exact h.record p t' ht'
  · rw [hnew.records] at ht'
    split_ifs at ht'
    · cases ht'
      simp [hnew.empty]
    · exact h.queue p t' ht'

variable {t' : ShadowThread ι β}

theorem Registered.newQueue (h : s.Registered) (hnew : NewQueue s ptr t t' u)
    (hqueue : ∀ cmd ∈ t'.queue, cmd.threadId = t.avaId) : u.Registered := by
  refine ⟨fun id p hid => ?_, fun p t₁ ht₁ => ?_, fun p t₁ ht₁ => ?_⟩
  · rw [hnew.threads] at hid
    obtain ⟨t₁, ht₁, hid'⟩ := h.table id p hid
    rw [hnew.records]
    split_ifs with hp
    · subst hp
      cases hnew.record.symm.trans ht₁
      exact ⟨t', rfl, hnew.avaId.trans hid'⟩
    · exact ⟨t₁, ht₁, hid'⟩
  · rw [hnew.records] at ht₁
    rw [hnew.threads]
    split_ifs at ht₁ with hp
    · cases ht₁
      rw [hnew.avaId, hp]
      exact h.record ptr t hnew.record
    · exact h.record p t₁ ht₁
  · rw [hnew.records] at ht₁
    split_ifs at ht₁
    · cases ht₁
      rw [hnew.avaId]
      exact hqueue
    · exact h.queue p t₁ ht₁

theorem Registered.removed (h : s.Registered) (hremoved : Removed s ptr t u) : u.Registered := by
  refine ⟨fun id p hid => ?_, fun p t' ht' => ?_, fun p t' ht' => ?_⟩
  · rw [hremoved.threads] at hid
    split_ifs at hid with hne
    obtain ⟨t', ht', hid'⟩ := h.table id p hid
    refine ⟨t', ?_, hid'⟩
    rw [hremoved.records, if_neg (h.ne_of_ne hremoved.record hid hne), ht']
  · rw [hremoved.records] at ht'
    split_ifs at ht' with hp
    have hid := h.record p t' ht'
    rw [hremoved.threads, if_neg, hid]
    -- with the same id it would be the removed thread
    intro heq
    rw [heq, h.record ptr t hremoved.record] at hid
    exact hp (Option.some.inj hid).symm
  · rw [hremoved.records] at ht'
    split_ifs at ht'
    exact h.queue p t' ht'

theorem NewThread.threadOf (h : s.Registered) (hnew : NewThread s ptr t u) (id : ι) :
    u.threadOf id = if id = t.avaId then some t else s.threadOf id := by
  by_cases hid : id = t.avaId
  · rw [if_pos hid, hid]
    exact (h.newThread hnew).threadOf_record (by rw [hnew.records, if_pos rfl])
  · rw [if_neg hid, ThreadPool.threadOf, ThreadPool.threadOf, hnew.threads, if_neg hid]
    cases hp : s.threads.lookup id with
    | none => rfl
    | some p =>
      obtain ⟨t', ht', -⟩ := h.table id p hp
      rw [Option.bind_some, Option.bind_some, hnew.records, if_neg]
      rintro rfl
      cases hnew.fresh.symm.trans ht'

theorem NewQueue.threadOf (h : s.Registered) (hnew : NewQueue s ptr t t' u) (id : ι) :
    u.threadOf id = if id = t.avaId then some t' else s.threadOf id := by
  rw [ThreadPool.threadOf, ThreadPool.threadOf, hnew.threads]
  by_cases hid : id = t.avaId
  · rw [if_pos hid, hid, h.record ptr t hnew.record, Option.bind_some, hnew.records, if_pos rfl]
  · rw [if_neg hid]
    cases hp : s.threads.lookup id with
    | none => rfl
    | some p =>
      rw [Option.bind_some, Option.bind_some, hnew.records,
        if_neg (h.ne_of_ne hnew.record hp hid)]

theorem Removed.threadOf (h : s.Registered) (hremoved : Removed s ptr t u) (id : ι) :
    u.threadOf id = if id = t.avaId then none else s.threadOf id := by
  rw [ThreadPool.threadOf, ThreadPool.threadOf, hremoved.threads]
  by_cases hid : id = t.avaId
  · rw [if_pos hid, if_pos hid]
    rfl
  · rw [if_neg hid, if_neg hid]
    cases hp : s.threads.lookup id with
    | none => rfl
    | some p =>
      rw [Option.bind_some, Option.bind_some, hremoved.records,
        if_neg (h.ne_of_ne hremoved.record hp hid)]

/-! ## The flow of the commands of an id -/

/-- The commands that a thread will handle, should no exit command come before them. -/
def waiting (t : ShadowThread ι β) : List (ThreadCommand ι β) :=
  if t.exiting then [] else t.queue.filter fun cmd => !cmd.isThreadExit

def dispatchedOf (s : ThreadPool ι ρ β) (id : ι) : List (ThreadCommand ι β) :=
  s.dispatched.filter fun cmd => cmd.threadId = id && !cmd.isThreadExit

def waitingOf (s : ThreadPool ι ρ β) (id : ι) : List (ThreadCommand ι β) :=
  (s.threadOf id).elim [] waiting

def handledOf (s : ThreadPool ι ρ β) (id : ι) : List (ThreadCommand ι β) :=
  (s.handled.map Prod.snd).filter fun cmd => cmd.threadId = id

/-- The commands of an id that do not end a thread. -/
def flow (s : ThreadPool ι ρ β) (id : ι) : Flow (ThreadCommand ι β) :=
  ⟨s.dispatchedOf id, s.waitingOf id, s.handledOf id⟩

theorem flow_of_same {id : ι} (hdispatched : u.dispatchedOf id = s.dispatchedOf id)
    (hthread : u.threadOf id = s.threadOf id) (hhandled : u.handledOf id = s.handledOf id) :
    u.flow id = s.flow id := by
  rw [flow, flow, hdispatched, waitingOf, waitingOf, hthread, hhandled]

omit [DecidableEq ρ] in
theorem dispatchedOf_of_eq (h : u.dispatched = s.dispatched) (id : ι) :
    u.dispatchedOf id = s.dispatchedOf id := by rw [dispatchedOf, dispatchedOf, h]

omit [DecidableEq ρ] in
theorem handledOf_of_eq (h : u.handled = s.handled) (id : ι) :
    u.handledOf id = s.handledOf id := by rw [handledOf, handledOf, h]

omit [DecidableEq ρ] in
theorem dispatchedOf_append (h : u.dispatched = s.dispatched ++ [cmd]) (id : ι) :
    u.dispatchedOf id = s.dispatchedOf id ++
      if cmd.threadId = id ∧ cmd.isThreadExit = false then [cmd] else [] := by
  rw [dispatchedOf, h, List.filter_append, ← dispatchedOf, List.filter_singleton]
  simp

/-- An exit command that is dropped is in no flow. -/
theorem flow_drop (hexit : cmd.isThreadExit = true) (id : ι) :
    ({ s with dispatched := s.dispatched ++ [cmd] } : ThreadPool ι ρ β).flow id = s.flow id := by
  refine flow_of_same ?_ rfl rfl
  rw [dispatchedOf_append (s := s) rfl]
  simp [hexit]

omit [DecidableEq ρ] in
theorem handledOf_append {handler : ι} (h : u.handled = s.handled ++ [(handler, cmd)]) (id : ι) :
    u.handledOf id = s.handledOf id ++ if cmd.threadId = id then [cmd] else [] := by
  rw [handledOf, h, List.map_append, List.filter_append, ← handledOf]
  simp [List.filter_singleton]

theorem Registered.waitingOf_record (h : s.Registered) (ht : s.records.lookup ptr = some t) :
    s.waitingOf t.avaId = waiting t := by
  rw [waitingOf, h.threadOf_record ht, Option.elim_some]

theorem NewThread.flow (h : s.Registered) (hnew : NewThread s ptr t u) (id : ι) :
    u.flow id = s.flow id := by
  have hwaiting : u.waitingOf id = s.waitingOf id := by
    rw [waitingOf, waitingOf, hnew.threadOf h]
    split_ifs with hid
    · rw [hid, ThreadPool.threadOf, hnew.unused, Option.bind_none, Option.elim_none,
        Option.elim_some, waiting, hnew.empty]
      simp
    · rfl
  rw [ThreadPool.flow, ThreadPool.flow, hwaiting, dispatchedOf_of_eq hnew.dispatched,
    handledOf_of_eq hnew.handled]

theorem NewQueue.waitingOf (h : s.Registered) (hnew : NewQueue s ptr t t' u) (id : ι) :
    u.waitingOf id = if id = t.avaId then waiting t' else s.waitingOf id := by
  rw [ThreadPool.waitingOf, hnew.threadOf h]
  split_ifs
  · rfl
  · rfl

/-- A pushed command waits, unless its thread is about to end. -/
theorem flow_push (h : s.Registered) (hcmd : cmd.threadId = t.avaId)
    (hnew : NewQueue s ptr t { t with queue := t.queue ++ [cmd] } u)
    (hdispatched : u.dispatched = s.dispatched ++ [cmd]) (hhandled : u.handled = s.handled)
    (id : ι) :
    u.flow id =
      if t.avaId = id ∧ cmd.isThreadExit = false then
        ⟨s.dispatchedOf id ++ [cmd], s.waitingOf id ++ (if t.exiting then [] else [cmd]),
          s.handledOf id⟩
      else s.flow id := by
  have hold := h.waitingOf_record hnew.record
  rw [flow, flow, dispatchedOf_append hdispatched, handledOf_of_eq hhandled, hnew.waitingOf h, hcmd]
  by_cases hid : id = t.avaId
  · subst hid
    -- neither an exit command nor a command for a thread that ends is added to what waits
    rw [if_pos rfl, hold, waiting, waiting]
    cases hexit : cmd.isThreadExit <;> cases hexiting : t.exiting <;>
      simp [List.filter_append, hexit]
  · simp [hid, Ne.symm hid]

theorem flow_handle (h : s.Registered) {queue : List (ThreadCommand ι β)}
    (halive : t.exiting = false) (hhead : t.queue = cmd :: queue) (hexit : cmd.isThreadExit = false)
    (hcmd : cmd.threadId = t.avaId) (hnew : NewQueue s ptr t { t with queue := queue } u)
    (hdispatched : u.dispatched = s.dispatched)
    (hhandled : u.handled = s.handled ++ [(t.avaId, cmd)]) (id : ι) :
    Flow.Keeps (s.flow id) (u.flow id) := by
  have hold := h.waitingOf_record hnew.record
  rw [flow, flow, dispatchedOf_of_eq hdispatched, handledOf_append hhandled, hnew.waitingOf h, hcmd]
  by_cases hid : id = t.avaId
  · subst hid
    rw [if_pos rfl, if_pos rfl, hold, waiting, waiting, hhead]
    simp only [halive, Bool.false_eq_true, if_false, List.filter_cons, hexit, Bool.not_false,
      if_true]
    exact .leave _ _ _ _
  · rw [if_neg hid, if_neg (Ne.symm hid), List.append_nil]
    exact .refl _

/-- A thread that takes an exit command leaves the others behind. -/
theorem flow_exit (h : s.Registered) {queue : List (ThreadCommand ι β)}
    (hnew : NewQueue s ptr t { t with queue := queue, exiting := true } u)
    (hdispatched : u.dispatched = s.dispatched) (hhandled : u.handled = s.handled) (id : ι) :
    u.flow id = if id = t.avaId then ⟨s.dispatchedOf id, [], s.handledOf id⟩ else s.flow id := by
  rw [flow, flow, dispatchedOf_of_eq hdispatched, handledOf_of_eq hhandled, hnew.waitingOf h]
  split_ifs
  · rfl
  · rfl

theorem Removed.flow (h : s.Registered) (hremoved : Removed s ptr t u) (id : ι) :
    u.flow id = if id = t.avaId then ⟨s.dispatchedOf id, [], s.handledOf id⟩ else s.flow id := by
  rw [ThreadPool.flow, ThreadPool.flow, dispatchedOf_of_eq hremoved.dispatched,
    handledOf_of_eq hremoved.handled, ThreadPool.waitingOf, hremoved.threadOf h]
  split_ifs
  · rfl
  · rfl

/-! ## Every step -/

/-- The invariant of the pool. -/
structure Sound (s : ThreadPool ι ρ β) : Prop where
  registered : s.Registered
  found : s.FoundThread
  own : ∀ e ∈ s.handled, e.2.threadId = e.1
  ordered : ∀ id, (s.flow id).Ordered

theorem Sound.threadId_of_pushing (h : s.Sound) (hlock : s.lock = some (.pushing cmd ptr))
    (ht : s.records.lookup ptr = some t) : cmd.threadId = t.avaId := by
  obtain ⟨t', ht', hid⟩ := h.registered.table _ _ (h.found cmd ptr hlock)
  cases ht.symm.trans ht'
  exact hid.symm

theorem Registered.change (hs : s.Sound) (hchange : Change s op u) : u.Registered := by
  have h := hs.registered
  cases hchange with
  | drop => exact ⟨h.table, h.record, h.queue⟩
  | create => exact ⟨h.table, h.record, h.queue⟩
  | found => exact ⟨h.table, h.record, h.queue⟩
  | shadow _ hnew => exact h.newThread hnew
  | push hlock hnew =>
    apply h.newQueue hnew
    intro cmd hcmd
    rcases List.mem_append.1 hcmd with hcmd | hcmd
    · exact h.queue _ _ hnew.record cmd hcmd
    · rw [List.mem_singleton.1 hcmd]
      exact hs.threadId_of_pushing hlock hnew.record
  | check => exact h
  | registering => exact ⟨h.table, h.record, h.queue⟩
  | solid hnew => exact h.newThread hnew
  | handle _ hhead _ _ hnew =>
    apply h.newQueue hnew
    intro cmd hcmd
    exact h.queue _ _ hnew.record cmd (hhead ▸ List.mem_cons_of_mem _ hcmd)
  | exit _ hhead _ hnew =>
    apply h.newQueue hnew
    intro cmd hcmd
    exact h.queue _ _ hnew.record cmd (hhead ▸ List.mem_cons_of_mem _ hcmd)
  | free hremoved => exact h.removed hremoved

theorem FoundThread.change (h : s.FoundThread) (hchange : Change s op u) : u.FoundThread := by
  intro cmd ptr hlock
  cases hchange with
  | drop hunlocked =>
    cases hunlocked.symm.trans hlock
  | create => cases hlock
  | found _ hknown =>
    cases hlock
    exact hknown
  | shadow _ hnew hid _ _ hpushing =>
    cases hpushing.symm.trans hlock
    rw [hnew.threads, if_pos hid.symm]
  | push _ _ hunlocked => cases hunlocked.symm.trans hlock
  | check => exact h cmd ptr hlock
  | registering => exact h cmd ptr hlock
  | solid hnew hsame =>
    -- the dispatcher has the lock, but the id that it has found is in the table already
    have hid := h cmd ptr (hsame ▸ hlock)
    rw [hnew.threads, if_neg, hid]
    rintro heq
    rw [heq, hnew.unused] at hid
    cases hid
  | handle _ _ _ _ hnew hsame =>
    rw [hnew.threads]
    exact h cmd ptr (hsame ▸ hlock)
  | exit _ _ _ hnew hsame =>
    rw [hnew.threads]
    exact h cmd ptr (hsame ▸ hlock)
  | free hremoved => cases hremoved.unlocked.symm.trans (hremoved.lock ▸ hlock)

/-- Every step is a step of the flow of every id. -/
theorem flow_change (h : s.Sound) (hchange : Change s op u) (id : ι) :
    Flow.Keeps (s.flow id) (u.flow id) ∨ Flow.Loses (s.flow id) (u.flow id) := by
  have hs := h.registered
  cases hchange with
  | drop _ hexit =>
    rw [flow_drop hexit]
    exact Or.inl (.refl _)
  | create => exact Or.inl (.refl _)
  | found => exact Or.inl (.refl _)
  | shadow _ hnew =>
    rw [hnew.flow hs]
    exact Or.inl (.refl _)
  | push hlock hnew _ hdispatched hhandled =>
    rw [flow_push hs (h.threadId_of_pushing hlock hnew.record) hnew hdispatched hhandled]
    -- a thread that has taken its exit command refuses the command
    split_ifs
    · rw [List.append_nil]
      exact Or.inr (.refuse _ _)
    · exact Or.inl (.enter _ _)
    · exact Or.inl (.refl _)
  | check => exact Or.inl (.refl _)
  | registering => exact Or.inl (.refl _)
  | solid hnew =>
    rw [hnew.flow hs]
    exact Or.inl (.refl _)
  | handle halive hhead hexit hcmd hnew _ hdispatched hhandled =>
    exact Or.inl (flow_handle hs halive hhead hexit hcmd hnew hdispatched hhandled id)
  | exit _ _ _ hnew _ hdispatched hhandled =>
    rw [flow_exit hs hnew hdispatched hhandled]
    split_ifs
    · exact Or.inr (.clear _)
    · exact Or.inl (.refl _)
  | free hremoved =>
    rw [hremoved.flow hs]
    split_ifs
    · exact Or.inr (.clear _)
    · exact Or.inl (.refl _)

theorem own_change (h : ∀ e ∈ s.handled, e.2.threadId = e.1) (hchange : Change s op u) :
    ∀ e ∈ u.handled, e.2.threadId = e.1 := by
  cases hchange with
  | drop => exact h
  | create => exact h
  | found => exact h
  | shadow _ hnew => rwa [hnew.handled]
  | push _ _ _ _ hhandled => rwa [hhandled]
  | check => exact h
  | registering => exact h
  | solid hnew => rwa [hnew.handled]
  | handle _ _ _ hcmd _ _ _ hhandled =>
    intro e he
    rw [hhandled] at he
    rcases List.mem_append.1 he with he | he
    · exact h e he
    · rw [List.mem_singleton.1 he]
      exact hcmd
  | exit _ _ _ _ _ _ hhandled => rwa [hhandled]
  | free hremoved => rwa [hremoved.handled]

theorem Sound.change (h : s.Sound) (hchange : Change s op u) : u.Sound := by
  refine ⟨.change h hchange, h.found.change hchange, own_change h.own hchange, fun id => ?_⟩
  rcases flow_change h hchange id with hkeeps | hloses
  · exact (h.ordered id).keeps hkeeps
  · exact (h.ordered id).loses hloses

theorem sound_empty : (empty : ThreadPool ι ρ β).Sound :=
  ⟨⟨fun _ _ h => (by cases h), fun _ _ h => (by cases h), fun _ _ h => (by cases h)⟩,
    fun _ _ h => (by cases h), fun _ h => (by cases h), fun _ => List.Sublist.refl _⟩

theorem sound_of_reaches {ok : ThreadPool ι ρ β → Op ι ρ β → Prop}
    (h : Reaches step ok empty s) : s.Sound :=
  h.invariant (fun _ _ _ hs _ hstep => hs.change (change_of_run (eq_ok_of_toOption hstep)))
    sound_empty

/-- A thread takes only commands of its own out of its queue. -/
theorem Registered.handle_ne_mismatch (h : s.Registered) (ptr : ρ) :
    s.handleSingleCommand ptr ≠ .error .threadIdMismatch := by
  rw [handleSingleCommand]
  cases ht : s.records.lookup ptr with
  | none => exact nofun
  | some t =>
    dsimp only
    cases hqueue : t.queue with
    | nil =>
      dsimp only
      split_ifs <;> exact nofun
    | cons cmd queue =>
      have hown := h.queue ptr t ht cmd (hqueue ▸ List.mem_cons_self)
      dsimp only
      rw [if_neg (not_not.2 hown)]
      split_ifs <;> exact nofun

theorem Registered.run_ne_mismatch (h : s.Registered) (op : Op ι ρ β) :
    s.run op ≠ .error .threadIdMismatch := by
  cases op with
  | handle ptr => exact h.handle_ne_mismatch ptr
  | lookup cmd =>
    rw [run, lookup]
    cases s.threads.lookup cmd.threadId <;> dsimp only <;> split_ifs <;> exact nofun
  | create ptr thread =>
    rw [run, shadowThreadNew]
    rcases s.lock with - | ⟨cmd⟩ | ⟨cmd, t⟩
    · exact nofun
    · dsimp only
      split_ifs <;> exact nofun
    · exact nofun
  | push =>
    rw [run, push]
    rcases s.lock with - | ⟨cmd⟩ | ⟨cmd, t⟩
    · exact nofun
    · exact nofun
    · cases ht : s.records.lookup t <;> simp [ht]
  | selfCheck self =>
    rw [run, selfCheck]
    cases (s.threads.lookup self).bind fun ptr => s.records.lookup ptr with
    | none => exact nofun
    | some t =>
      dsimp only
      split_ifs <;> exact nofun
  | selfRegister self ptr =>
    rw [run, selfRegister]
    split_ifs <;> exact nofun
  | free ptr body =>
    rw [run, freeFromThread]
    cases s.records.lookup ptr <;> dsimp only <;> split_ifs <;> exact nofun

theorem Registered.unique (h : s.Registered) {ptr' : ρ} (ht : s.records.lookup ptr = some t)
    (ht' : s.records.lookup ptr' = some t') (hid : t.avaId = t'.avaId) : ptr = ptr' := by
  have hptr := h.record ptr t ht
  rw [hid, h.record ptr' t' ht'] at hptr
  exact (Option.some.inj hptr).symm

/-- In every interleaving the commands of an id that do not end its thread are handled in the order
in which they are dispatched and at most once, each by the thread of its id; the assertion on the
ids does not fail; and there is at most one thread for an id. -/
theorem commands_in_order (h : Reaches step (fun _ _ => True) empty s) :
    (∀ id, (s.handledOf id).Sublist (s.dispatchedOf id)) ∧
      (∀ e ∈ s.handled, e.2.threadId = e.1) ∧
      (∀ op : Op ι ρ β, s.run op ≠ .error .threadIdMismatch) ∧
      (∀ id ptr, s.threads.lookup id = some ptr →
        ∃ t, s.records.lookup ptr = some t ∧ t.avaId = id) ∧
      ∀ ptr ptr' t t', s.records.lookup ptr = some t → s.records.lookup ptr' = some t' →
        t.avaId = t'.avaId → ptr = ptr' := by
  have hs := sound_of_reaches h
  exact ⟨fun id => (hs.ordered id).left_sublist, hs.own, hs.registered.run_ne_mismatch,
    hs.registered.table, fun _ _ _ _ ht ht' hid => hs.registered.unique ht ht' hid⟩

/-- Two commands for thread 7, of which the first has been handled. -/
theorem commands_in_order_two :
    ∃ s : ThreadPool Nat Nat Nat, Reaches step (fun _ _ => True) empty s ∧
      s.handledOf 7 = [⟨1, 5, 7, 100⟩] ∧ (s.handledOf 7).Sublist (s.dispatchedOf 7) :=
  have h : Reaches step (fun _ _ => True) (empty : ThreadPool Nat Nat Nat) _ :=
    Reaches.of_runGuarded [.lookup ⟨1, 5, 7, 100⟩, .create 40 90, .push, .lookup ⟨1, 5, 7, 101⟩,
      .push, .handle 40] rfl
  ⟨_, h, rfl, (commands_in_order h).1 7⟩

end ThreadPool

end Ava.Threads
