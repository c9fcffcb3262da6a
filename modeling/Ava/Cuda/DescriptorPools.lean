import Ava.Endpoint.Ids
import Ava.Lib.Ownership

/-!
# Pools of descriptors

Programs that use cuDNN create and destroy many descriptors, and each of these calls would be a
remote one. The replacements in `onnx_opt.c` and `tf_opt.c` create descriptors 64 at a time, hand
them out from a queue, and collect those that the program destroys in a second queue, which is
destroyed as a whole when it has 64 members. The remote functions (`__pool_*` in
`worker/extensions/tf_optimization.c`) are loops around the native functions that stop at the first
failure; the one that destroys is asynchronous, so the guest never sees its result.

The five kinds of descriptors are treated alike, so the functions are written for a kind. The native
library is a parameter: what it may do is `NativeLibrary.Lawful`, and it may fail at any call. An
object has the same name on both sides here; the guest has handles, which are translated at each
call (`Ava.Endpoint.HandlePool`). The calls come one after the other, as the queues are not locked.
`Book` has, next to the two queues of a kind, the descriptors that the program holds and how often
it called; these are the history that the statements are about.
-/

set_option autoImplicit false

namespace Ava.Cuda

open Ava.Lib Ava.Endpoint

/-- `cudnnStatus_t`, `cublasStatus_t` or `CUresult`. -/
abbrev Status := Nat

/-- `CUDNN_STATUS_SUCCESS`, `CUBLAS_STATUS_SUCCESS`, `CUDA_SUCCESS`. -/
def success : Status := 0

/-- The functions of the native library that create and destroy objects of the kinds `κ`, on the
state `L` of the library. Creation stores the object at the pointer it is given. -/
structure NativeLibrary (κ L : Type) where
  create : κ → L → Status × Ptr × L
  destroy : κ → L → Ptr → Status × L

variable {κ L : Type} [DecidableEq κ]

/-- What the library promises, in terms of its live objects: `NULL` is none of them, a new object is
none of those that exist, calls concern one kind, and a failed call changes nothing. -/
structure NativeLibrary.Lawful (lib : NativeLibrary κ L) (live : L → κ → Finset Ptr) : Prop where
  nonnull : ∀ k l, NULL ∉ live l k
  create_success : ∀ k l, (lib.create k l).1 = success →
    (lib.create k l).2.1 ∉ live l k ∧
      live (lib.create k l).2.2 =
        Function.update (live l) k (insert (lib.create k l).2.1 (live l k))
  create_failure : ∀ k l, (lib.create k l).1 ≠ success → live (lib.create k l).2.2 = live l
  destroy_success : ∀ k l d, d ∈ live l k → (lib.destroy k l d).1 = success →
    live (lib.destroy k l d).2 = Function.update (live l) k ((live l k).erase d)
  destroy_failure : ∀ k l d, d ∈ live l k → (lib.destroy k l d).1 ≠ success →
    live (lib.destroy k l d).2 = live l

/-- A library that destroys whatever exists. -/
def NativeLibrary.Destroys (lib : NativeLibrary κ L) (live : L → κ → Finset Ptr) : Prop :=
  ∀ k l d, d ∈ live l k → (lib.destroy k l d).1 = success

section Functions

variable (lib : NativeLibrary κ L)

/-! ## The worker -/

/-- `__pool_cudnnCreateConvolutionDescriptor` and its siblings for the other kinds: create `count`
objects, or stop at the first failure. The result has the objects that were created. -/
def poolCreate (k : κ) : Nat → L → Status × List Ptr × L
  | 0, l => (success, [], l)
  | count + 1, l =>
    let r := lib.create k l
    if r.1 = success then
      let q := poolCreate k count r.2.2
      (q.1, r.2.1 :: q.2.1, q.2.2)
    else (r.1, [], r.2.2)

/-- `__pool_cudnnDestroyConvolutionDescriptor` and its siblings. `res` is the variable that holds the
result, which is not initialized before the loop. -/
def poolDestroy (k : κ) : List Ptr → Option Status → L → Option Status × L
  | [], res, l => (res, l)
  | d :: ds, _, l =>
    let r := lib.destroy k l d
    if r.1 = success then poolDestroy k ds (some r.1) r.2 else (some r.1, r.2)

/-! ## The guest -/

/-- `DESCRITPOR_POOL_SIZE`. -/
def DESCRITPOR_POOL_SIZE : Nat := 64

/-- The two queues of a kind: created and not handed out, and collected for destruction. -/
structure DescriptorPool where
  pool : List Ptr
  idle : List Ptr

/-- The loop of `free_convolution_descriptor_pool`: pop elements up to a `NULL` or the end of the
queue. What is left of the queue comes second. -/
def drain : List Ptr → List Ptr × List Ptr
  | [] => ([], [])
  | d :: ds => if d = NULL then ([], ds) else (d :: (drain ds).1, (drain ds).2)

/-- `free_convolution_descriptor_pool` and its siblings, on one of the queues. The remote call is
asynchronous and reports success. -/
def freePool (k : κ) (queue : List Ptr) (l : L) : Status × List Ptr × L :=
  if queue = [] then (success, queue, l)
  else (success, (drain queue).2, (poolDestroy lib k (drain queue).1 none l).2)

/-- The replacements of `cudnnCreateConvolutionDescriptor` and its siblings, and of `cuEventCreate`,
which drops its argument `Flags`. -/
def createDescriptor (k : κ) (p : DescriptorPool) (l : L) :
    Status × Option Ptr × DescriptorPool × L :=
  let r := if p.pool = [] then poolCreate lib k DESCRITPOR_POOL_SIZE l else (success, [], l)
  if r.1 = success then
    let pool := p.pool ++ r.2.1
    (r.1, some (pool.headD NULL), { p with pool := pool.tail }, r.2.2)
  else (r.1, none, p, r.2.2)

/-- The replacements of `cudnnDestroyConvolutionDescriptor` and its siblings, and of
`cuEventDestroy`. -/
def destroyDescriptor (k : κ) (d : Ptr) (p : DescriptorPool) (l : L) :
    Status × DescriptorPool × L :=
  let idle := p.idle ++ [d]
  if DESCRITPOR_POOL_SIZE ≤ idle.length then
    let r := freePool lib k idle l
    (r.1, { p with idle := r.2.1 }, r.2.2)
  else (success, { p with idle := idle }, l)

end Functions

/-! ## Programs -/

/-- The queues of a kind, with the descriptors that the program holds, the numbers of its successful
calls, and the numbers of the remote calls made for them. -/
structure Book extends DescriptorPool where
  held : List Ptr
  created : Nat
  destroyed : Nat
  remoteCreates : Nat
  remoteDestroys : Nat

def Book.new : Book := ⟨⟨[], []⟩, [], 0, 0, 0, 0⟩

/-- A guest with its program, and the library of the worker. -/
structure PooledProgram (κ L : Type) where
  book : κ → Book
  library : L

/-- After `guestlib_tf_opt_init`, with a library that has no descriptors yet. -/
def PooledProgram.init (l : L) : PooledProgram κ L := ⟨fun _ => Book.new, l⟩

/-- The calls of a program. -/
inductive PoolCall (κ : Type) where
  | create (k : κ)
  | destroy (k : κ) (d : Ptr)

/-- The program destroys descriptors that it holds. -/
def PoolCall.legal (s : PooledProgram κ L) : PoolCall κ → Prop
  | .create _ => True
  | .destroy k d => d ∈ (s.book k).held

instance PoolCall.decidableLegal (s : PooledProgram κ L) :
    ∀ c : PoolCall κ, Decidable (c.legal s)
  | .create _ => inferInstanceAs (Decidable True)
  | .destroy k d => inferInstanceAs (Decidable (d ∈ (s.book k).held))

section Program

variable (lib : NativeLibrary κ L)

/-- The book of a kind after a creation. -/
def Book.create (k : κ) (b : Book) (l : L) : Book × L :=
  let r := createDescriptor lib k b.toDescriptorPool l
  ({ toDescriptorPool := r.2.2.1
     held := r.2.1.toList ++ b.held
     created := b.created + r.2.1.toList.length
     destroyed := b.destroyed
     remoteCreates := b.remoteCreates + if b.pool = [] then 1 else 0
     remoteDestroys := b.remoteDestroys }, r.2.2.2)

/-- The book of a kind after a destruction. -/
def Book.destroy (k : κ) (d : Ptr) (b : Book) (l : L) : Book × L :=
  let r := destroyDescriptor lib k d b.toDescriptorPool l
  ({ toDescriptorPool := r.2.1
     held := b.held.erase d
     created := b.created
     destroyed := b.destroyed + 1
     remoteCreates := b.remoteCreates
     remoteDestroys := b.remoteDestroys +
       if DESCRITPOR_POOL_SIZE ≤ (b.idle ++ [d]).length then 1 else 0 }, r.2.2)

/-- One call of the program. -/
def pooledStep (s : PooledProgram κ L) : PoolCall κ → Option (PooledProgram κ L)
  | .create k =>
    let r := (s.book k).create lib k s.library
    some ⟨Function.update s.book k r.1, r.2⟩
  | .destroy k d =>
    let r := (s.book k).destroy lib k d s.library
    some ⟨Function.update s.book k r.1, r.2⟩

/-- The remote creation that a call makes, if it makes one, succeeds. -/
def PoolCall.served (s : PooledProgram κ L) : PoolCall κ → Prop
  | .create k =>
    (s.book k).pool = [] → (poolCreate lib k DESCRITPOR_POOL_SIZE s.library).1 = success
  | .destroy _ _ => True

instance PoolCall.decidableServed (s : PooledProgram κ L) :
    ∀ c : PoolCall κ, Decidable (c.served lib s)
  | .create k => inferInstanceAs (Decidable ((s.book k).pool = [] →
      (poolCreate lib k DESCRITPOR_POOL_SIZE s.library).1 = success))
  | .destroy _ _ => inferInstanceAs (Decidable True)

/-- What `guestlib_tf_opt_fini` does for one kind. -/
def PooledProgram.finiKind (s : PooledProgram κ L) (k : κ) : PooledProgram κ L :=
  let r := freePool lib k (s.book k).pool s.library
  let q := freePool lib k (s.book k).idle r.2.2
  ⟨Function.update s.book k { s.book k with pool := r.2.1, idle := q.2.1 }, q.2.2⟩

end Program

/-- The kinds of descriptors that are pooled. -/
inductive DescriptorKind where
  | convolution
  | pooling
  | tensor
  | filter
  | event
deriving DecidableEq

/-- `guestlib_tf_opt_fini`, as far as the descriptors go. -/
def guestlibTfOptFini (lib : NativeLibrary DescriptorKind L) (s : PooledProgram DescriptorKind L) :
    PooledProgram DescriptorKind L :=
  [DescriptorKind.convolution, .pooling, .tensor, .filter, .event].foldl
    (fun s k => s.finiKind lib k) s

/-! ## The loops of the worker -/

section Loops

variable {lib : NativeLibrary κ L} {live : L → κ → Finset Ptr} {k : κ} {l : L} {xs ds : List Ptr}
  {P : Finset Ptr → List Ptr → Prop}

/-- What `poolCreate` leaves alone, and how many objects it has created if it succeeds. -/
theorem poolCreate_spec (hlib : lib.Lawful live) (count : Nat) (l : L) :
    (∀ j, j ≠ k → live (poolCreate lib k count l).2.2 j = live l j) ∧
      ((poolCreate lib k count l).1 = success → (poolCreate lib k count l).2.1.length = count) := by
  induction count generalizing l with
  | zero => simp [poolCreate]
  | succ count ih =>
    rw [poolCreate]
    by_cases hr : (lib.create k l).1 = success
    · obtain ⟨hother, hlength⟩ := ih (lib.create k l).2.2
      simp only [hr, if_true]
      refine ⟨fun j hj => ?_, fun hs => ?_⟩
      · rw [hother j hj, (hlib.create_success k l hr).2, Function.update_of_ne hj]
      · rw [List.length_cons, hlength hs]
    · simp only [hr, if_false]
      rw [hlib.create_failure k l hr]
      exact ⟨fun _ _ => rfl, fun hs => hs.elim⟩

/-- The objects it created are new, and all that is new. -/
theorem poolCreate_tracks (hlib : lib.Lawful live) (hP : Tracking P) (count : Nat) :
    ∀ {l : L} {xs : List Ptr}, P (live l k) xs →
      P (live (poolCreate lib k count l).2.2 k) ((poolCreate lib k count l).2.1 ++ xs) := by
  induction count with
  | zero => exact fun h => h
  | succ count ih =>
    intro l xs h
    rw [poolCreate]
    by_cases hr : (lib.create k l).1 = success
    · obtain ⟨hnew, hlive⟩ := hlib.create_success k l hr
      have hfirst : P (live (lib.create k l).2.2 k) ((lib.create k l).2.1 :: xs) := by
        rw [hlive, Function.update_self]
        exact hP.insert h hnew
      simp only [hr, if_true]
      exact hP.perm (ih hfirst) List.perm_middle
    · simp only [hr, if_false]
      rw [hlib.create_failure k l hr]
      exact h

/-- What `poolDestroy` leaves alone: all objects that are not in its list. If it stops early, the
rest of the list stays alive, and nobody knows of it. -/
theorem poolDestroy_tracks (hlib : lib.Lawful live) (hP : Tracking P)
    (hstop : lib.Destroys live ∨ ∀ live l l', P live (l' ++ l) → P live l) :
    ∀ {ds : List Ptr} {res : Option Status} {l : L}, P (live l k) (ds ++ xs) →
      P (live (poolDestroy lib k ds res l).2 k) xs ∧
        (∀ j, j ≠ k → live (poolDestroy lib k ds res l).2 j = live l j) := by
  intro ds
  induction ds with
  | nil =>
    intro res l h
    exact ⟨h, fun _ _ => rfl⟩
  | cons d ds ih =>
    intro res l h
    have hd : d ∈ live l k := hP.alive h d (List.mem_append_left _ List.mem_cons_self)
    rw [poolDestroy]
    by_cases hr : (lib.destroy k l d).1 = success
    · have hlive := hlib.destroy_success k l d hd hr
      simp only [hr, if_true]
      have hrest : P (live (lib.destroy k l d).2 k) (ds ++ xs) := by
        rw [hlive, Function.update_self]
        exact hP.erase h
      obtain ⟨htracks, hother⟩ := @ih (some success) _ hrest
      refine ⟨htracks, fun j hj => ?_⟩
      rw [hother j hj, hlive, Function.update_of_ne hj]
    · simp only [hr, if_false]
      rw [hlib.destroy_failure k l d hd hr]
      have hforgets := hstop.resolve_left fun hdestroys => hr (hdestroys k l d hd)
      exact ⟨hforgets _ _ _ h, fun _ _ => rfl⟩

/-- A queue without `NULL` is drained to its end. -/
theorem drain_eq (hds : ∀ d ∈ ds, d ≠ NULL) : drain ds = (ds, []) := by
  induction ds with
  | nil => rfl
  | cons d ds ih =>
    rw [drain, if_neg (hds d List.mem_cons_self),
      ih fun e he => hds e (List.mem_cons_of_mem d he)]

omit [DecidableEq κ] in
theorem freePool_eq (hds : ∀ d ∈ ds, d ≠ NULL) :
    freePool lib k ds l = (success, [], (poolDestroy lib k ds none l).2) := by
  by_cases hnil : ds = []
  · rw [freePool, if_pos hnil, hnil, poolDestroy]
  · rw [freePool, if_neg hnil, drain_eq hds]

end Loops

/-! ## The books -/

/-- The descriptors of a kind that the guest knows of are different live ones, neither queue is
full, and every remote call is accounted for. -/
structure BookInv (live : Finset Ptr) (b : Book) : Prop where
  tracks : Tracks live (b.pool ++ b.idle ++ b.held)
  pool_lt : b.pool.length < DESCRITPOR_POOL_SIZE
  idle_lt : b.idle.length < DESCRITPOR_POOL_SIZE
  created_eq : b.created = b.held.length + b.destroyed
  destroyed_eq : b.destroyed = DESCRITPOR_POOL_SIZE * b.remoteDestroys + b.idle.length
  created_le : b.created + b.pool.length ≤ DESCRITPOR_POOL_SIZE * b.remoteCreates

/-- The guest knows of every live descriptor, and no remote creation has failed. -/
structure BookExact (live : Finset Ptr) (b : Book) : Prop where
  tracksAll : TracksAll live (b.pool ++ b.idle ++ b.held)
  created_eq : b.created + b.pool.length = DESCRITPOR_POOL_SIZE * b.remoteCreates

section Books

variable {lib : NativeLibrary κ L} {live : L → κ → Finset Ptr} {k : κ} {l : L} {b : Book}
  {P : Finset Ptr → List Ptr → Prop}

/-- A pool that is not empty gives its first descriptor, and the worker is not asked. An empty one
is refilled and gives the first of the new descriptors, or the worker fails and the guest has nothing
but the failed call. -/
theorem Book.create_cases (hlib : lib.Lawful live) (k : κ) (b : Book) (l : L) :
    (∃ d ds, b.pool = d :: ds ∧ b.create lib k l =
      ({ b with pool := ds, held := d :: b.held, created := b.created + 1 }, l)) ∨
    (∃ d ds, b.pool = [] ∧ ds.length + 1 = DESCRITPOR_POOL_SIZE ∧
      (poolCreate lib k DESCRITPOR_POOL_SIZE l).2.1 = d :: ds ∧ b.create lib k l = ({ b with
        pool := ds, held := d :: b.held, created := b.created + 1,
        remoteCreates := b.remoteCreates + 1 }, (poolCreate lib k DESCRITPOR_POOL_SIZE l).2.2)) ∨
    (b.pool = [] ∧ (poolCreate lib k DESCRITPOR_POOL_SIZE l).1 ≠ success ∧ b.create lib k l =
      ({ b with remoteCreates := b.remoteCreates + 1 },
        (poolCreate lib k DESCRITPOR_POOL_SIZE l).2.2)) := by
  cases hpool : b.pool with
  | cons d ds => exact .inl ⟨d, ds, rfl, by simp [Book.create, createDescriptor, hpool]⟩
  | nil =>
    by_cases hs : (poolCreate lib k DESCRITPOR_POOL_SIZE l).1 = success
    · have hlength := (poolCreate_spec (k := k) hlib DESCRITPOR_POOL_SIZE l).2 hs
      cases hds : (poolCreate lib k DESCRITPOR_POOL_SIZE l).2.1 with
      | nil =>
        rw [hds] at hlength
        exact absurd hlength (by simp [DESCRITPOR_POOL_SIZE])
      | cons d ds =>
        rw [hds] at hlength
        exact .inr (.inl ⟨d, ds, rfl, hlength, rfl,
          by simp [Book.create, createDescriptor, hpool, hs, hds]⟩)
    · exact .inr (.inr ⟨rfl, hs, by simp [Book.create, createDescriptor, hpool, hs]⟩)

theorem Book.create_other (hlib : lib.Lawful live) (b : Book) {j : κ} (hj : j ≠ k) :
    live (b.create lib k l).2 j = live l j := by
  have hother := (poolCreate_spec hlib DESCRITPOR_POOL_SIZE l).1 j hj
  rcases Book.create_cases hlib k b l with ⟨_, _, -, h⟩ | ⟨_, _, -, -, -, h⟩ | ⟨-, -, h⟩
  · rw [h]
  · rw [h, hother]
  · rw [h, hother]

/-- The descriptor that is handed out moves to those that the program holds. If the worker fails
there may be new descriptors that the guest does not know of. -/
theorem Book.create_tracks (hlib : lib.Lawful live) (hP : Tracking P)
    (hfails : (b.pool = [] → (poolCreate lib k DESCRITPOR_POOL_SIZE l).1 = success) ∨
      ∀ live l l', P live (l' ++ l) → P live l)
    (h : P (live l k) (b.pool ++ b.idle ++ b.held)) :
    P (live (b.create lib k l).2 k) ((b.create lib k l).1.pool ++ (b.create lib k l).1.idle ++
      (b.create lib k l).1.held) := by
  have hrefill := poolCreate_tracks (k := k) hlib hP DESCRITPOR_POOL_SIZE h
  rcases Book.create_cases hlib k b l with
    ⟨d, ds, hpool, heq⟩ | ⟨d, ds, hpool, -, hds, heq⟩ | ⟨hpool, hs, heq⟩
  · rw [heq]
    rw [hpool] at h
    exact hP.perm h List.perm_middle.symm
  · rw [heq]
    rw [hpool, hds, List.nil_append, ← List.append_assoc] at hrefill
    exact hP.perm hrefill List.perm_middle.symm
  · rw [heq]
    exact hfails.resolve_left (fun hserved => hs (hserved hpool)) _ _ _ hrefill

/-- Creation keeps the book of its kind in order, whatever the library does. -/
theorem BookInv.create (hlib : lib.Lawful live) (hb : BookInv (live l k) b) :
    BookInv (live (b.create lib k l).2 k) (b.create lib k l).1 := by
  have htracks := Book.create_tracks hlib tracking_tracks (.inr fun _ _ _ => Tracks.of_append)
    hb.tracks
  have hcreated := hb.created_eq
  have hle := hb.created_le
  have hlt := hb.pool_lt
  rcases Book.create_cases hlib k b l with
    ⟨d, ds, hpool, heq⟩ | ⟨d, ds, hpool, hlength, -, heq⟩ | ⟨hpool, -, heq⟩
  · rw [heq] at htracks ⊢
    rw [hpool, List.length_cons] at hle hlt
    refine ⟨htracks, Nat.lt_of_succ_lt hlt, hb.idle_lt, ?_, hb.destroyed_eq, ?_⟩
    · simp only [List.length_cons]
      omega
    · simp only
      omega
  · rw [heq] at htracks ⊢
    rw [hpool, List.length_nil] at hle
    refine ⟨htracks, Nat.lt_of_succ_le hlength.le, hb.idle_lt, ?_, hb.destroyed_eq, ?_⟩
    · simp only [List.length_cons]
      omega
    · simp only [Nat.mul_succ]
      omega
  · rw [heq] at htracks ⊢
    refine ⟨htracks, hlt, hb.idle_lt, hcreated, hb.destroyed_eq, ?_⟩
    simp only [Nat.mul_succ]
    omega

/-- A creation that does not fail leaves no descriptor behind. -/
theorem BookExact.create (hlib : lib.Lawful live) (hb : BookExact (live l k) b)
    (hserved : b.pool = [] → (poolCreate lib k DESCRITPOR_POOL_SIZE l).1 = success) :
    BookExact (live (b.create lib k l).2 k) (b.create lib k l).1 := by
  refine ⟨Book.create_tracks hlib tracking_tracksAll (.inl hserved) hb.tracksAll, ?_⟩
  have hcount := hb.created_eq
  rcases Book.create_cases hlib k b l with
    ⟨d, ds, hpool, heq⟩ | ⟨d, ds, hpool, hlength, -, heq⟩ | ⟨hpool, hs, -⟩
  · rw [heq]
    rw [hpool, List.length_cons] at hcount
    simp only
    omega
  · rw [heq]
    rw [hpool, List.length_nil] at hcount
    simp only [Nat.mul_succ]
    omega
  · exact absurd (hserved hpool) hs

variable {d : Ptr}

omit [DecidableEq κ] in
/-- As long as the idle queue does not fill up, destroying a descriptor only moves it there. -/
theorem Book.destroy_of_lt (hidle : b.idle.length + 1 < DESCRITPOR_POOL_SIZE) :
    b.destroy lib k d l = ({ b with
      idle := b.idle ++ [d], held := b.held.erase d, destroyed := b.destroyed + 1 }, l) := by
  have hlt : ¬ DESCRITPOR_POOL_SIZE ≤ (b.idle ++ [d]).length := by
    rw [List.length_append, List.length_singleton]
    omega
  simp only [Book.destroy, destroyDescriptor, if_neg hlt, Nat.add_zero]

omit [DecidableEq κ] in
/-- The descriptor that fills the idle queue has it destroyed as a whole. -/
theorem Book.destroy_of_full (hidle : b.idle.length + 1 = DESCRITPOR_POOL_SIZE)
    (hnonnull : ∀ e ∈ b.idle ++ [d], e ≠ NULL) :
    b.destroy lib k d l = ({ b with
      idle := [], held := b.held.erase d, destroyed := b.destroyed + 1,
      remoteDestroys := b.remoteDestroys + 1 },
      (poolDestroy lib k (b.idle ++ [d]) none l).2) := by
  have hle : DESCRITPOR_POOL_SIZE ≤ (b.idle ++ [d]).length := by
    rw [List.length_append, List.length_singleton]
    omega
  simp only [Book.destroy, destroyDescriptor, if_pos hle, freePool_eq hnonnull]

/-- The descriptors of a book when one that is held joins the idle ones. -/
theorem perm_of_held (pool idle : List Ptr) {held : List Ptr} (hd : d ∈ held) :
    (pool ++ idle ++ held).Perm (idle ++ [d] ++ (pool ++ held.erase d)) := by
  refine ((List.perm_cons_erase hd).append_left _).trans (List.perm_iff_count.2 fun a => ?_)
  simp only [List.count_append, List.count_cons, List.count_nil]
  omega

theorem ne_null_of_tracked (hlib : lib.Lawful live) (hP : Tracking P) {ds : List Ptr}
    (h : P (live l k) ds) : ∀ d ∈ ds, d ≠ NULL := by
  rintro d hd rfl
  exact hlib.nonnull k l (hP.alive h NULL hd)

/-- A descriptor that is destroyed joins the idle ones, or ends with them. -/
theorem Book.destroy_tracks (hlib : lib.Lawful live) (hP : Tracking P)
    (hstop : lib.Destroys live ∨ ∀ live l l', P live (l' ++ l) → P live l)
    (hidle : b.idle.length < DESCRITPOR_POOL_SIZE) (h : P (live l k) (b.pool ++ b.idle ++ b.held))
    (hd : d ∈ b.held) :
    P (live (b.destroy lib k d l).2 k) ((b.destroy lib k d l).1.pool ++
        (b.destroy lib k d l).1.idle ++ (b.destroy lib k d l).1.held) ∧
      ∀ j, j ≠ k → live (b.destroy lib k d l).2 j = live l j := by
  have hmoved := hP.perm h (perm_of_held b.pool b.idle hd)
  by_cases hfull : b.idle.length + 1 = DESCRITPOR_POOL_SIZE
  · rw [Book.destroy_of_full hfull fun e he =>
      ne_null_of_tracked hlib hP hmoved e (List.mem_append_left _ he)]
    simpa using poolDestroy_tracks hlib hP hstop hmoved
  · rw [Book.destroy_of_lt (by omega)]
    refine ⟨hP.perm hmoved (List.perm_iff_count.2 fun a => ?_), fun _ _ => rfl⟩
    simp only [List.count_append]
    omega

/-- Destruction keeps the book of its kind in order, whatever the library does. -/
theorem BookInv.destroy (hlib : lib.Lawful live) (hb : BookInv (live l k) b) (hd : d ∈ b.held) :
    BookInv (live (b.destroy lib k d l).2 k) (b.destroy lib k d l).1 ∧
      ∀ j, j ≠ k → live (b.destroy lib k d l).2 j = live l j := by
  obtain ⟨htracks, hother⟩ := Book.destroy_tracks hlib tracking_tracks
    (.inr fun _ _ _ => Tracks.of_append) hb.idle_lt hb.tracks hd
  have hnonnull := ne_null_of_tracked hlib tracking_tracks
    (tracking_tracks.perm hb.tracks (perm_of_held b.pool b.idle hd))
  have hheld : (b.held.erase d).length + 1 = b.held.length := by
    rw [List.length_erase_of_mem hd]
    exact Nat.succ_pred_eq_of_pos (List.length_pos_of_mem hd)
  have hcreated := hb.created_eq
  have hdestroyed := hb.destroyed_eq
  have hlt := hb.idle_lt
  refine ⟨?_, hother⟩
  by_cases hfull : b.idle.length + 1 = DESCRITPOR_POOL_SIZE
  · rw [Book.destroy_of_full hfull fun e he => hnonnull e (List.mem_append_left _ he)] at htracks ⊢
    refine ⟨htracks, hb.pool_lt, Nat.succ_pos 63, ?_, ?_, hb.created_le⟩
    · simp only
      omega
    · simp only [List.length_nil, Nat.mul_succ]
      omega
  · rw [Book.destroy_of_lt (by omega)] at htracks ⊢
    refine ⟨htracks, hb.pool_lt, ?_, ?_, ?_, hb.created_le⟩
    · simp only [List.length_append, List.length_singleton]
      omega
    · simp only
      omega
    · simp only [List.length_append, List.length_singleton]
      omega

/-- A destruction that does not fail leaves no descriptor behind. -/
theorem BookExact.destroy (hlib : lib.Lawful live) (hdestroys : lib.Destroys live)
    (hidle : b.idle.length < DESCRITPOR_POOL_SIZE) (hb : BookExact (live l k) b) (hd : d ∈ b.held) :
    BookExact (live (b.destroy lib k d l).2 k) (b.destroy lib k d l).1 := by
  refine ⟨(Book.destroy_tracks hlib tracking_tracksAll (.inl hdestroys) hidle hb.tracksAll hd).1, ?_⟩
  -- the pool and the numbers of creations stay
  simp only [Book.destroy, destroyDescriptor]
  split_ifs <;> exact hb.created_eq

end Books

/-! ## A library to run programs with -/

/-- A library that numbers its objects, and fails when the next number is in use. -/
def numberingLibrary (κ : Type) [DecidableEq κ] : NativeLibrary κ (κ → List Ptr) where
  create := fun k l =>
    let d : Ptr := UInt64.ofNat ((l k).length + 1)
    if d = NULL ∨ d ∈ l k then (1, NULL, l) else (success, d, Function.update l k (d :: l k))
  destroy := fun k l d =>
    if d ∈ l k then (success, Function.update l k ((l k).filter (· ≠ d))) else (1, l)

/-- The objects of this library. -/
def numbered (l : κ → List Ptr) (k : κ) : Finset Ptr := (l k).toFinset.erase NULL

omit [DecidableEq κ] in
theorem mem_of_numbered {l : κ → List Ptr} {k : κ} {d : Ptr} (h : d ∈ numbered l k) : d ∈ l k :=
  List.mem_toFinset.1 (Finset.mem_of_mem_erase h)

theorem numberingLibrary_lawful : (numberingLibrary κ).Lawful numbered where
  nonnull := fun _ _ => Finset.notMem_erase NULL _
  create_success := by
    intro k l
    simp only [numberingLibrary]
    split_ifs with h
    · exact fun hs => absurd hs Nat.one_ne_zero
    · intro _
      obtain ⟨hnull, hnew⟩ := not_or.1 h
      refine ⟨fun hmem => hnew (mem_of_numbered hmem), ?_⟩
      funext j
      by_cases hj : j = k
      · subst hj
        simp only [numbered, Function.update_self, List.toFinset_cons]
        exact Finset.erase_insert_of_ne hnull
      · simp only [numbered, Function.update_of_ne hj]
  create_failure := by
    intro k l
    simp only [numberingLibrary]
    split_ifs with h
    · exact fun _ => rfl
    · exact fun hs => absurd rfl hs
  destroy_success := by
    intro k l d hd _
    funext j
    by_cases hj : j = k
    · subst hj
      ext e
      simp [numberingLibrary, numbered, mem_of_numbered hd, and_comm, and_assoc]
    · simp [numberingLibrary, numbered, mem_of_numbered hd, Function.update_of_ne hj]
  destroy_failure := by
    intro k l d hd hs
    exact absurd (by simp [numberingLibrary, mem_of_numbered hd]) hs

theorem numberingLibrary_destroys : (numberingLibrary κ).Destroys numbered := by
  intro k l d hd
  simp [numberingLibrary, mem_of_numbered hd]

/-! ## Whole programs -/

section Programs

variable {lib : NativeLibrary κ L} {live : L → κ → Finset Ptr} {l₀ : L} {s : PooledProgram κ L}

theorem bookInv_new (s : Finset Ptr) : BookInv s Book.new where
  tracks := ⟨List.nodup_nil, fun _ h => by cases h⟩
  pool_lt := Nat.succ_pos 63
  idle_lt := Nat.succ_pos 63
  created_eq := rfl
  destroyed_eq := rfl
  created_le := Nat.le_refl 0

/-- A call changes the book of its kind, and the live descriptors of no other. -/
theorem forall_update_book {P : Finset Ptr → Book → Prop} {k : κ} {r : Book × L}
    (h : ∀ j, P (live s.library j) (s.book j)) (hk : P (live r.2 k) r.1)
    (hother : ∀ j, j ≠ k → live r.2 j = live s.library j) (j : κ) :
    P (live r.2 j) (Function.update s.book k r.1 j) := by
  by_cases hj : j = k
  · subst hj
    rwa [Function.update_self]
  · rw [Function.update_of_ne hj, hother j hj]
    exact h j

theorem bookInv_step (hlib : lib.Lawful live) (s : PooledProgram κ L) (c : PoolCall κ)
    (s' : PooledProgram κ L) (h : ∀ j, BookInv (live s.library j) (s.book j)) (hc : c.legal s)
    (hstep : pooledStep lib s c = some s') : ∀ j, BookInv (live s'.library j) (s'.book j) := by
  cases c with
  | create k =>
    cases hstep
    exact forall_update_book h ((h k).create hlib) fun j hj => Book.create_other hlib _ hj
  | destroy k d =>
    cases hstep
    obtain ⟨hk, hother⟩ := (h k).destroy hlib hc
    exact forall_update_book h hk hother

/-- In every program, and whatever the library refuses to do on the way, a descriptor is in one
place at most: in the pool, collected for destruction, or held by the program. All of them are
alive, and a descriptor that is handed out is one that the program neither holds nor has destroyed
since it was created. -/
theorem descriptor_in_one_place (hlib : lib.Lawful live)
    (hrun : Reaches (pooledStep lib) (fun s c => c.legal s) (PooledProgram.init l₀) s) (k : κ) :
    ((s.book k).pool ++ (s.book k).idle ++ (s.book k).held).Nodup ∧
      (∀ d ∈ (s.book k).pool ++ (s.book k).idle ++ (s.book k).held, d ∈ live s.library k) ∧
      ∀ d, (createDescriptor lib k (s.book k).toDescriptorPool s.library).2.1 = some d →
        d ≠ NULL ∧ d ∉ (s.book k).held ∧ d ∉ (s.book k).idle := by
  have hinv : ∀ j, BookInv (live s.library j) (s.book j) :=
    Reaches.invariant (bookInv_step hlib) hrun fun j => bookInv_new _
  refine ⟨(hinv k).tracks.nodup, (hinv k).tracks.alive, ?_⟩
  intro d hd
  have hnext := (hinv k).create hlib
  have hheld : ((s.book k).create lib k s.library).1.held = d :: (s.book k).held := by
    rw [Book.create, hd]
    rfl
  have hidle : ((s.book k).create lib k s.library).1.idle = (s.book k).idle := by
    simp only [Book.create, createDescriptor]
    split_ifs <;> rfl
  have hnodup := hnext.tracks.nodup
  have hnonnull := ne_null_of_tracked hlib tracking_tracks hnext.tracks d
  rw [hheld, hidle] at hnodup hnonnull
  obtain ⟨-, hcons, hdisjoint⟩ := List.nodup_append.1 hnodup
  refine ⟨hnonnull (by simp), (List.nodup_cons.1 hcons).1, ?_⟩
  intro hmem
  exact hdisjoint d (List.mem_append_right _ hmem) d List.mem_cons_self rfl

/-- Two tensors are created and one of them is destroyed. -/
def twoTensors : List (PoolCall DescriptorKind) :=
  [.create .tensor, .create .tensor, .destroy .tensor 1]

theorem descriptor_in_one_place_two :
    ∃ s, runGuarded (pooledStep (numberingLibrary DescriptorKind)) (fun s c => c.legal s)
        (PooledProgram.init fun _ => []) twoTensors = some s ∧
      (s.book .tensor).held = [2] ∧ (s.book .tensor).idle = [1] ∧
      ((s.book .tensor).pool ++ (s.book .tensor).idle ++ (s.book .tensor).held).Nodup := by
  have h : Reaches (pooledStep (numberingLibrary DescriptorKind)) (fun s c => c.legal s)
      (PooledProgram.init fun _ => []) _ := Reaches.of_runGuarded twoTensors rfl
  exact ⟨_, rfl, rfl, rfl, (descriptor_in_one_place numberingLibrary_lawful h .tensor).1⟩

/-- If no call to the library fails, and there are no descriptors at the start, the guest knows of
every descriptor at every point. -/
theorem bookExact_of_reaches (hlib : lib.Lawful live) (hdestroys : lib.Destroys live)
    (hempty : ∀ k, live l₀ k = ∅)
    (hrun : Reaches (pooledStep lib) (fun s c => c.legal s ∧ c.served lib s)
      (PooledProgram.init l₀) s) :
    (∀ j, BookInv (live s.library j) (s.book j)) ∧
      ∀ j, BookExact (live s.library j) (s.book j) := by
  refine Reaches.invariant (I := fun s : PooledProgram κ L =>
    (∀ j, BookInv (live s.library j) (s.book j)) ∧
      ∀ j, BookExact (live s.library j) (s.book j)) ?_ hrun
    ⟨fun j => bookInv_new _, fun j => ?_⟩
  · rintro s c s' ⟨hinv, hexact⟩ ⟨hc, hserved⟩ hstep
    refine ⟨bookInv_step hlib s c s' hinv hc hstep, ?_⟩
    cases c with
    | create k =>
      cases hstep
      exact forall_update_book hexact ((hexact k).create hlib hserved) fun j hj =>
        Book.create_other hlib _ hj
    | destroy k d =>
      cases hstep
      exact forall_update_book hexact ((hexact k).destroy hlib hdestroys (hinv k).idle_lt hc)
        ((hinv k).destroy hlib hc).2
  · refine ⟨?_, rfl⟩
    show TracksAll (live l₀ j) []
    rw [hempty j]
    exact tracksAll_nil

/-- As long as no call to the library fails, the pools cost at most 63 descriptors of a kind that are
created too early and 63 that are destroyed too late, and they save all but one in 64 of the remote
calls: a remote creation is made for every 64 descriptors that the program begins to create, and a
remote destruction for every 64 that it has destroyed. -/
theorem pools_cost_and_save (hlib : lib.Lawful live) (hdestroys : lib.Destroys live)
    (hempty : ∀ k, live l₀ k = ∅)
    (hrun : Reaches (pooledStep lib) (fun s c => c.legal s ∧ c.served lib s)
      (PooledProgram.init l₀) s) (k : κ) :
    (live s.library k).card ≤ (s.book k).held.length + 63 + 63 ∧
      (∀ d ∈ (s.book k).held, d ∈ live s.library k) ∧
      (s.book k).created = (s.book k).held.length + (s.book k).destroyed ∧
      (s.book k).remoteCreates = ((s.book k).created + 63) / 64 ∧
      (s.book k).remoteDestroys = (s.book k).destroyed / 64 := by
  obtain ⟨hinv, hexact⟩ := bookExact_of_reaches hlib hdestroys hempty hrun
  have hcard := (hexact k).tracksAll.card
  have hpool := (hinv k).pool_lt
  have hidle := (hinv k).idle_lt
  have hcreates := (hexact k).created_eq
  have hdestroys := (hinv k).destroyed_eq
  simp only [DESCRITPOR_POOL_SIZE] at hpool hidle hcreates hdestroys
  rw [List.length_append, List.length_append] at hcard
  refine ⟨by omega, ?_, (hinv k).created_eq, by omega, by omega⟩
  intro d hd
  exact (hinv k).tracks.alive d (List.mem_append_right _ hd)

theorem pools_cost_and_save_two :
    ∃ s, runGuarded (pooledStep (numberingLibrary DescriptorKind))
        (fun s c => c.legal s ∧ c.served (numberingLibrary DescriptorKind) s)
        (PooledProgram.init fun _ => []) twoTensors = some s ∧
      (s.book .tensor).created = 2 ∧
      (s.book .tensor).remoteCreates = ((s.book .tensor).created + 63) / 64 := by
  have h : Reaches (pooledStep (numberingLibrary DescriptorKind))
      (fun s c => c.legal s ∧ c.served (numberingLibrary DescriptorKind) s)
      (PooledProgram.init fun _ => []) _ := Reaches.of_runGuarded twoTensors rfl
  exact ⟨_, rfl, rfl, (pools_cost_and_save numberingLibrary_lawful numberingLibrary_destroys
    (fun _ => rfl) h .tensor).2.2.2.1⟩

/-! ## The end of a program -/

/-- The guest knows of every live descriptor of every kind. -/
def PooledProgram.Complete (live : L → κ → Finset Ptr) (s : PooledProgram κ L) : Prop :=
  ∀ j, TracksAll (live s.library j) ((s.book j).pool ++ (s.book j).idle ++ (s.book j).held)

/-- Both queues of a book are empty. -/
def Book.Drained (b : Book) : Prop := b.pool = [] ∧ b.idle = []

/-- Both queues of a kind are destroyed, and what the program still holds stays alive. -/
theorem finiKind_spec (hlib : lib.Lawful live) (hdestroys : lib.Destroys live)
    (h : s.Complete live) (k : κ) :
    (s.finiKind lib k).Complete live ∧
      ∀ j, ((s.finiKind lib k).book j).held = (s.book j).held ∧
        (j = k ∨ (s.book j).Drained → ((s.finiKind lib k).book j).Drained) := by
  have hall := h k
  rw [List.append_assoc] at hall
  -- the two remote calls, one after the other
  obtain ⟨hidle, hfirst⟩ := @poolDestroy_tracks _ _ _ lib live k _ _ hlib tracking_tracksAll
    (.inl hdestroys) _ none _ hall
  obtain ⟨hheld, hsecond⟩ := @poolDestroy_tracks _ _ _ lib live k _ _ hlib tracking_tracksAll
    (.inl hdestroys) _ none _ hidle
  have hnonnull := ne_null_of_tracked hlib tracking_tracksAll hall
  have heq : s.finiKind lib k = ⟨Function.update s.book k { s.book k with pool := [], idle := [] },
      (poolDestroy lib k (s.book k).idle none
        (poolDestroy lib k (s.book k).pool none s.library).2).2⟩ := by
    have h₁ : ∀ d ∈ (s.book k).pool, d ≠ NULL :=
      fun d hd => hnonnull d (List.mem_append_left _ hd)
    have h₂ : ∀ d ∈ (s.book k).idle, d ≠ NULL :=
      fun d hd => hnonnull d (List.mem_append_right _ (List.mem_append_left _ hd))
    simp only [PooledProgram.finiKind, freePool_eq h₁, freePool_eq h₂]
  rw [heq]
  refine ⟨forall_update_book (P := fun live b => TracksAll live (b.pool ++ b.idle ++ b.held))
    (r := (_, _)) h hheld fun j hj => (hsecond j hj).trans (hfirst j hj), fun j => ?_⟩
  by_cases hj : j = k
  · subst hj
    simp only [Function.update_self]
    exact ⟨trivial, fun _ => ⟨rfl, rfl⟩⟩
  · simp only [Function.update_of_ne hj]
    exact ⟨trivial, fun hor => hor.resolve_left hj⟩

/-- The loop over the kinds. -/
theorem finiKinds_spec (hlib : lib.Lawful live) (hdestroys : lib.Destroys live) (ks : List κ) :
    ∀ {s : PooledProgram κ L}, s.Complete live →
      (ks.foldl (fun s k => s.finiKind lib k) s).Complete live ∧
        ∀ j, ((ks.foldl (fun s k => s.finiKind lib k) s).book j).held = (s.book j).held ∧
          (j ∈ ks ∨ (s.book j).Drained →
            ((ks.foldl (fun s k => s.finiKind lib k) s).book j).Drained) := by
  induction ks with
  | nil =>
    intro s h
    exact ⟨h, fun j => ⟨rfl, fun hor => hor.resolve_left (by simp)⟩⟩
  | cons k ks ih =>
    intro s h
    obtain ⟨hcomplete, hbook⟩ := finiKind_spec hlib hdestroys h k
    obtain ⟨hrest, hrestBook⟩ := ih hcomplete
    rw [List.foldl_cons]
    refine ⟨hrest, fun j => ⟨(hrestBook j).1.trans (hbook j).1, ?_⟩⟩
    rintro (hj | hj)
    · rcases List.mem_cons.1 hj with rfl | hj
      · exact (hrestBook j).2 (.inr ((hbook j).2 (.inl rfl)))
      · exact (hrestBook j).2 (.inl hj)
    · exact (hrestBook j).2 (.inr ((hbook j).2 (.inr hj)))

end Programs

/-- When a program ends, every descriptor that it has not kept to itself is destroyed: if no call to
the library has failed, what `guestlib_tf_opt_fini` leaves alive are the descriptors that the program
still holds, and all queues are empty. -/
theorem fini_leaves_what_is_held {lib : NativeLibrary DescriptorKind L}
    {live : L → DescriptorKind → Finset Ptr} {l₀ : L} {s : PooledProgram DescriptorKind L}
    (hlib : lib.Lawful live) (hdestroys : lib.Destroys live) (hempty : ∀ k, live l₀ k = ∅)
    (hrun : Reaches (pooledStep lib) (fun s c => c.legal s ∧ c.served lib s)
      (PooledProgram.init l₀) s) (k : DescriptorKind) :
    ((guestlibTfOptFini lib s).book k).Drained ∧
      ∀ d, d ∈ live (guestlibTfOptFini lib s).library k ↔ d ∈ (s.book k).held := by
  obtain ⟨-, hexact⟩ := bookExact_of_reaches hlib hdestroys hempty hrun
  obtain ⟨hcomplete, hbook⟩ := finiKinds_spec hlib hdestroys
    [DescriptorKind.convolution, .pooling, .tensor, .filter, .event]
    fun j => (hexact j).tracksAll
  have hmem : k ∈ [DescriptorKind.convolution, .pooling, .tensor, .filter, .event] := by
    cases k <;> simp
  obtain ⟨hheld, hdrained⟩ := hbook k
  have hempty' := hdrained (.inl hmem)
  refine ⟨hempty', ?_⟩
  have hall := hcomplete k
  rw [hempty'.1, hempty'.2, hheld, List.append_nil, List.nil_append] at hall
  exact fun d => ⟨hall.complete d, hall.alive d⟩

theorem fini_leaves_what_is_held_two :
    ∃ s, runGuarded (pooledStep (numberingLibrary DescriptorKind))
        (fun s c => c.legal s ∧ c.served (numberingLibrary DescriptorKind) s)
        (PooledProgram.init fun _ => []) twoTensors = some s ∧
      (s.book .tensor).held = [2] ∧
      ((guestlibTfOptFini (numberingLibrary DescriptorKind) s).book .tensor).Drained := by
  have h : Reaches (pooledStep (numberingLibrary DescriptorKind))
      (fun s c => c.legal s ∧ c.served (numberingLibrary DescriptorKind) s)
      (PooledProgram.init fun _ => []) _ := Reaches.of_runGuarded twoTensors rfl
  exact ⟨_, rfl, rfl, (fini_leaves_what_is_held numberingLibrary_lawful numberingLibrary_destroys
    (fun _ => rfl) h .tensor).1⟩

end Ava.Cuda
