import Ava.Lib.HashTable
import Ava.Lib.Transition
import Mathlib.Data.Finset.Basic
import Mathlib.Logic.Function.Basic

/-!
# Shadow buffers

A buffer that lives longer than a call has a record at both ends. The end that owns the memory has a
solid buffer, which the application allocates and releases; the other end has a shadow buffer, which
the endpoint library allocates and frees. `common/endpoint_lib.c` finds a record by the id that the
two ends use for the buffer, in `buffers_by_id`, and by the address of the local buffer, in the
metadata of that address. The metadata of an object also lists the records of the buffers that are
to be freed with it.

Records are heap objects, and the tables and lists have pointers to them. An operation names what
the allocator returns, for a buffer and for a record, and what a freed record reads as.
-/

set_option autoImplicit false

namespace Ava.Endpoint

open Ava.Lib
open Function (update)

/-- `enum ava_lifetime_t`. -/
inductive Lifetime where
  | call | coupled | static | manual
deriving DecidableEq, Repr

/-- `struct ava_shadow_record_t`. Of the deallocator it matters whether it is `NULL`: then the
buffer is solid. -/
structure ShadowRecord (ι α : Type) where
  size : Nat
  deallocator : Bool
  id : ι
  localBuffer : α
deriving DecidableEq

/-- The fields of `struct ava_metadata_base` for buffers. -/
structure BufferMetadata (ρ : Type) where
  coupledShadowBuffers : Option (List ρ)
  shadow : Option ρ
deriving DecidableEq

/-- The records of an endpoint. Metadata that does not exist yet is all zero. -/
structure ShadowPool (ι α ρ : Type) where
  buffersById : HashTable ι ρ
  /-- The heap objects that the pointers to records point to. -/
  records : HashTable ρ (ShadowRecord ι α)
  metadata : α → BufferMetadata ρ
  /-- The addresses of the buffers that are allocated, by the application or by the endpoint. -/
  allocated : Finset α

/-- Failed assertions and checks, the access to a freed record, a recursion that does not end, and
steps that an allocator or an application does not take. -/
inductive ShadowFault where
  | callLifetime | noRecord | idMismatch | duplicateId | shadowNotNull | solidDeallocated
  | dangling | recursion | impossible
deriving DecidableEq, Repr

/-- The arguments of `ava_shadow_buffer_new_shadow` and `ava_shadow_buffer_get`, and what the
allocators return for a buffer and a record, should they be called. -/
structure ShadowRequest (ι α ρ : Type) where
  id : ι
  size : Nat
  lifetime : Lifetime
  lifetimeCoupled : Option α
  newBuffer : α
  newRecord : ρ

/-- The object that a new shadow buffer is coupled to. -/
def ShadowRequest.coupledTo {ι α ρ : Type} (q : ShadowRequest ι α ρ) : Option α :=
  if q.lifetime = .manual then some q.newBuffer else q.lifetimeCoupled

namespace ShadowPool

variable {ι α ρ : Type} [DecidableEq ι] [DecidableEq α] [DecidableEq ρ]

def empty : ShadowPool ι α ρ := ⟨∅, ∅, fun _ => ⟨none, none⟩, ∅⟩

/-! ## The code -/

/-- `ava_shadow_buffer_new_record_unlocked`. -/
def newRecordUnlocked (s : ShadowPool ι α ρ) (id : ι) (size : Nat) (buffer : α)
    (deallocator : Bool) (ptr : ρ) : Except ShadowFault (ShadowPool ι α ρ) :=
  if ptr ∈ s.records then .error .impossible
  else if id ∈ s.buffersById then .error .duplicateId
  else if (s.metadata buffer).shadow ≠ none then .error .shadowNotNull
  else
    .ok { s with
      records := s.records.insert ptr ⟨size, deallocator, id, buffer⟩
      buffersById := s.buffersById.insert id ptr
      metadata := update s.metadata buffer { s.metadata buffer with shadow := some ptr } }

/-- `ava_shadow_buffer_free_record_unlocked`: the removal from the table frees the record that the
table has. -/
def freeRecordUnlocked (s : ShadowPool ι α ρ) (ptr : ρ) :
    Except ShadowFault (ShadowPool ι α ρ) :=
  match s.records.lookup ptr with
  | none => .error .dangling
  | some r =>
    if r.deallocator then
      .ok { s with
        allocated := s.allocated.erase r.localBuffer
        records := match s.buffersById.lookup r.id with
          | some removed => s.records.erase removed
          | none => s.records
        buffersById := s.buffersById.erase r.id }
    else .error .solidDeallocated

/-- `ava_shadow_buffer_free_unlocked`. -/
def freeUnlocked (s : ShadowPool ι α ρ) (buffer : α) : Except ShadowFault (ShadowPool ι α ρ) :=
  match (s.metadata buffer).shadow with
  | none => .ok s
  | some ptr => do
      let s ← s.freeRecordUnlocked ptr
      .ok { s with metadata := update s.metadata buffer { s.metadata buffer with shadow := none } }

/-- A record is added to the list of an object. -/
def couple (s : ShadowPool ι α ρ) (obj : α) (ptr : ρ) : ShadowPool ι α ρ :=
  { s with metadata := update s.metadata obj { s.metadata obj with
      coupledShadowBuffers := some ((s.metadata obj).coupledShadowBuffers.getD [] ++ [ptr]) } }

/-- `ava_shadow_buffer_new_shadow_unlocked`, for an id without a record. -/
def createShadow (s : ShadowPool ι α ρ) (q : ShadowRequest ι α ρ) :
    Except ShadowFault (α × ShadowPool ι α ρ) :=
  if q.newBuffer ∈ s.allocated then .error .impossible
  else do
    let s ← { s with allocated := insert q.newBuffer s.allocated }.newRecordUnlocked
      q.id q.size q.newBuffer true q.newRecord
    match q.coupledTo with
    | none => .ok (q.newBuffer, s)
    | some obj => .ok (q.newBuffer, s.couple obj q.newRecord)

/-- `ava_shadow_buffer_get_unlocked`. A shadow buffer that is too small is freed and created again,
which is `again`. -/
def getUnlocked (again : ShadowPool ι α ρ → Except ShadowFault (α × ShadowPool ι α ρ))
    (s : ShadowPool ι α ρ) (q : ShadowRequest ι α ρ) :
    Except ShadowFault (α × ShadowPool ι α ρ) :=
  if q.lifetime = .call then .error .callLifetime
  else
    match s.buffersById.lookup q.id with
    | none => .error .noRecord
    | some ptr =>
      match s.records.lookup ptr with
      | none => .error .dangling
      | some r =>
        if r.id ≠ q.id then .error .idMismatch
        else if r.size < q.size ∧ r.deallocator = true then do
          let s ← s.freeUnlocked r.localBuffer
          again s
        else .ok (r.localBuffer, s)

/-- `ava_shadow_buffer_new_shadow_unlocked`, with a bound on the recursion through
`ava_shadow_buffer_get_unlocked`. -/
def newShadowUnlocked (q : ShadowRequest ι α ρ) :
    Nat → ShadowPool ι α ρ → Except ShadowFault (α × ShadowPool ι α ρ)
  | 0, _ => .error .recursion
  | fuel + 1, s =>
    if q.lifetime = .call then .error .callLifetime
    else if q.id ∈ s.buffersById then s.getUnlocked (newShadowUnlocked q fuel) q
    else s.createShadow q

/-- `ava_shadow_buffer_new_solid_unlocked`, with the id that `next_id` returns. -/
def newSolidUnlocked (s : ShadowPool ι α ρ) (buffer : α) (size : Nat) (lifetime : Lifetime)
    (nextId : ι) (ptr : ρ) : Except ShadowFault (ShadowPool ι α ρ) :=
  if lifetime = .call then .error .callLifetime
  else if (s.metadata buffer).shadow ≠ none then .ok s
  else s.newRecordUnlocked nextId size buffer false ptr

/-- The local buffer of a record that a list points to; a freed record can read as anything. -/
def readLocal (s : ShadowPool ι α ρ) (freed : ρ → α) (ptr : ρ) : α :=
  match s.records.lookup ptr with
  | some r => r.localBuffer
  | none => freed ptr

/-- `ava_shadow_buffer_free_coupled_unlocked`. -/
def freeCoupledUnlocked (s : ShadowPool ι α ρ) (obj : α) (freed : ρ → α) :
    Except ShadowFault (ShadowPool ι α ρ) :=
  match (s.metadata obj).coupledShadowBuffers with
  | none => .ok s
  | some ptrs => do
      let s ← ptrs.foldlM (fun s ptr => s.freeUnlocked (s.readLocal freed ptr)) s
      .ok { s with
        metadata := update s.metadata obj { s.metadata obj with coupledShadowBuffers := none } }

/-! ## Steps -/

/-- The operations of the endpoint, and those of the application on its own buffers. -/
inductive Op (ι α ρ : Type) where
  | attachSolid (buffer : α) (size : Nat) (lifetime : Lifetime) (nextId : ι) (ptr : ρ)
  | newShadow (q : ShadowRequest ι α ρ)
  | get (q : ShadowRequest ι α ρ)
  | free (buffer : α)
  | freeCoupled (obj : α) (freed : ρ → α)
  | allocate (buffer : α)
  | release (buffer : α)

/-- Whether the buffer at an address is one that the endpoint has allocated. -/
def isShadow (s : ShadowPool ι α ρ) (buffer : α) : Bool :=
  match (s.metadata buffer).shadow.bind s.records.lookup with
  | some r => r.deallocator
  | none => false

/-- The effect of an operation, or why there is none. Two rounds of the recursion are enough, see
`newShadowUnlocked_eq`. -/
def run (s : ShadowPool ι α ρ) : Op ι α ρ → Except ShadowFault (ShadowPool ι α ρ)
  | .attachSolid buffer size lifetime nextId ptr =>
    s.newSolidUnlocked buffer size lifetime nextId ptr
  | .newShadow q => (newShadowUnlocked q 2 s).map Prod.snd
  | .get q => (s.getUnlocked (newShadowUnlocked q 2) q).map Prod.snd
  | .free buffer => s.freeUnlocked buffer
  | .freeCoupled obj freed => s.freeCoupledUnlocked obj freed
  | .allocate buffer =>
    if buffer ∈ s.allocated then .error .impossible
    else .ok { s with allocated := insert buffer s.allocated }
  | .release buffer =>
    if buffer ∉ s.allocated ∨ s.isShadow buffer = true then .error .impossible
    else .ok { s with allocated := s.allocated.erase buffer }

def step (s : ShadowPool ι α ρ) (op : Op ι α ρ) : Option (ShadowPool ι α ρ) := (s.run op).toOption

end ShadowPool

end Ava.Endpoint
