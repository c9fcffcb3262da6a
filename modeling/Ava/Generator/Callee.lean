import Ava.Channel.Log
import Ava.Endpoint.HandlePool
import Ava.Generator.Caller

/-!
# The callee side of a call

`convert_input_for_argument` of `generator/c/callee.py` emits the code with which the worker
rebuilds an argument from a received command. The transfer buffer of a buffer is where its data lies
in the command; its local buffer is what the native function gets. For a simple buffer with call
lifetime that `malloc` would allocate the two are the same, and in every other case the local buffer
is allocated: as a temporary, by the allocator of the annotation, or as a shadow buffer.

A conversion threads the handle pool and lists the local buffers. Reading outside of the command and
a failed assertion are `none`.
-/

set_option autoImplicit false

namespace Ava.Generator

open Ava.Lib Ava.Channel Ava.Endpoint

/-- Where a local buffer lies: at an offset of the command, or in memory of its own. -/
inductive Location where
  | transfer (offset : Nat)
  | allocated
deriving DecidableEq, Repr

/-- A local buffer and its size in bytes. -/
structure LocalBuffer where
  location : Location
  size : Nat
deriving DecidableEq, Repr

/-- What the conversion of the arguments changes. -/
structure Conversion where
  pool : HandlePool
  locals : List LocalBuffer

/-- One more local buffer. -/
def Conversion.addLocal (c : Conversion) (b : LocalBuffer) : Conversion :=
  { c with locals := c.locals ++ [b] }

/-- `nw_handle_pool_deref` or, for a handle that the call deallocates,
`nw_handle_pool_deref_and_remove`. -/
def derefHandle (deallocates : Bool) (id : Ptr) (pool : HandlePool) : Option (Ptr × HandlePool) :=
  if deallocates then pool.derefAndRemove id else (pool.deref id).map fun handle => (handle, pool)

/-- The field `size` of the header in front of a buffer that outlives the call. -/
def headerSize (block : Bytes) (param : Nat) : Nat :=
  leNat (slice block (param - bufferHeaderSize + 16) 8)

/-- `__buffer_size` after the code of `get_buffer`. -/
def getBufferSize (block : Bytes) (annotations : BufferAnnotations) (pointee : Ty)
    (originalType : Option Ty) (path : Path) (param : Nat) : Nat :=
  if annotations.lifetime = .call then computeBufferSize annotations pointee originalType path
  else headerSize block param / pointee.sizeof

/-- The local buffer of a simple buffer whose data is at `param`. -/
def simpleLocation (annotations : BufferAnnotations) (param : Nat) : Location :=
  if annotations.lifetime = .call ∧ annotations.allocator = .malloc then .transfer param
  else .allocated

section

variable (input : Bool) (block : Bytes)

mutual

/-- `convert_input_value`, from `convert_input_for_argument`, on the bytes of the value in the
command. All elements of a buffer that was sent have to lie in the command. -/
def convertInputValue : Ty → Option Ty → Path → Bytes → Conversion → Option (Val × Conversion)
  | .scalar _, _, _, bytes, c => some (.scalar bytes, c)
  | .handle deallocates, _, _, bytes, c =>
    (derefHandle deallocates (UInt64.ofNat (leNat bytes)) c.pool).map fun r =>
      (.handle r.1, { c with pool := r.2 })
  | .buffer annotations pointee, originalType, path, bytes, c =>
    let param := leNat bytes
    if param = 0 then some (.null, c)
    else if input then
      let size := getBufferSize block annotations pointee originalType path param
      (readAt block param (size * pointee.sizeof)).bind fun src =>
        -- a simple buffer is used where it lies if it can be, a complex one is rebuilt
        -- element by element in a temporary
        if pointee.isBlob false then
          some (.buffer ((chunks pointee.sizeof size src).mapIdx fun i e =>
              pointee.view (i :: path) e),
            c.addLocal ⟨simpleLocation annotations param, size * pointee.sizeof⟩)
        else
          (forIndexed (fun i e c => convertInputValue pointee none (i :: path) e c) 0
            (chunks pointee.sizeof size src)
            (c.addLocal ⟨.allocated, size * pointee.sizeof⟩)).map fun r => (.buffer r.1, r.2)
    else
      -- nothing was sent: the local buffer is a temporary or the shadow buffer
      let size := getBufferSize block annotations pointee originalType path param
      some (.uninitialized, c.addLocal ⟨.allocated, sizeToBytes size pointee⟩)
  | .struct fields, _, path, bytes, c =>
    (convertInputFields fields path bytes c).map fun r => (.struct r.1, r.2)
  | .conditional predicate thenType elseType originalType, _, path, bytes, c =>
    if predicate path then convertInputValue thenType (some originalType) path bytes c
    else convertInputValue elseType (some originalType) path bytes c

def convertInputFields : Fields → Path → Bytes → Conversion → Option (List Val × Conversion)
  | .nil, _, _, c => some ([], c)
  | .cons field rest, path, bytes, c =>
    (convertInputValue field none path (bytes.take field.sizeof) c).bind fun r =>
      (convertInputFields rest path (bytes.drop field.sizeof) r.2).map fun q =>
        (r.1 :: q.1, q.2)

end

end

/-- `convert_input_for_argument`, for an argument whose field is at `offset` of the command. The
original type of an argument is its own type. -/
def Argument.convertInput (arg : Argument) (block : Bytes) (offset : Nat) (c : Conversion) :
    Option (Val × Conversion) :=
  convertInputValue arg.input block arg.type (some arg.type) []
    (slice block offset arg.type.sizeof) c

end Ava.Generator
