import Ava.Channel.Socket
import Ava.Generator.Types

/-!
# The caller side of a call

`generator/c/caller.py` and `generator/c/buffer_handling.py` emit the code with which the guest
fills a command: `compute_total_size` sums the sizes of the buffers, the command is allocated, and
`attach_for_argument` copies each argument into the command struct and attaches its buffers. The
functions below are what the emitted code does on a socket channel; a failed assertion is `none`.
-/

set_option autoImplicit false

namespace Ava.Generator

open Ava.Lib Ava.Channel

/-- `HAS_OUT_BUFFER_SENTINEL`. -/
def hasOutBufferSentinel : Nat := 1

/-- `sizeof(struct ava_buffer_header_t)`. -/
def bufferHeaderSize : Nat := 24

/-- `struct ava_buffer_header_t`. -/
def bufferHeader (id : Nat) (hasData : Bool) (size : Nat) : Bytes :=
  leBytes 8 id ++ leBytes 1 hasData.toNat ++ List.replicate 7 0 ++ leBytes 8 size

/-- `attach_buffer`: the id of the attached data, the first `size` bytes of `data`. A buffer that
outlives the call is attached behind a header with the id of its shadow record, which is looked up
when the header is attached at a given offset. -/
def attachBuffer (input : Bool) (shadowId : Nat → Nat) (lifetime : Lifetime) (size : Nat)
    (data : Bytes) (d : SocketDraft) : Option (Nat × SocketDraft) :=
  match lifetime, input with
  | .call, true => d.attachBuffer (data.take size)
  | .call, false => some (hasOutBufferSentinel, d)
  | _, true =>
    (d.attachBuffer (bufferHeader (shadowId d.curOffset) true size)).bind fun r =>
      r.2.attachBuffer (data.take size)
  | _, false =>
    (d.attachBuffer (bufferHeader (shadowId d.curOffset) false size)).map fun r =>
      (r.1 + bufferHeaderSize, r.2)

/-- The bytes that `attach_buffer` adds to the data region. -/
def attachedSize (input : Bool) (lifetime : Lifetime) (size : Nat) : Nat :=
  match lifetime, input with
  | .call, true => size
  | .call, false => 0
  | _, true => bufferHeaderSize + size
  | _, false => bufferHeaderSize

section

variable (input : Bool)

mutual

/-- `compute_size`, from `compute_total_size`. The emitted code sums in `size_t`; here the sum is not
reduced yet. -/
def computeSize : Ty → Option Ty → Path → Val → Nat
  | .buffer annotations pointee, originalType, path, .buffer elements =>
    if 0 < annotations.buffer path then
      (if pointee.isBlob true then 0
        else (elements.mapIdx fun i e => computeSize pointee none (i :: path) e).sum) +
      attachedSize input annotations.lifetime
        (computeBufferSize annotations pointee originalType path * pointee.sizeof)
    else 0
  | .struct fields, _, path, .struct values => computeFieldSizes fields path values
  | .conditional predicate thenType elseType originalType, _, path, v =>
    if predicate path then computeSize thenType (some originalType) path v
    else computeSize elseType (some originalType) path v
  | _, _, _, _ => 0

def computeFieldSizes : Fields → Path → List Val → Nat
  | .cons field rest, path, v :: values =>
    computeSize field none path v + computeFieldSizes rest path values
  | _, _, _ => 0

end

variable (shadowId : Nat → Nat)

mutual

/-- `copy_for_value`, from `attach_for_argument`: the bytes of the value in the command and the
command after its buffers are attached. A buffer whose elements hold nothing but opaque values and
handles is attached as it is in memory. -/
def copyForValue : Ty → Option Ty → Path → Val → SocketDraft → Option (Bytes × SocketDraft)
  | .scalar _, _, _, .scalar bytes, d => some (bytes, d)
  | .handle _, _, _, .handle id, d => some (leBytes 8 id.toNat, d)
  | .buffer _ _, _, _, .null, d => some (leBytes 8 0, d)
  | .buffer annotations pointee, originalType, path, .buffer elements, d =>
    if 0 < annotations.buffer path then
      let size := sizeToBytes (computeBufferSize annotations pointee originalType path) pointee
      if pointee.isBlob true || !input then
        (attachBuffer input shadowId annotations.lifetime size (Val.images elements) d).map
          fun r => (leBytes 8 r.1, r.2)
      else
        (forIndexed (fun i e d => copyForValue pointee none (i :: path) e d) 0 elements d).bind
          fun tmp =>
            (attachBuffer input shadowId annotations.lifetime size tmp.1.flatten tmp.2).map
              fun r => (leBytes 8 r.1, r.2)
    else some (leBytes 8 0, d)
  | .struct fields, _, path, .struct values, d => copyForFields fields path values d
  | .conditional predicate thenType elseType originalType, _, path, v, d =>
    if predicate path then copyForValue thenType (some originalType) path v d
    else copyForValue elseType (some originalType) path v d
  | _, _, _, _, _ => none

def copyForFields : Fields → Path → List Val → SocketDraft → Option (Bytes × SocketDraft)
  | .nil, _, [], d => some ([], d)
  | .cons field rest, path, v :: values, d =>
    (copyForValue field none path v d).bind fun r =>
      (copyForFields rest path values r.2).map fun q => (r.1 ++ q.1, q.2)
  | _, _, _, _ => none

end

end

/-- What `compute_total_size` adds for an argument, before the reduction to `size_t`. -/
def Argument.totalSize (arg : Argument) (v : Val) : Nat := computeSize arg.input arg.type none [] v

/-- `attach_for_argument`. -/
def Argument.attach (arg : Argument) (shadowId : Nat → Nat) (v : Val) (d : SocketDraft) :
    Option (Bytes × SocketDraft) := copyForValue arg.input shadowId arg.type none [] v d

end Ava.Generator
