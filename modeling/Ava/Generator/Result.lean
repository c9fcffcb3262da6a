import Ava.Generator.Callee

/-!
# The reply to a call

After the native function has returned, the code of `convert_result_for_argument`
(`generator/c/callee.py`) puts the output arguments and the return value into the reply, and on the
guest the code of `copy_result_for_argument` (`generator/c/caller.py`) copies them from the received
reply to where the caller of the function expects them.

On the worker a value is again a tree. What the guest does with a reply is a sequence of stores, so
there the model is the memory of the guest, in which `NULL` is the address 0; the call record, which
holds the arguments of the call, lies in this memory as well. A store outside of the memory, a read
outside of the reply and a failed assertion are `none`.
-/

set_option autoImplicit false

namespace Ava.Generator

open Ava.Lib Ava.Channel Ava.Endpoint

/-- An argument or the return value of a function, with the directions in which it is copied. -/
structure DirectedArgument extends Argument where
  output : Bool
  ret : Bool

/-- `contains_buffer`: the type has a size expression of its own. A conditional type has that of its
original type. -/
def Ty.containsBuffer : Ty → Bool
  | .buffer _ _ => true
  | .conditional _ _ _ originalType => originalType.containsBuffer
  | _ => false

/-! ## The worker -/

/-- A reply that is being built, and the handle pool of the worker. -/
structure Reply where
  draft : SocketDraft
  pool : HandlePool

section

variable (output : Bool) (shadowId : Nat → Nat)

/-- `attach_buffer` for a reply: it differs from the one for a call in that a buffer without output
and with call lifetime is sent as `NULL`. -/
def Reply.attachBuffer (lifetime : Lifetime) (size : Nat) (data : Bytes) (r : Reply) :
    Option (Bytes × Reply) :=
  if lifetime = .call ∧ output = false then some (leBytes 8 0, r)
  else
    (Generator.attachBuffer output shadowId lifetime size data r.draft).map fun q =>
      (leBytes 8 q.1, { r with draft := q.2 })

variable (tag : UInt64)

mutual

/-- `convert_result_value`, from `convert_result_for_argument`: the bytes of the value in the reply.
A simple buffer is attached as it is, if it has elements; the elements of any other output buffer
are converted into a temporary, and the temporary is attached. -/
def convertResultValue : Ty → Option Ty → Path → Val → Reply → Option (Bytes × Reply)
  | .scalar _, _, _, .scalar bytes, r => some (bytes, r)
  | .handle deallocates, _, _, .handle handle, r =>
    if deallocates then some (leBytes 8 0, r)
    else
      (r.pool.lookupOrInsert tag handle).map fun q =>
        (leBytes 8 q.1.toNat, { r with pool := q.2 })
  | .buffer _ _, _, _, .null, r => some (leBytes 8 0, r)
  | .buffer annotations pointee, originalType, path, .buffer elements, r =>
    let size := sizeToBytes (computeBufferSize annotations pointee originalType path) pointee
    if pointee.isBlob false || !output then
      if 0 < annotations.buffer path then
        r.attachBuffer output shadowId annotations.lifetime size (Val.images elements)
      else some (leBytes 8 0, r)
    else
      -- the size expression is not tested here
      (forIndexed (fun i e r =>
        convertResultValue pointee none (i :: path) e r) 0 elements r).bind
        fun tmp => tmp.2.attachBuffer output shadowId annotations.lifetime size tmp.1.flatten
  | .struct fields, _, path, .struct values, r => convertResultFields fields path values r
  | .conditional predicate thenType elseType originalType, _, path, v, r =>
    if predicate path then convertResultValue thenType (some originalType) path v r
    else convertResultValue elseType (some originalType) path v r
  | _, _, _, _, _ => none

def convertResultFields : Fields → Path → List Val → Reply → Option (Bytes × Reply)
  | .nil, _, [], r => some ([], r)
  | .cons field rest, path, v :: values, r =>
    (convertResultValue field none path v r).bind fun p =>
      (convertResultFields rest path values p.2).map fun q => (p.1 ++ q.1, q.2)
  | _, _, _, _ => none

end

end

/-- `convert_result_for_argument`, for an argument with output or the return value. -/
def DirectedArgument.convertResult (arg : DirectedArgument) (shadowId : Nat → Nat)
    (tag : UInt64) (v : Val)
    (r : Reply) : Option (Bytes × Reply) :=
  convertResultValue arg.output shadowId tag arg.type none [] v r

/-! ## The guest -/

/-- A store of some bytes. -/
def store (mem : Bytes) (address : Nat) (data : Bytes) : Option Bytes :=
  if address + data.length ≤ mem.length then some (writeAt mem address data) else none

section

variable (output ret : Bool) (block : Bytes) (shadowBuffer : Nat → Nat)

/-- The buffer of the guest that the data with the given id is for. With call lifetime the caller of
the function has passed it, and the call record has its address; otherwise
`ava_shadow_buffer_get_buffer` finds or allocates it, and its address is stored. -/
def resultBuffer (lifetime : Lifetime) (param id : Nat) (mem : Bytes) : Option (Nat × Bytes) :=
  if lifetime = .call then (readAt mem param 8).map fun bytes => (leNat bytes, mem)
  else (store mem param (leBytes 8 (shadowBuffer id))).map fun mem => (shadowBuffer id, mem)

mutual

/-- `convert_result_value`, from `copy_result_for_argument`, for a value at `src` in the reply whose
place in the guest is `param`. -/
def copyResultValue : Ty → Option Ty → Path → Nat → Nat → Bytes → Option Bytes
  | .scalar width, _, _, param, src, mem =>
    if output || ret then (readAt block src width).bind (store mem param) else some mem
  | .handle _, _, _, param, src, mem =>
    if output || ret then (readAt block src 8).bind (store mem param) else some mem
  | .buffer annotations pointee, originalType, path, param, src, mem =>
    if output then
      (readAt block src 8).bind fun id =>
        if leNat id = 0 then some mem
        else
          (resultBuffer shadowBuffer annotations.lifetime param (leNat id) mem).bind fun dst =>
            let size := getBufferSize block annotations pointee originalType path (leNat id)
            if dst.1 = 0 then none
            else if pointee.isBlob false then
              (readAt block (leNat id) (sizeToBytes size pointee)).bind (store dst.2 dst.1)
            else
              (List.range size).foldlM (fun mem i => copyResultValue pointee none (i :: path)
                (dst.1 + i * pointee.sizeof) (leNat id + i * pointee.sizeof) mem) dst.2
    else some mem
  | .struct fields, _, path, param, src, mem => copyResultFields fields path param src mem
  | .conditional predicate thenType elseType originalType, _, path, param, src, mem =>
    if predicate path then copyResultValue thenType (some originalType) path param src mem
    else copyResultValue elseType (some originalType) path param src mem

def copyResultFields : Fields → Path → Nat → Nat → Bytes → Option Bytes
  | .nil, _, _, _, mem => some mem
  | .cons field rest, path, param, src, mem =>
    (copyResultValue field none path param src mem).bind fun mem =>
      copyResultFields rest path (param + field.sizeof) (src + field.sizeof) mem

end

end

/-- `copy_result_for_argument`: `record` is the address of the argument in the call record, and
`offset` that of its field in the reply. -/
def DirectedArgument.copyResult (arg : DirectedArgument) (block : Bytes) (shadowBuffer : Nat → Nat)
    (record offset : Nat) (mem : Bytes) : Option Bytes :=
  copyResultValue arg.output arg.ret block shadowBuffer arg.type none [] record offset mem

end Ava.Generator
