import Ava.Lib.Bytes
import Ava.Lib.IndexedLoop
import Ava.Endpoint.Ids

/-!
# The types of the stub generator

The generator of `cava/nightwatch` emits C code that walks the annotated type of an argument. `Ty`
is that type with the annotations the marshalling code reads (`nightwatch/model.py`): the transfer
kind is the constructor, and a buffer carries its size expression, lifetime and allocator. A
`ConditionalType` has a predicate, two branches, and the original type whose size, fields and
transfer kind it reports as its own.

The annotation expressions of a buffer and of a conditional are evaluated at run time, inside the
loops over the buffers around them. `Path` lists the indices of those loops, innermost first, and an
expression is a function of the path.
-/

set_option autoImplicit false

namespace Ava.Generator

open Ava.Lib Ava.Endpoint

/-- The values of `ava_index` around a position in a type, innermost first. -/
abbrev Path := List Nat

/-- `enum ava_lifetime_t`. -/
inductive Lifetime where
  | call
  | coupled
  | static
  | manual
deriving DecidableEq, Repr

/-- `buffer_allocator`, of which the generator asks only whether it is `malloc`. -/
inductive Allocator where
  | malloc
  | custom
deriving DecidableEq, Repr

/-- The annotations of a buffer: `buffer` is the expression for its number of elements. With them
goes the spelling of the element type, by which `compute_buffer_size` compares element types. -/
structure BufferAnnotations where
  buffer : Path → Int
  lifetime : Lifetime
  allocator : Allocator
  pointeeSpelling : String

mutual

/-- An annotated type. A scalar is any `NW_OPAQUE` value without fields, a handle may be one that
the call deallocates. -/
inductive Ty where
  | scalar (width : Nat)
  | handle (deallocates : Bool)
  | buffer (annotations : BufferAnnotations) (pointee : Ty)
  | struct (fields : Fields)
  | conditional (predicate : Path → Bool) (thenType elseType originalType : Ty)

/-- The fields of a struct, in the order of their layout; they are processed in this order, for
which `_sort_fields` may take another one that respects their dependencies. The padding that the
compiler adds is a field of its own, a scalar. -/
inductive Fields where
  | nil
  | cons (field : Ty) (rest : Fields)

end

mutual

/-- `sizeof`. -/
def Ty.sizeof : Ty → Nat
  | .scalar width => width
  | .handle _ => 8
  | .buffer _ _ => 8
  | .struct fields => fields.sizeof
  | .conditional _ _ _ originalType => originalType.sizeof

def Fields.sizeof : Fields → Nat
  | .nil => 0
  | .cons field rest => field.sizeof + rest.sizeof

end

mutual

/-- `is_blob`: nothing inside a value of the type has to be translated, handles apart if they are
allowed. A conditional type answers for its original type. -/
def Ty.isBlob (allowHandle : Bool) : Ty → Bool
  | .scalar _ => true
  | .handle _ => allowHandle
  | .buffer _ _ => false
  | .struct fields => fields.areBlobs allowHandle
  | .conditional _ _ _ originalType => originalType.isBlob allowHandle

def Fields.areBlobs (allowHandle : Bool) : Fields → Bool
  | .nil => true
  | .cons field rest => field.isBlob allowHandle && rest.areBlobs allowHandle

end

/-- The attribute `pointee` with its spelling, which a conditional type copies from its original
type. -/
def Ty.pointee? : Ty → Option (String × Ty)
  | .buffer annotations pointee => some (annotations.pointeeSpelling, pointee)
  | .conditional _ _ _ originalType => originalType.pointee?
  | _ => none

/-- The conversion to `size_t`. -/
def sizeT (n : Int) : Nat := (n % 2 ^ 64).toNat

/-- `compute_buffer_size`: the number of elements of a buffer with elements of type `pointee`. The
size expression counts elements of the original type, so directly inside a conditional type it is
scaled by the two element sizes, with a product in `size_t`. -/
def computeBufferSize (annotations : BufferAnnotations) (pointee : Ty) (originalType : Option Ty)
    (path : Path) : Nat :=
  let size := sizeT (annotations.buffer path)
  match originalType.bind Ty.pointee? with
  | some (spelling, originalPointee) =>
    if spelling = annotations.pointeeSpelling then size
    else size * originalPointee.sizeof % 2 ^ 64 / pointee.sizeof
  | none => size

/-- `size_to_bytes`, a product in `size_t`. -/
def sizeToBytes (size : Nat) (pointee : Ty) : Nat := size * pointee.sizeof % 2 ^ 64

theorem sizeToBytes_of_lt {size : Nat} {pointee : Ty} (h : size * pointee.sizeof < 2 ^ 64) :
    sizeToBytes size pointee = size * pointee.sizeof := Nat.mod_eq_of_lt h

/-! ## Values -/

/-- A value as a tree. On the guest a handle is an id; on the worker it is a native handle. The
worker also has buffers that nobody has written to. -/
inductive Val where
  | scalar (bytes : Bytes)
  | handle (ptr : Ptr)
  | null
  | buffer (elements : List Val)
  | uninitialized
  | struct (fields : List Val)

mutual

/-- The bytes a value without buffers occupies in memory. -/
def Val.image : Val → Bytes
  | .scalar bytes => bytes
  | .handle ptr => leBytes 8 ptr.toNat
  | .struct fields => Val.images fields
  | _ => []

def Val.images : List Val → Bytes
  | [] => []
  | v :: vs => v.image ++ Val.images vs

end

mutual

/-- What is found in memory that is read at a type without buffers. -/
def Ty.view : Ty → Path → Bytes → Val
  | .scalar _, _, bytes => .scalar bytes
  | .handle _, _, bytes => .handle (UInt64.ofNat (leNat bytes))
  | .buffer _ _, _, _ => .null
  | .struct fields, path, bytes => .struct (fields.view path bytes)
  | .conditional predicate thenType elseType _, path, bytes =>
    if predicate path then thenType.view path bytes else elseType.view path bytes

def Fields.view : Fields → Path → Bytes → List Val
  | .nil, _, _ => []
  | .cons field rest, path, bytes =>
    field.view path (bytes.take field.sizeof) :: rest.view path (bytes.drop field.sizeof)

end

/-- An argument of a function. -/
structure Argument where
  type : Ty
  input : Bool

end Ava.Generator
