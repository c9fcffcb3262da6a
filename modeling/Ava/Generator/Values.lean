import Ava.Endpoint.HandlePool
import Ava.Generator.Callee

/-!
# What marshalling has to preserve

`HasType` says which value trees a guest can pass at an annotated type: a buffer has the number of
elements that `compute_buffer_size` reads off its annotations. `translate` is the value the worker
should see, whatever the emitted code does: the same tree with the handle ids translated through the
pool, and with `NULL` for a buffer that is `NULL` or has no elements.

`Ty.Consistent` collects what the parser and the C compiler give the generator. A `ConditionalType`
and its branches are converted with one set of annotations, a branch is a cast of the same storage,
and its fields are read through the declared type. So the branches have the size of the original
type, and where the original type lets the generator treat the elements of a buffer as a blob, no
branch holds anything that needs a translation.
-/

set_option autoImplicit false

namespace Ava.Generator

open Ava.Lib Ava.Channel Ava.Endpoint

mutual

/-- No branch of the type has anything to translate, handles apart if they are allowed. -/
def Ty.isPlain (allowHandle : Bool) : Ty → Bool
  | .scalar _ => true
  | .handle _ => allowHandle
  | .buffer _ _ => false
  | .struct fields => fields.arePlain allowHandle
  | .conditional _ thenType elseType _ =>
    thenType.isPlain allowHandle && elseType.isPlain allowHandle

def Fields.arePlain (allowHandle : Bool) : Fields → Bool
  | .nil => true
  | .cons field rest => field.isPlain allowHandle && rest.arePlain allowHandle

end

mutual

/-- A type whose conditionals agree with their original types in the two ways above. -/
def Ty.Consistent : Ty → Prop
  | .buffer _ pointee =>
    (∀ allowHandle, pointee.isBlob allowHandle = true → pointee.isPlain allowHandle = true) ∧
      pointee.Consistent
  | .struct fields => fields.Consistent
  | .conditional _ thenType elseType originalType =>
    (thenType.sizeof = originalType.sizeof ∧ thenType.Consistent) ∧
      (elseType.sizeof = originalType.sizeof ∧ elseType.Consistent)
  | _ => True

def Fields.Consistent : Fields → Prop
  | .nil => True
  | .cons field rest => field.Consistent ∧ rest.Consistent

end

mutual

/-- All buffers of the type have call lifetime. -/
def Ty.CallLifetime : Ty → Prop
  | .buffer annotations pointee => annotations.lifetime = .call ∧ pointee.CallLifetime
  | .struct fields => fields.CallLifetime
  | .conditional _ thenType elseType _ => thenType.CallLifetime ∧ elseType.CallLifetime
  | _ => True

def Fields.CallLifetime : Fields → Prop
  | .nil => True
  | .cons field rest => field.CallLifetime ∧ rest.CallLifetime

end

/-- A consistent type whose buffers have call lifetime. -/
def Ty.WellFormed (ty : Ty) : Prop := ty.Consistent ∧ ty.CallLifetime

def Fields.WellFormed (fields : Fields) : Prop := fields.Consistent ∧ fields.CallLifetime

section WellFormed

variable {annotations : BufferAnnotations} {pointee thenType elseType originalType field : Ty}
  {fields rest : Fields} {predicate : Path → Bool}

theorem Ty.WellFormed.buffer (h : (Ty.buffer annotations pointee).WellFormed) :
    annotations.lifetime = .call ∧
      (∀ allowHandle, pointee.isBlob allowHandle = true → pointee.isPlain allowHandle = true) ∧
      pointee.WellFormed := by
  rw [Ty.WellFormed, Ty.Consistent, Ty.CallLifetime] at h
  exact ⟨h.2.1, h.1.1, h.1.2, h.2.2⟩

theorem Ty.WellFormed.struct (h : (Ty.struct fields).WellFormed) : fields.WellFormed := by
  rwa [Ty.WellFormed, Ty.Consistent, Ty.CallLifetime] at h

theorem Ty.WellFormed.conditional
    (h : (Ty.conditional predicate thenType elseType originalType).WellFormed) :
    thenType.WellFormed ∧ elseType.WellFormed := by
  rw [Ty.WellFormed, Ty.Consistent, Ty.CallLifetime] at h
  exact ⟨⟨h.1.1.2, h.2.1⟩, ⟨h.1.2.2, h.2.2⟩⟩

theorem Fields.WellFormed.cons (h : (Fields.cons field rest).WellFormed) :
    field.WellFormed ∧ rest.WellFormed := by
  rw [Fields.WellFormed, Fields.Consistent, Fields.CallLifetime] at h
  exact ⟨⟨h.1.1, h.2.1⟩, ⟨h.1.2, h.2.2⟩⟩

end WellFormed

mutual

/-- The values of a type. A buffer that is not `NULL` has the elements its size expression says. -/
def HasType : Ty → Option Ty → Path → Val → Prop
  | .scalar width, _, _, .scalar bytes => bytes.length = width
  | .handle _, _, _, .handle _ => True
  | .buffer _ _, _, _, .null => True
  | .buffer annotations pointee, originalType, path, .buffer elements =>
    elements.length = (if 0 < annotations.buffer path then
        computeBufferSize annotations pointee originalType path else 0) ∧
      ∀ (i : Nat) (e : Val), elements[i]? = some e → HasType pointee none (i :: path) e
  | .struct fields, _, path, .struct values => FieldsHaveType fields path values
  | .conditional predicate thenType elseType originalType, _, path, v =>
    if predicate path then HasType thenType (some originalType) path v
    else HasType elseType (some originalType) path v
  | _, _, _, _ => False

def FieldsHaveType : Fields → Path → List Val → Prop
  | .nil, _, [] => True
  | .cons field rest, path, v :: values =>
    HasType field none path v ∧ FieldsHaveType rest path values
  | _, _, _ => False

end

mutual

/-- The value on the worker, and the pool without the handles that the call deallocates. -/
def translate : Ty → Path → Val → HandlePool → Option (Val × HandlePool)
  | .scalar _, _, v, pool => some (v, pool)
  | .handle deallocates, _, .handle id, pool =>
    (derefHandle deallocates id pool).map fun r => (.handle r.1, r.2)
  | .buffer _ _, _, .null, pool => some (.null, pool)
  | .buffer _ _, _, .buffer [], pool => some (.null, pool)
  | .buffer _ pointee, path, .buffer (e :: elements), pool =>
    (forIndexed (fun i e pool => translate pointee (i :: path) e pool) 0 (e :: elements) pool).map
      fun r => (.buffer r.1, r.2)
  | .struct fields, path, .struct values, pool =>
    (translateFields fields path values pool).map fun r => (.struct r.1, r.2)
  | .conditional predicate thenType elseType _, path, v, pool =>
    if predicate path then translate thenType path v pool else translate elseType path v pool
  | _, _, _, _ => none

def translateFields : Fields → Path → List Val → HandlePool → Option (List Val × HandlePool)
  | .nil, _, _, pool => some ([], pool)
  | .cons field rest, path, v :: values, pool =>
    (translate field path v pool).bind fun r =>
      (translateFields rest path values r.2).map fun q => (r.1 :: q.1, q.2)
  | .cons _ _, _, [], _ => none

end

mutual

/-- Every buffer that the guest does not replace by `NULL` has at least one byte. -/
def Attachable : Ty → Option Ty → Path → Val → Prop
  | .buffer annotations pointee, originalType, path, .buffer elements =>
    0 < annotations.buffer path →
      0 < sizeToBytes (computeBufferSize annotations pointee originalType path) pointee ∧
        ∀ (i : Nat) (e : Val), elements[i]? = some e → Attachable pointee none (i :: path) e
  | .struct fields, _, path, .struct values => FieldsAttachable fields path values
  | .conditional predicate thenType elseType originalType, _, path, v =>
    if predicate path then Attachable thenType (some originalType) path v
    else Attachable elseType (some originalType) path v
  | _, _, _, _ => True

def FieldsAttachable : Fields → Path → List Val → Prop
  | .cons field rest, path, v :: values =>
    Attachable field none path v ∧ FieldsAttachable rest path values
  | _, _, _ => True

end

section Induction

set_option linter.unusedSectionVars false

variable {P : Ty → Option Ty → Path → Val → Prop} {Q : Fields → Path → List Val → Prop}
  (leaf : ∀ ty originalType path v,
    (∀ predicate thenType elseType original,
      ty = .conditional predicate thenType elseType original → False) →
    (∀ annotations pointee elements, ty = .buffer annotations pointee → v = .buffer elements →
      False) →
    (∀ fields values, ty = .struct fields → v = .struct values → False) →
    P ty originalType path v)
  (buffer : ∀ annotations pointee originalType path elements,
    (∀ i e, P pointee none (i :: path) e) →
    P (.buffer annotations pointee) originalType path (.buffer elements))
  (struct : ∀ fields originalType path values, Q fields path values →
    P (.struct fields) originalType path (.struct values))
  (conditional : ∀ predicate thenType elseType original originalType path v,
    P thenType (some original) path v → P elseType (some original) path v →
    P (.conditional predicate thenType elseType original) originalType path v)
  (cons : ∀ field rest path v values, P field none path v → Q rest path values →
    Q (.cons field rest) path (v :: values))
  (short : ∀ fields path values,
    (∀ field rest v rest', fields = .cons field rest → values = v :: rest' → False) →
    Q fields path values)

include leaf buffer struct conditional cons short

mutual

/-- Induction along the walk over a value with its type. A value of another shape than its type is a
leaf, and so are opaque values, handles and `NULL`. -/
theorem value_induction : ∀ ty originalType path v, P ty originalType path v
  | .scalar _, _, _, _ => by apply leaf <;> simp
  | .handle _, _, _, _ => by apply leaf <;> simp
  | .buffer _ pointee, _, path, v => by
    cases v with
    | buffer elements =>
      exact buffer _ _ _ _ _ fun i e => value_induction pointee none (i :: path) e
    | _ => apply leaf <;> simp
  | .struct fields, _, path, v => by
    cases v with
    | struct values => exact struct _ _ _ _ (fields_induction fields path values)
    | _ => apply leaf <;> simp
  | .conditional _ thenType elseType _, _, path, v =>
    conditional _ _ _ _ _ _ _ (value_induction thenType _ path v)
      (value_induction elseType _ path v)

theorem fields_induction : ∀ fields path values, Q fields path values
  | .nil, _, _ => by apply short; simp
  | .cons _ _, _, [] => by apply short; simp
  | .cons field rest, path, v :: values =>
    cons _ _ _ _ _ (value_induction field none path v) (fields_induction rest path values)

end

end Induction

/-! ## Blobs -/

section

variable {input : Bool} {shadowId : Nat → Nat} {block : Bytes} {path : Path}

mutual

/-- A value with nothing but opaque values and handles is copied as it is in memory. -/
theorem copyForValue_of_isPlain :
    ∀ (ty : Ty) {originalType : Option Ty} {v : Val} (d : SocketDraft), ty.isPlain true = true →
      HasType ty originalType path v →
      copyForValue input shadowId ty originalType path v d = some (v.image, d)
  | .scalar _, _, .scalar _, _, _, _ => by rw [copyForValue, Val.image]
  | .handle _, _, .handle _, _, _, _ => by rw [copyForValue, Val.image]
  | .buffer _ _, _, _, _, hplain, _ => by simp [Ty.isPlain] at hplain
  | .struct fields, _, .struct values, d, hplain, htype => by
    rw [Ty.isPlain] at hplain
    rw [HasType] at htype
    rw [copyForValue, Val.image]
    exact copyForFields_of_arePlain fields d hplain htype
  | .conditional predicate thenType elseType _, _, v, d, hplain, htype => by
    rw [Ty.isPlain, Bool.and_eq_true] at hplain
    rw [HasType] at htype
    rw [copyForValue]
    split_ifs at htype ⊢
    · exact copyForValue_of_isPlain thenType d hplain.1 htype
    · exact copyForValue_of_isPlain elseType d hplain.2 htype

theorem copyForFields_of_arePlain :
    ∀ (fields : Fields) {values : List Val} (d : SocketDraft), fields.arePlain true = true →
      FieldsHaveType fields path values →
      copyForFields input shadowId fields path values d = some (Val.images values, d)
  | .nil, [], _, _, _ => by rw [copyForFields, Val.images]
  | .cons field rest, v :: values, d, hplain, htype => by
    rw [Fields.arePlain, Bool.and_eq_true] at hplain
    rw [FieldsHaveType] at htype
    rw [copyForFields, copyForValue_of_isPlain field d hplain.1 htype.1, Option.bind_some,
      copyForFields_of_arePlain rest d hplain.2 htype.2, Option.map_some, Val.images]

end

/-- Nothing is attached for such a value. -/
theorem computeSize_of_isPlain (ty : Ty) (originalType : Option Ty) (path : Path) (v : Val) :
    ty.isPlain true = true → computeSize input ty originalType path v = 0 := by
  induction ty, originalType, path, v using value_induction (Q := fun fields path values =>
      fields.arePlain true = true → computeFieldSizes input fields path values = 0) with
  | leaf => simp [computeSize]
  | buffer => simp [Ty.isPlain]
  | struct fields _ path values ih => rwa [Ty.isPlain, computeSize]
  | conditional _ _ _ _ _ _ _ ihthen ihelse =>
    rw [Ty.isPlain, Bool.and_eq_true]
    rintro ⟨hthen, helse⟩
    rw [computeSize, ihthen hthen, ihelse helse, ite_self]
  | cons field rest path v values ih ihrest hplain =>
    rw [Fields.arePlain, Bool.and_eq_true] at hplain
    rw [computeFieldSizes, ih hplain.1, ihrest hplain.2]
  | short => simp [computeFieldSizes]

theorem attachable_of_isPlain (ty : Ty) (originalType : Option Ty) (path : Path) (v : Val) :
    ty.isPlain true = true → Attachable ty originalType path v := by
  induction ty, originalType, path, v using value_induction (Q := fun fields path values =>
      fields.arePlain true = true → FieldsAttachable fields path values) with
  | leaf => simp [Attachable]
  | buffer => simp [Ty.isPlain]
  | struct fields _ path values ih => rwa [Ty.isPlain, Attachable]
  | conditional _ _ _ _ _ _ _ ihthen ihelse =>
    rw [Ty.isPlain, Bool.and_eq_true, Attachable]
    rintro ⟨hthen, helse⟩
    split_ifs
    exacts [ihthen hthen, ihelse helse]
  | cons field rest path v values ih ihrest hplain =>
    rw [Fields.arePlain, Bool.and_eq_true] at hplain
    rw [FieldsAttachable]
    exact ⟨ih hplain.1, ihrest hplain.2⟩
  | short => simp [FieldsAttachable]

mutual

/-- The conversion of a value with nothing but opaque values reads it from memory. -/
theorem convertInputValue_of_isPlain :
    ∀ (ty : Ty) (originalType : Option Ty) (bytes : Bytes) (c : Conversion),
      ty.isPlain false = true →
      convertInputValue input block ty originalType path bytes c = some (ty.view path bytes, c)
  | .scalar _, _, _, _, _ => by rw [convertInputValue, Ty.view]
  | .handle _, _, _, _, hplain => by simp [Ty.isPlain] at hplain
  | .buffer _ _, _, _, _, hplain => by simp [Ty.isPlain] at hplain
  | .struct fields, _, bytes, c, hplain => by
    rw [Ty.isPlain] at hplain
    rw [convertInputValue, convertInputFields_of_arePlain fields bytes c hplain, Option.map_some,
      Ty.view]
  | .conditional predicate thenType elseType _, _, bytes, c, hplain => by
    rw [Ty.isPlain, Bool.and_eq_true] at hplain
    rw [convertInputValue, Ty.view]
    split
    · exact convertInputValue_of_isPlain thenType _ bytes c hplain.1
    · exact convertInputValue_of_isPlain elseType _ bytes c hplain.2

theorem convertInputFields_of_arePlain :
    ∀ (fields : Fields) (bytes : Bytes) (c : Conversion), fields.arePlain false = true →
      convertInputFields input block fields path bytes c = some (fields.view path bytes, c)
  | .nil, _, _, _ => by rw [convertInputFields, Fields.view]
  | .cons field rest, bytes, c, hplain => by
    rw [Fields.arePlain, Bool.and_eq_true] at hplain
    rw [convertInputFields, convertInputValue_of_isPlain field none _ c hplain.1,
      Option.bind_some, convertInputFields_of_arePlain rest _ c hplain.2, Option.map_some,
      Fields.view]

end

end

end Ava.Generator
