import Ava.Generator.Result
import Ava.Generator.Values

/-!
# The size of the data region

Before a command is allocated, the code of `compute_total_size` sums the sizes of the buffers that
will be attached to it: on the guest those of the arguments with `input`, on the worker those of the
arguments and the return value with `output`. The code that then attaches the buffers walks the same
types with tests of its own. `copySizes` and `resultSizes` list the sizes of the buffers it
attaches, in order, for a call and for a reply. All sizes, and their sum, are of type `size_t`.

`data_region_suffices_iff` compares the sum with the list. Up to multiples of `2 ^ 64` the sum is
what is attached and what is skipped: the headers of buffers inside buffers that are not copied, and
arguments that are counted for a reply and not converted for it. So the sum is large enough exactly
if the attached bytes can be counted in `size_t` with the skipped ones. No attached buffer is empty
exactly if none that is attached has size zero after a cast or a product that wraps around, and no
output buffer of the worker whose elements have to be converted is empty: `buffer_case` of
`convert_result_for_argument` tests such a buffer for `NULL` only, while `compute_size` and the
other cases also test its size expression.
-/

set_option autoImplicit false

namespace Ava.Generator

open Ava.Lib Ava.Channel Ava.Endpoint

/-! ## The attached buffers -/

/-- The sizes of the buffers that `attach_buffer` attaches. -/
def attachSizes (copy : Bool) (lifetime : Lifetime) (size : Nat) : List Nat :=
  match lifetime, copy with
  | .call, true => [size]
  | .call, false => []
  | _, true => [bufferHeaderSize, size]
  | _, false => [bufferHeaderSize]

section

variable (input : Bool)

mutual

/-- The sizes of the buffers that `copy_for_value` attaches. -/
def copySizes : Ty → Option Ty → Path → Val → List Nat
  | .buffer annotations pointee, originalType, path, .buffer elements =>
    if 0 < annotations.buffer path then
      (if pointee.isBlob true || !input then []
        else (elements.mapIdx fun i e => copySizes pointee none (i :: path) e).flatten) ++
      attachSizes input annotations.lifetime
        (sizeToBytes (computeBufferSize annotations pointee originalType path) pointee)
    else []
  | .struct fields, _, path, .struct values => copyFieldSizes fields path values
  | .conditional predicate thenType elseType originalType, _, path, v =>
    if predicate path then copySizes thenType (some originalType) path v
    else copySizes elseType (some originalType) path v
  | _, _, _, _ => []

def copyFieldSizes : Fields → Path → List Val → List Nat
  | .cons field rest, path, v :: values =>
    copySizes field none path v ++ copyFieldSizes rest path values
  | _, _, _ => []

end

end

section

variable (output : Bool)

mutual

/-- The sizes of the buffers that `convert_result_value` attaches on the worker. -/
def resultSizes : Ty → Option Ty → Path → Val → List Nat
  | .buffer annotations pointee, originalType, path, .buffer elements =>
    let size := sizeToBytes (computeBufferSize annotations pointee originalType path) pointee
    if pointee.isBlob false || !output then
      if 0 < annotations.buffer path then attachSizes output annotations.lifetime size else []
    else
      (elements.mapIdx fun i e => resultSizes pointee none (i :: path) e).flatten ++
        attachSizes output annotations.lifetime size
  | .struct fields, _, path, .struct values => resultFieldSizes fields path values
  | .conditional predicate thenType elseType originalType, _, path, v =>
    if predicate path then resultSizes thenType (some originalType) path v
    else resultSizes elseType (some originalType) path v
  | _, _, _, _ => []

def resultFieldSizes : Fields → Path → List Val → List Nat
  | .cons field rest, path, v :: values =>
    resultSizes field none path v ++ resultFieldSizes rest path values
  | _, _, _ => []

end

end

mutual

/-- The loops of `convert_result_value` over the elements of output buffers do not go beyond them:
there are as many elements as the size expression says, converted to `size_t`. -/
def LoopsInBounds : Ty → Option Ty → Path → Val → Prop
  | .buffer annotations pointee, originalType, path, .buffer elements =>
    pointee.isBlob false = true ∨
      (elements.length = computeBufferSize annotations pointee originalType path ∧
        ∀ (i : Nat) (e : Val), elements[i]? = some e → LoopsInBounds pointee none (i :: path) e)
  | .struct fields, _, path, .struct values => FieldLoopsInBounds fields path values
  | .conditional predicate thenType elseType originalType, _, path, v =>
    if predicate path then LoopsInBounds thenType (some originalType) path v
    else LoopsInBounds elseType (some originalType) path v
  | _, _, _, _ => True

def FieldLoopsInBounds : Fields → Path → List Val → Prop
  | .cons field rest, path, v :: values =>
    LoopsInBounds field none path v ∧ FieldLoopsInBounds rest path values
  | _, _, _ => True

end

/-! ## Whole functions -/

/-- The arguments of a function with their values. -/
abbrev Bindings := List (DirectedArgument × Val)

/-- `compute_total_size` on the guest, a sum in `size_t`. -/
def callTotalSize (args : Bindings) : Nat := (args.map fun b => b.1.totalSize b.2).sum % 2 ^ 64

/-- The sizes that the code from `attach_for_argument` attaches for the arguments. -/
def callSizes (args : Bindings) : List Nat :=
  args.flatMap fun b => copySizes b.1.input b.1.type none [] b.2

/-- What `compute_total_size` adds for an argument or the return value on the worker. -/
def DirectedArgument.replySize (arg : DirectedArgument) (v : Val) : Nat :=
  computeSize arg.output arg.type none [] v

/-- `compute_total_size` on the worker, for the arguments and the return value. -/
def replyTotalSize (args : Bindings) (ret : Option (DirectedArgument × Val)) : Nat :=
  ((args ++ ret.toList).map fun b => b.1.replySize b.2).sum % 2 ^ 64

/-- What is converted for the reply: the return value, unless it is void, and the arguments that
contain buffers, where the code from `convert_result_for_argument` is not empty. -/
def replyBindings (args : Bindings) (ret : Option (DirectedArgument × Val)) : Bindings :=
  (ret.toList ++ args.filter fun b => b.1.type.containsBuffer).filter fun b => b.1.output || b.1.ret

/-- The sizes that the code from `convert_result_for_argument` attaches. -/
def replySizes (args : Bindings) (ret : Option (DirectedArgument × Val)) : List Nat :=
  (replyBindings args ret).flatMap fun b => resultSizes b.1.output b.1.type none [] b.2

/-- A data region of the given size has room for the buffers, and none of them is empty. -/
def Suffices (total : Nat) (sizes : List Nat) : Prop :=
  sizes.sum ≤ total ∧ ∀ n ∈ sizes, 0 < n

/-! ## When the sizes agree -/

mutual

/-- What is counted and not attached for a value that is not copied: the headers of the buffers
inside its buffers. -/
def innerHeaders : Ty → Path → Val → Nat
  | .buffer annotations pointee, path, .buffer elements =>
    if 0 < annotations.buffer path then
      if pointee.isBlob true then 0
      else (elements.mapIdx fun i e => computeSize false pointee none (i :: path) e).sum
    else 0
  | .struct fields, path, .struct values => fieldInnerHeaders fields path values
  | .conditional predicate thenType elseType _, path, v =>
    if predicate path then innerHeaders thenType path v else innerHeaders elseType path v
  | _, _, _ => 0

def fieldInnerHeaders : Fields → Path → List Val → Nat
  | .cons field rest, path, v :: values =>
    innerHeaders field path v + fieldInnerHeaders rest path values
  | _, _, _ => 0

end

/-- What is counted for an argument and not attached for it. -/
def skippedSize (copy : Bool) (b : DirectedArgument × Val) : Nat :=
  if copy then 0 else innerHeaders b.1.type [] b.2

/-- What is counted for a call and not attached to it. -/
def callSkipped (args : Bindings) : Nat := (args.map fun b => skippedSize b.1.input b).sum

/-- What is counted for the reply and not converted for it. -/
def notConverted (args : Bindings) (ret : Option (DirectedArgument × Val)) : Bindings :=
  (ret.toList ++ args.filter fun b => b.1.type.containsBuffer).filter (fun b =>
    !(b.1.output || b.1.ret)) ++ args.filter fun b => !b.1.type.containsBuffer

/-- What is counted for a reply and not attached to it. -/
def replySkipped (args : Bindings) (ret : Option (DirectedArgument × Val)) : Nat :=
  ((replyBindings args ret).map fun b => skippedSize b.1.output b).sum +
    ((notConverted args ret).map fun b => b.1.replySize b.2).sum

/-- The attached bytes can be counted in `size_t`, together with the skipped ones. -/
def Countable (sizes : List Nat) (skipped : Nat) : Prop :=
  sizes.sum + skipped % 2 ^ 64 < 2 ^ 64

instance (sizes : List Nat) (skipped : Nat) : Decidable (Countable sizes skipped) :=
  inferInstanceAs (Decidable (_ < _))

/-- A sum in `size_t` of what is attached and what is skipped. -/
theorem suffices_iff_of_modEq {total skipped : Nat} {sizes : List Nat}
    (h : total ≡ sizes.sum + skipped [MOD 2 ^ 64]) :
    Suffices (total % 2 ^ 64) sizes ↔ Countable sizes skipped ∧ ∀ n ∈ sizes, 0 < n := by
  refine and_congr_left fun _ => ?_
  rw [Countable, show total % 2 ^ 64 = _ from h, ← Nat.add_mod_mod]
  have hlt : skipped % 2 ^ 64 < 2 ^ 64 := Nat.mod_lt _ (by norm_num)
  constructor
  · intro hle
    by_contra hge
    -- a sum that wraps around is less than what is attached
    rw [Nat.mod_eq_sub_mod (not_lt.1 hge)] at hle
    have := hle.trans (Nat.mod_le _ _)
    omega
  · intro hsum
    rw [Nat.mod_eq_of_lt hsum]
    exact Nat.le_add_right _ _

mutual

/-- Every output buffer that is attached has at least one byte, and one whose elements are converted
has a positive size expression. -/
def ResultAttachable : Ty → Option Ty → Path → Val → Prop
  | .buffer annotations pointee, originalType, path, .buffer elements =>
    if pointee.isBlob false then
      0 < annotations.buffer path →
        0 < sizeToBytes (computeBufferSize annotations pointee originalType path) pointee
    else
      0 < annotations.buffer path ∧
        0 < sizeToBytes (computeBufferSize annotations pointee originalType path) pointee ∧
        ∀ (i : Nat) (e : Val), elements[i]? = some e → ResultAttachable pointee none (i :: path) e
  | .struct fields, _, path, .struct values => FieldsResultAttachable fields path values
  | .conditional predicate thenType elseType originalType, _, path, v =>
    if predicate path then ResultAttachable thenType (some originalType) path v
    else ResultAttachable elseType (some originalType) path v
  | _, _, _, _ => True

def FieldsResultAttachable : Fields → Path → List Val → Prop
  | .cons field rest, path, v :: values =>
    ResultAttachable field none path v ∧ FieldsResultAttachable rest path values
  | _, _, _ => True

end

section Sizes

variable {copy : Bool} {lifetime : Lifetime} {size : Nat}

theorem sum_attachSizes :
    (attachSizes copy lifetime size).sum = attachedSize copy lifetime size := by
  cases lifetime <;> cases copy <;> simp [attachSizes, attachedSize]

/-- The product in a size is reduced where it is attached, the sum where it is counted. -/
theorem attachedSize_modEq {count : Nat} {pointee : Ty} :
    attachedSize copy lifetime (count * pointee.sizeof) ≡
      attachedSize copy lifetime (sizeToBytes count pointee) [MOD 2 ^ 64] := by
  have hsize : count * pointee.sizeof ≡ sizeToBytes count pointee [MOD 2 ^ 64] :=
    (Nat.mod_modEq _ _).symm
  cases lifetime <;> cases copy
  case call.true => exact hsize
  case call.false => exact Nat.ModEq.rfl
  case coupled.true | static.true | manual.true => exact hsize.add_left _
  case coupled.false | static.false | manual.false => exact Nat.ModEq.rfl

theorem attachedSize_without_data (m n : Nat) :
    attachedSize false lifetime m = attachedSize false lifetime n := by
  cases lifetime <;> rfl

theorem attachSizes_pos_iff :
    (∀ n ∈ attachSizes copy lifetime size, 0 < n) ↔ (copy = true → 0 < size) := by
  cases lifetime <;> cases copy <;> simp [attachSizes, bufferHeaderSize]

theorem forall_mem_append {P : Nat → Prop} {a b : List Nat} :
    (∀ n ∈ a ++ b, P n) ↔ (∀ n ∈ a, P n) ∧ ∀ n ∈ b, P n := by
  simp only [List.mem_append, or_imp, forall_and]

/-- The elements of a buffer attach only buffers with bytes if each of them does. -/
theorem forall_mem_elements {P : Nat → Prop} {f : Nat → Val → List Nat} {elements : List Val} :
    (∀ n ∈ (elements.mapIdx f).flatten, P n) ↔
      ∀ i e, elements[i]? = some e → ∀ n ∈ f i e, P n := by
  simp only [mem_flatten_mapIdx]
  constructor
  · exact fun h i e he n hn => h n ⟨i, e, he, hn⟩
  · rintro h n ⟨i, e, he, hn⟩
    exact h i e he n hn

end Sizes

/-! ## The guest -/

section Guest

variable {input : Bool}

/-- All that is counted for a value that is copied is attached. -/
theorem computeSize_modEq_copySizes (ty : Ty) (originalType : Option Ty) (path : Path) (v : Val) :
    computeSize true ty originalType path v ≡
      (copySizes true ty originalType path v).sum [MOD 2 ^ 64] := by
  induction ty, originalType, path, v using value_induction (Q := fun fields path values =>
      computeFieldSizes true fields path values ≡
        (copyFieldSizes true fields path values).sum [MOD 2 ^ 64]) with
  | leaf => simp [copySizes, computeSize, Nat.ModEq.rfl]
  | buffer annotations pointee originalType path elements ih =>
    rw [copySizes, computeSize]
    simp only [Bool.not_true, Bool.or_false]
    split_ifs
    · rw [List.nil_append, sum_attachSizes, Nat.zero_add]
      exact attachedSize_modEq
    · rw [List.sum_append, sum_attachSizes, sum_flatten_mapIdx]
      exact (sum_mapIdx_modEq fun i e _ => ih i e).add attachedSize_modEq
    · exact Nat.ModEq.rfl
  | struct fields _ path values ih => rwa [copySizes, computeSize]
  | conditional _ _ _ _ _ _ _ ihthen ihelse =>
    rw [copySizes, computeSize]
    split_ifs
    exacts [ihthen, ihelse]
  | cons field rest path v values ih ihrest =>
    rw [copyFieldSizes, computeFieldSizes, List.sum_append]
    exact ih.add ihrest
  | short => simp [copyFieldSizes, computeFieldSizes, Nat.ModEq.rfl]

/-- For a value that is not copied the headers of inner buffers are counted and not attached. -/
theorem computeSize_eq_copySizes_add (ty : Ty) (originalType : Option Ty) (path : Path) (v : Val) :
    computeSize false ty originalType path v =
      (copySizes false ty originalType path v).sum + innerHeaders ty path v := by
  induction ty, originalType, path, v using value_induction (Q := fun fields path values =>
      computeFieldSizes false fields path values =
        (copyFieldSizes false fields path values).sum + fieldInnerHeaders fields path values) with
  | leaf => simp [copySizes, computeSize, innerHeaders]
  | buffer annotations pointee originalType path elements _ =>
    rw [copySizes, computeSize, innerHeaders]
    simp only [Bool.not_false, Bool.or_true, if_true, List.nil_append]
    split_ifs
    · rw [sum_attachSizes, attachedSize_without_data, Nat.add_comm]
    · rw [sum_attachSizes, attachedSize_without_data, Nat.add_comm]
    · rfl
  | struct fields _ path values ih => rwa [copySizes, computeSize, innerHeaders]
  | conditional _ _ _ _ _ _ _ ihthen ihelse =>
    rw [copySizes, computeSize, innerHeaders]
    split_ifs
    exacts [ihthen, ihelse]
  | cons field rest path v values ih ihrest =>
    rw [copyFieldSizes, computeFieldSizes, fieldInnerHeaders, List.sum_append, ih, ihrest]
    exact Nat.add_add_add_comm ..
  | short => simp [copyFieldSizes, computeFieldSizes, fieldInnerHeaders]

/-- No buffer attached for an input argument is empty exactly if it can be attached. -/
theorem copySizes_pos_iff (ty : Ty) (originalType : Option Ty) (path : Path) (v : Val) :
    ty.Consistent →
      ((∀ n ∈ copySizes true ty originalType path v, 0 < n) ↔
        Attachable ty originalType path v) := by
  induction ty, originalType, path, v using value_induction (Q := fun fields path values =>
      fields.Consistent → ((∀ n ∈ copyFieldSizes true fields path values, 0 < n) ↔
        FieldsAttachable fields path values)) with
  | leaf => simp [copySizes, Attachable]
  | buffer annotations pointee originalType path elements ih =>
    rw [Ty.Consistent, copySizes, Attachable]
    rintro ⟨hplain, hcons⟩
    by_cases hpos : 0 < annotations.buffer path
    · simp only [hpos, if_true, true_implies, Bool.not_true, Bool.or_false,
        forall_mem_append, attachSizes_pos_iff]
      rw [and_comm]
      refine and_congr_right fun _ => ?_
      split_ifs with hblob
      · -- nothing is attached for the elements of a blob, and there is nothing to attach
        simp only [List.not_mem_nil, false_implies, implies_true, true_iff]
        exact fun i e _ => attachable_of_isPlain pointee none (i :: path) e (hplain true hblob)
      · rw [forall_mem_elements]
        exact forall₃_congr fun i e _ => ih i e hcons
    · simp [hpos]
  | struct fields _ path values ih => rwa [Ty.Consistent, copySizes, Attachable]
  | conditional _ _ _ _ _ _ _ ihthen ihelse =>
    rw [Ty.Consistent, copySizes, Attachable]
    rintro ⟨hthen, helse⟩
    split_ifs
    exacts [ihthen hthen.2, ihelse helse.2]
  | cons field rest path v values ih ihrest hcons =>
    rw [Fields.Consistent] at hcons
    rw [copyFieldSizes, FieldsAttachable, forall_mem_append, ih hcons.1, ihrest hcons.2]
  | short => simp [copyFieldSizes, FieldsAttachable]

/-- Without input only headers are attached. -/
theorem copySizes_pos_of_not_input (ty : Ty) (originalType : Option Ty) (path : Path) (v : Val) :
    ∀ n ∈ copySizes false ty originalType path v, 0 < n := by
  induction ty, originalType, path, v using value_induction (Q := fun fields path values =>
      ∀ n ∈ copyFieldSizes false fields path values, 0 < n) with
  | leaf => simp [copySizes]
  | buffer annotations pointee originalType path elements _ =>
    rw [copySizes]
    split_ifs with hpos hnone
    · rw [List.nil_append, attachSizes_pos_iff]
      exact nofun
    · simp at hnone
    · simp
  | struct fields _ path values ih => rwa [copySizes]
  | conditional _ _ _ _ _ _ _ ihthen ihelse =>
    rw [copySizes]
    split_ifs
    exacts [ihthen, ihelse]
  | cons field rest path v values ih ihrest n hn =>
    rw [copyFieldSizes, List.mem_append] at hn
    exact hn.elim (ih n) (ihrest n)
  | short _ _ _ _ n hn => simp [copyFieldSizes] at hn

end Guest

/-! ## The worker -/

section Worker

variable {output : Bool}

/-- A buffer whose elements the worker converts: its size expression is positive exactly if the loop
over its elements is in bounds, as soon as there is anything to attach. -/
theorem buffer_pos_iff {annotations : BufferAnnotations} {pointee : Ty} {originalType : Option Ty}
    {path : Path} {elements : List Val}
    (htype : HasType (.buffer annotations pointee) originalType path (.buffer elements))
    (hsize : 0 < sizeToBytes (computeBufferSize annotations pointee originalType path) pointee) :
    elements.length = computeBufferSize annotations pointee originalType path ↔
      0 < annotations.buffer path := by
  rw [HasType] at htype
  constructor
  · intro hlen
    by_contra hpos
    rw [if_neg hpos] at htype
    rw [← hlen, htype.1, sizeToBytes, Nat.zero_mul] at hsize
    exact lt_irrefl 0 hsize
  · intro hpos
    rw [if_pos hpos] at htype
    exact htype.1

/-- No loop leaves its buffer and no attached buffer is empty exactly if the results can be
attached. -/
theorem resultSizes_pos_iff (ty : Ty) (originalType : Option Ty) (path : Path) (v : Val) :
    HasType ty originalType path v →
      (LoopsInBounds ty originalType path v ∧
          (∀ n ∈ resultSizes true ty originalType path v, 0 < n) ↔
        ResultAttachable ty originalType path v) := by
  induction ty, originalType, path, v using value_induction (Q := fun fields path values =>
      FieldsHaveType fields path values → (FieldLoopsInBounds fields path values ∧
          (∀ n ∈ resultFieldSizes true fields path values, 0 < n) ↔
        FieldsResultAttachable fields path values)) with
  | leaf => simp [LoopsInBounds, resultSizes, ResultAttachable]
  | buffer annotations pointee originalType path elements ih =>
    intro htype
    rw [LoopsInBounds, resultSizes, ResultAttachable]
    by_cases hblob : pointee.isBlob false = true
    · by_cases hpos : 0 < annotations.buffer path <;>
        simp [hblob, hpos, attachSizes_pos_iff]
    · simp only [hblob, Bool.not_true, Bool.or_false, Bool.false_eq_true, if_false, false_or,
        forall_mem_append, attachSizes_pos_iff, true_implies, forall_mem_elements]
      -- the two parts of the condition, for the buffer and for its elements
      have helements : (∀ i e, elements[i]? = some e →
            LoopsInBounds pointee none (i :: path) e) ∧
          (∀ i e, elements[i]? = some e →
            ∀ n ∈ resultSizes true pointee none (i :: path) e, 0 < n) ↔
          ∀ i e, elements[i]? = some e → ResultAttachable pointee none (i :: path) e := by
        rw [HasType] at htype
        simp only [← forall_and]
        exact forall₃_congr fun i e he => ih i e (htype.2 i e he)
      rw [← helements]
      constructor
      · rintro ⟨⟨hlen, hloops⟩, hsizes, hsize⟩
        exact ⟨(buffer_pos_iff htype hsize).1 hlen, hsize, hloops, hsizes⟩
      · rintro ⟨hpos, hsize, hloops, hsizes⟩
        exact ⟨⟨(buffer_pos_iff htype hsize).2 hpos, hloops⟩, hsizes, hsize⟩
  | struct fields _ path values ih => rwa [HasType, LoopsInBounds, resultSizes, ResultAttachable]
  | conditional _ _ _ _ _ _ _ ihthen ihelse =>
    rw [HasType, LoopsInBounds, resultSizes, ResultAttachable]
    split_ifs
    exacts [ihthen, ihelse]
  | cons field rest path v values ih ihrest htype =>
    rw [FieldsHaveType] at htype
    rw [FieldLoopsInBounds, resultFieldSizes, FieldsResultAttachable, forall_mem_append,
      ← ih htype.1, ← ihrest htype.2]
    exact and_and_and_comm
  | short => simp [FieldLoopsInBounds, resultFieldSizes, FieldsResultAttachable]

/-- Nothing is attached for a value with nothing but opaque values and handles. -/
theorem resultSizes_of_isPlain (ty : Ty) (originalType : Option Ty) (path : Path) (v : Val) :
    ty.isPlain true = true → resultSizes output ty originalType path v = [] := by
  induction ty, originalType, path, v using value_induction (Q := fun fields path values =>
      fields.arePlain true = true → resultFieldSizes output fields path values = []) with
  | leaf => simp [resultSizes]
  | buffer => simp [Ty.isPlain]
  | struct fields _ path values ih => rwa [Ty.isPlain, resultSizes]
  | conditional _ _ _ _ _ _ _ ihthen ihelse =>
    rw [Ty.isPlain, Bool.and_eq_true]
    rintro ⟨hthen, helse⟩
    rw [resultSizes, ihthen hthen, ihelse helse, ite_self]
  | cons field rest path v values ih ihrest hplain =>
    rw [Fields.arePlain, Bool.and_eq_true] at hplain
    rw [resultFieldSizes, ih hplain.1, ihrest hplain.2, List.append_nil]
  | short => simp [resultFieldSizes]

mutual

theorem Ty.isBlob_mono : ∀ (ty : Ty), ty.isBlob false = true → ty.isBlob true = true
  | .scalar _, _ => by rw [Ty.isBlob]
  | .handle _, _ => by rw [Ty.isBlob]
  | .buffer _ _, h => by simp [Ty.isBlob] at h
  | .struct fields, h => by
    rw [Ty.isBlob] at h ⊢
    exact fields.areBlobs_mono h
  | .conditional _ _ _ originalType, h => by
    rw [Ty.isBlob] at h ⊢
    exact originalType.isBlob_mono h

theorem Fields.areBlobs_mono :
    ∀ (fields : Fields), fields.areBlobs false = true → fields.areBlobs true = true
  | .nil, _ => by rw [Fields.areBlobs]
  | .cons field rest, h => by
    rw [Fields.areBlobs, Bool.and_eq_true] at h ⊢
    exact ⟨field.isBlob_mono h.1, rest.areBlobs_mono h.2⟩

end

/-- All that is counted for a result that is sent and can be attached is attached. -/
theorem computeSize_modEq_resultSizes (ty : Ty) (originalType : Option Ty) (path : Path) (v : Val) :
    ty.Consistent → ResultAttachable ty originalType path v →
      computeSize true ty originalType path v ≡
        (resultSizes true ty originalType path v).sum [MOD 2 ^ 64] := by
  induction ty, originalType, path, v using value_induction (Q := fun fields path values =>
      fields.Consistent → FieldsResultAttachable fields path values →
        computeFieldSizes true fields path values ≡
          (resultFieldSizes true fields path values).sum [MOD 2 ^ 64]) with
  | leaf => simp [resultSizes, computeSize, Nat.ModEq.rfl]
  | buffer annotations pointee originalType path elements ih =>
    rw [Ty.Consistent, ResultAttachable, resultSizes, computeSize]
    rintro ⟨hplain, hcons⟩ hattach
    by_cases hblob : pointee.isBlob false = true
    · -- the buffer as it is
      simp only [hblob, Bool.true_or, if_true, pointee.isBlob_mono hblob, Nat.zero_add]
      split_ifs
      · rw [sum_attachSizes]
        exact attachedSize_modEq
      · exact Nat.ModEq.rfl
    · simp only [hblob, Bool.false_eq_true, if_false] at hattach
      obtain ⟨hpos, -, helements⟩ := hattach
      simp only [hblob, Bool.not_true, Bool.or_false, Bool.false_eq_true, if_false, if_pos hpos]
      rw [List.sum_append, sum_attachSizes, sum_flatten_mapIdx]
      refine Nat.ModEq.add ?_ attachedSize_modEq
      split_ifs with hhandles
      · -- handles are converted, and nothing is attached for them
        rw [List.sum_eq_zero]
        intro n hn
        obtain ⟨i, hi, rfl⟩ := List.mem_mapIdx.1 hn
        rw [resultSizes_of_isPlain pointee none (i :: path) _ (hplain true hhandles)]
        rfl
      · exact sum_mapIdx_modEq fun i e he => ih i e hcons (helements i e he)
  | struct fields _ path values ih => rwa [Ty.Consistent, ResultAttachable, resultSizes, computeSize]
  | conditional _ _ _ _ _ _ _ ihthen ihelse =>
    rw [Ty.Consistent, ResultAttachable, resultSizes, computeSize]
    rintro ⟨hthen, helse⟩
    split_ifs
    exacts [ihthen hthen.2, ihelse helse.2]
  | cons field rest path v values ih ihrest hcons hattach =>
    rw [Fields.Consistent] at hcons
    rw [FieldsResultAttachable] at hattach
    rw [resultFieldSizes, computeFieldSizes, List.sum_append]
    exact (ih hcons.1 hattach.1).add (ihrest hcons.2 hattach.2)
  | short => simp [resultFieldSizes, computeFieldSizes, Nat.ModEq.rfl]

/-- Without output the same headers are attached as for a call without input. -/
theorem resultSizes_eq_copySizes (ty : Ty) (originalType : Option Ty) (path : Path) (v : Val) :
    resultSizes false ty originalType path v = copySizes false ty originalType path v := by
  induction ty, originalType, path, v using value_induction (Q := fun fields path values =>
      resultFieldSizes false fields path values = copyFieldSizes false fields path values) with
  | leaf => simp [resultSizes, copySizes]
  | buffer => simp [resultSizes, copySizes]
  | struct fields _ path values ih => rwa [resultSizes, copySizes]
  | conditional _ _ _ _ _ _ _ ihthen ihelse => rw [resultSizes, copySizes, ihthen, ihelse]
  | cons field rest path v values ih ihrest => rw [resultFieldSizes, copyFieldSizes, ih, ihrest]
  | short => simp [resultFieldSizes, copyFieldSizes]

end Worker

/-! ## All arguments -/

section Bindings

variable {args : Bindings} {ret : Option (DirectedArgument × Val)}

theorem sum_map_modEq {total : DirectedArgument × Val → Nat}
    {sizes : DirectedArgument × Val → List Nat} {skipped : DirectedArgument × Val → Nat}
    (h : ∀ b ∈ args, total b ≡ (sizes b).sum + skipped b [MOD 2 ^ 64]) :
    (args.map total).sum ≡ (args.flatMap sizes).sum + (args.map skipped).sum [MOD 2 ^ 64] := by
  induction args with
  | nil => exact Nat.ModEq.rfl
  | cons b args ih =>
    rw [List.flatMap_cons, List.sum_append, List.map_cons, List.sum_cons, List.map_cons,
      List.sum_cons, Nat.add_add_add_comm]
    exact (h b List.mem_cons_self).add (ih fun b hb => h b (List.mem_cons_of_mem _ hb))

theorem forall_mem_flatMap {sizes : DirectedArgument × Val → List Nat} {P : Nat → Prop} :
    (∀ n ∈ args.flatMap sizes, P n) ↔ ∀ b ∈ args, ∀ n ∈ sizes b, P n := by
  simp only [List.mem_flatMap]
  constructor
  · exact fun h b hb n hn => h n ⟨b, hb, hn⟩
  · rintro h n ⟨b, hb, hn⟩
    exact h b hb n hn

/-- What is counted for an argument of a call. -/
theorem totalSize_modEq (b : DirectedArgument × Val) :
    b.1.totalSize b.2 ≡ (copySizes b.1.input b.1.type none [] b.2).sum +
      skippedSize b.1.input b [MOD 2 ^ 64] := by
  rw [Argument.totalSize, skippedSize]
  cases b.1.input with
  | true => exact computeSize_modEq_copySizes b.1.type none [] b.2
  | false => rw [computeSize_eq_copySizes_add]; exact Nat.ModEq.rfl

/-- On the guest the sum is large enough if it does not wrap around. -/
theorem callSizes_suffice_iff (hcons : ∀ b ∈ args, b.1.type.Consistent) :
    Suffices (callTotalSize args) (callSizes args) ↔
      Countable (callSizes args) (callSkipped args) ∧
        ∀ b ∈ args, b.1.input = true → Attachable b.1.type none [] b.2 := by
  rw [callTotalSize, callSizes, callSkipped,
    suffices_iff_of_modEq (sum_map_modEq fun b _ => totalSize_modEq b)]
  refine and_congr_right fun _ => ?_
  rw [forall_mem_flatMap]
  refine forall₂_congr fun b hb => ?_
  cases hinput : b.1.input with
  | true => simpa using copySizes_pos_iff b.1.type none [] b.2 (hcons b hb)
  | false => simpa using copySizes_pos_of_not_input b.1.type none [] b.2

/-- What is counted for the reply is converted for it or not. -/
theorem perm_replyBindings :
    (replyBindings args ret ++ notConverted args ret).Perm (args ++ ret.toList) := by
  rw [replyBindings, notConverted, ← List.append_assoc]
  refine ((List.filter_append_perm _ _).append_right _).trans ?_
  rw [List.append_assoc]
  exact ((List.filter_append_perm _ args).append_left _).trans List.perm_append_comm

theorem mem_of_mem_replyBindings {b : DirectedArgument × Val} (h : b ∈ replyBindings args ret) :
    b ∈ args ++ ret.toList :=
  perm_replyBindings.subset (List.mem_append_left _ h)

/-- What is counted for an argument or the return value of a reply. -/
theorem replySize_modEq {b : DirectedArgument × Val} (hcons : b.1.type.Consistent)
    (hattach : b.1.output = true → ResultAttachable b.1.type none [] b.2) :
    b.1.replySize b.2 ≡ (resultSizes b.1.output b.1.type none [] b.2).sum +
      skippedSize b.1.output b [MOD 2 ^ 64] := by
  rw [DirectedArgument.replySize, skippedSize]
  cases houtput : b.1.output with
  | true => exact computeSize_modEq_resultSizes b.1.type none [] b.2 hcons (hattach houtput)
  | false => rw [computeSize_eq_copySizes_add, resultSizes_eq_copySizes]; exact Nat.ModEq.rfl

/-- What is counted for a reply whose results can be attached. -/
theorem replyTotal_modEq (hcons : ∀ b ∈ args ++ ret.toList, b.1.type.Consistent)
    (hattach : ∀ b ∈ replyBindings args ret, b.1.output = true →
      ResultAttachable b.1.type none [] b.2) :
    ((args ++ ret.toList).map fun b => b.1.replySize b.2).sum ≡
      (replySizes args ret).sum + replySkipped args ret [MOD 2 ^ 64] := by
  rw [← (perm_replyBindings.map fun b => b.1.replySize b.2).sum_eq, List.map_append,
    List.sum_append, replySkipped, ← Nat.add_assoc]
  exact (sum_map_modEq fun b hb =>
    replySize_modEq (hcons b (mem_of_mem_replyBindings hb)) (hattach b hb)).add_right _

/-- On the worker the sum is large enough if every result can be attached and it does not wrap
around. -/
theorem replySizes_suffice_iff
    (hargs : ∀ b ∈ args ++ ret.toList, b.1.type.Consistent ∧ HasType b.1.type none [] b.2) :
    ((∀ b ∈ replyBindings args ret, b.1.output = true → LoopsInBounds b.1.type none [] b.2) ∧
        Suffices (replyTotalSize args ret) (replySizes args ret)) ↔
      Countable (replySizes args ret) (replySkipped args ret) ∧
        ∀ b ∈ replyBindings args ret, b.1.output = true →
          ResultAttachable b.1.type none [] b.2 := by
  have hpos : ∀ b ∈ replyBindings args ret, b.1.output = true →
      (LoopsInBounds b.1.type none [] b.2 ∧
          (∀ n ∈ resultSizes b.1.output b.1.type none [] b.2, 0 < n) ↔
        ResultAttachable b.1.type none [] b.2) := fun b hb houtput => by
    rw [houtput]
    exact resultSizes_pos_iff b.1.type none [] b.2 (hargs b (mem_of_mem_replyBindings hb)).2
  have hcons : ∀ b ∈ args ++ ret.toList, b.1.type.Consistent := fun b hb => (hargs b hb).1
  constructor
  · rintro ⟨hloops, hsuffices⟩
    have hattach : ∀ b ∈ replyBindings args ret, b.1.output = true →
        ResultAttachable b.1.type none [] b.2 := fun b hb houtput =>
      (hpos b hb houtput).1 ⟨hloops b hb houtput, forall_mem_flatMap.1 hsuffices.2 b hb⟩
    exact ⟨((suffices_iff_of_modEq (replyTotal_modEq hcons hattach)).1 hsuffices).1, hattach⟩
  · rintro ⟨hcount, hattach⟩
    refine ⟨fun b hb houtput => ((hpos b hb houtput).2 (hattach b hb houtput)).1,
      (suffices_iff_of_modEq (replyTotal_modEq hcons hattach)).2 ⟨hcount, ?_⟩⟩
    rw [replySizes, forall_mem_flatMap]
    intro b hb
    cases houtput : b.1.output with
    | true => exact houtput ▸ ((hpos b hb houtput).2 (hattach b hb houtput)).2
    | false =>
      rw [resultSizes_eq_copySizes]
      exact copySizes_pos_of_not_input b.1.type none [] b.2

end Bindings

/-- For any arguments on the guest, and any arguments and return value on the worker, the data
region has room for what is attached and no attached buffer is empty, exactly if what is counted for
the call and for the reply does not wrap around in `size_t`, every buffer with a positive size
expression that is attached has at least one byte, and every output buffer of the worker whose
elements are converted is `NULL` or has a positive size expression. -/
theorem data_region_suffices_iff {call reply : Bindings} {ret : Option (DirectedArgument × Val)}
    (hcall : ∀ b ∈ call, b.1.type.Consistent)
    (hreply : ∀ b ∈ reply ++ ret.toList, b.1.type.Consistent ∧ HasType b.1.type none [] b.2) :
    (Suffices (callTotalSize call) (callSizes call) ∧
      (∀ b ∈ replyBindings reply ret, b.1.output = true → LoopsInBounds b.1.type none [] b.2) ∧
      Suffices (replyTotalSize reply ret) (replySizes reply ret)) ↔
    (Countable (callSizes call) (callSkipped call) ∧
        ∀ b ∈ call, b.1.input = true → Attachable b.1.type none [] b.2) ∧
      Countable (replySizes reply ret) (replySkipped reply ret) ∧
        ∀ b ∈ replyBindings reply ret, b.1.output = true →
          ResultAttachable b.1.type none [] b.2 := by
  rw [callSizes_suffice_iff hcall, replySizes_suffice_iff hreply]

/-- An array of handles with the given number of elements and lifetime. -/
def handleBuffer (input output : Bool) (count : Nat) (lifetime : Lifetime) : DirectedArgument where
  type := .buffer ⟨fun _ => count, lifetime, .malloc, "handle_t"⟩ (.handle false)
  input := input
  output := output
  ret := false

/-- Two handles that are sent, and come back, in a buffer that outlives the call. -/
def twoHandles : Bindings :=
  [(handleBuffer true true 2 .static, .buffer [.handle 5, .handle 6])]

theorem data_region_suffices_twoHandles :
    Suffices (callTotalSize twoHandles) (callSizes twoHandles) ∧
      (∀ b ∈ replyBindings twoHandles none, b.1.output = true →
        LoopsInBounds b.1.type none [] b.2) ∧
      Suffices (replyTotalSize twoHandles none) (replySizes twoHandles none) := by
  have helements : ∀ (i : Nat) (e : Val), [Val.handle 5, Val.handle 6][i]? = some e →
      ∃ h, e = .handle h := by
    rintro (_ | _ | i) e he
    · exact ⟨5, by simpa using he.symm⟩
    · exact ⟨6, by simpa using he.symm⟩
    · simp at he
  have hconsistent : ∀ b ∈ twoHandles, b.1.type.Consistent := by
    simp [twoHandles, handleBuffer, Ty.Consistent, Ty.isBlob, Ty.isPlain]
  have htype : ∀ b ∈ twoHandles, HasType b.1.type none [] b.2 := by
    simp only [twoHandles, handleBuffer, List.mem_singleton, forall_eq, HasType]
    refine ⟨rfl, fun i e he => ?_⟩
    obtain ⟨h, rfl⟩ := helements i e he
    trivial
  refine (data_region_suffices_iff hconsistent ?_).2 ⟨⟨by decide, ?_⟩, by decide, ?_⟩
  · intro b hb
    rw [Option.toList_none, List.append_nil] at hb
    exact ⟨hconsistent b hb, htype b hb⟩
  · simp only [twoHandles, handleBuffer, List.mem_singleton, forall_eq, Attachable]
    refine fun _ _ => ⟨by decide, fun i e he => ?_⟩
    obtain ⟨h, rfl⟩ := helements i e he
    simp
  · intro b hb _
    have hmem := mem_of_mem_replyBindings hb
    simp only [twoHandles, Option.toList_none, List.append_nil, List.mem_singleton] at hmem
    subst hmem
    simp only [handleBuffer, ResultAttachable, Ty.isBlob]
    refine ⟨by decide, by decide, fun i e he => ?_⟩
    obtain ⟨h, rfl⟩ := helements i e he
    simp

/-- An array of doubles that is sent. -/
def doubleBuffer (count : Nat) : DirectedArgument where
  type := .buffer ⟨fun _ => count, .call, .malloc, "double"⟩ (.scalar 8)
  input := true
  output := false
  ret := false

/-- An output array of handles in which the native function left no elements, and that is not `NULL`
on the worker. With call lifetime an empty buffer is attached. With a longer lifetime a header is
attached as well, which was not counted. On the guest the number of bytes wraps around to zero for
`2 ^ 61` doubles. -/
theorem empty_output_attached :
    (∀ lifetime, (handleBuffer false true 0 lifetime).type.Consistent ∧
      HasType (handleBuffer false true 0 lifetime).type none [] (.buffer [])) ∧
    replyTotalSize [(handleBuffer false true 0 .call, .buffer [])] none = 0 ∧
    replySizes [(handleBuffer false true 0 .call, .buffer [])] none = [0] ∧
    replyTotalSize [(handleBuffer false true 0 .static, .buffer [])] none = 0 ∧
    replySizes [(handleBuffer false true 0 .static, .buffer [])] none = [24, 0] ∧
    ¬ Suffices (replyTotalSize [(handleBuffer false true 0 .call, .buffer [])] none)
      (replySizes [(handleBuffer false true 0 .call, .buffer [])] none) ∧
    ∀ elements, callTotalSize [(doubleBuffer (2 ^ 61), .buffer elements)] = 0 ∧
      callSizes [(doubleBuffer (2 ^ 61), .buffer elements)] = [0] := by
  have hcall : replySizes [(handleBuffer false true 0 .call, .buffer [])] none = [0] := rfl
  refine ⟨fun lifetime => ⟨?_, ?_⟩, rfl, hcall, rfl, rfl, ?_, fun elements => ⟨?_, ?_⟩⟩
  · simp [handleBuffer, Ty.Consistent, Ty.isBlob, Ty.isPlain]
  · simp [handleBuffer, HasType]
  · rw [hcall]
    exact fun h => lt_irrefl 0 (h.2 0 List.mem_cons_self)
  · simp [callTotalSize, Argument.totalSize, doubleBuffer, computeSize, Ty.isBlob, attachedSize,
      computeBufferSize, sizeT, Ty.sizeof]
  · simp [callSizes, doubleBuffer, copySizes, Ty.isBlob, attachSizes, sizeToBytes,
      computeBufferSize, sizeT, Ty.sizeof]

end Ava.Generator
