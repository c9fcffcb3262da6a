import Ava.Generator.Marshal
import Ava.Generator.Result

/-!
# Output arguments

What the native function leaves in an output buffer reaches the guest. The worker converts the
elements of the buffer into a temporary, or attaches the buffer itself if there is nothing to
convert, and the guest copies the received bytes in one piece or field by field.

Both sides are compared with one string of bytes, the image of the elements with ids in place of
handles: `convertResultValue_of_isData` says that the worker produces it, and `Copies` that the
guest writes it to the buffer and writes nothing else. `mapHandles_of_withIds` then reads the ids
off the handle pool as it is after the call.
-/

set_option autoImplicit false

namespace Ava.Generator

open Ava.Lib Ava.Channel Ava.Endpoint

mutual

/-- The types of C objects without buffers: opaque values, handles that the call does not
deallocate, and structs of them. No object is empty. -/
def Ty.isData : Ty → Bool
  | .scalar width => decide (0 < width)
  | .handle deallocates => !deallocates
  | .buffer _ _ => false
  | .struct fields => fields.areData && decide (0 < fields.sizeof)
  | .conditional _ _ _ _ => false

def Fields.areData : Fields → Bool
  | .nil => true
  | .cons field rest => field.isData && rest.areData

end

mutual

/-- The value with its handles replaced. -/
def Val.mapHandles (f : Ptr → Ptr) : Val → Val
  | .scalar bytes => .scalar bytes
  | .handle ptr => .handle (f ptr)
  | .null => .null
  | .buffer elements => .buffer (Val.mapAllHandles f elements)
  | .uninitialized => .uninitialized
  | .struct fields => .struct (Val.mapAllHandles f fields)

def Val.mapAllHandles (f : Ptr → Ptr) : List Val → List Val
  | [] => []
  | v :: vs => v.mapHandles f :: Val.mapAllHandles f vs

end

mutual

/-- The value with each handle looked up in the pool, or inserted, one after the other. -/
def withIds (tag : UInt64) : Val → HandlePool → Option (Val × HandlePool)
  | .scalar bytes, pool => some (.scalar bytes, pool)
  | .handle handle, pool =>
    (pool.lookupOrInsert tag handle).map fun q => (.handle q.1, q.2)
  | .null, pool => some (.null, pool)
  | .buffer elements, pool =>
    (allWithIds tag elements pool).map fun q => (.buffer q.1, q.2)
  | .uninitialized, pool => some (.uninitialized, pool)
  | .struct fields, pool => (allWithIds tag fields pool).map fun q => (.struct q.1, q.2)

def allWithIds (tag : UInt64) : List Val → HandlePool → Option (List Val × HandlePool)
  | [], pool => some ([], pool)
  | v :: vs, pool =>
    (withIds tag v pool).bind fun p =>
      (allWithIds tag vs p.2).map fun q => (p.1 :: q.1, q.2)

end

/-! ## The ids in the pool after the call -/

mutual

/-- The ids are those that the pool has in the end. -/
theorem mapHandles_of_withIds {tag : UInt64} :
    ∀ (v : Val) {w : Val} {pool pool' : HandlePool}, withIds tag v pool = some (w, pool') →
      pool.KeepsIds pool' ∧ ∀ q, pool'.KeepsIds q → v.mapHandles q.idOf = w
  | .scalar _, _, _, _, h => by
    rw [withIds] at h
    cases h
    exact ⟨.refl _, fun _ _ => by rw [Val.mapHandles]⟩
  | .handle _, _, _, _, h => by
    rw [withIds] at h
    obtain ⟨⟨id, pool'⟩, hid, h⟩ := Option.map_eq_some_iff.1 h
    cases h
    obtain ⟨hkeeps, hid⟩ := HandlePool.lookupOrInsert_keepsIds hid
    exact ⟨hkeeps, fun q hq => by rw [Val.mapHandles, hid q hq]⟩
  | .null, _, _, _, h => by
    rw [withIds] at h
    cases h
    exact ⟨.refl _, fun _ _ => by rw [Val.mapHandles]⟩
  | .buffer elements, _, _, _, h => by
    rw [withIds] at h
    obtain ⟨⟨ws, pool'⟩, hws, h⟩ := Option.map_eq_some_iff.1 h
    cases h
    obtain ⟨hkeeps, hids⟩ := mapAllHandles_of_allWithIds elements hws
    exact ⟨hkeeps, fun q hq => by rw [Val.mapHandles, hids q hq]⟩
  | .uninitialized, _, _, _, h => by
    rw [withIds] at h
    cases h
    exact ⟨.refl _, fun _ _ => by rw [Val.mapHandles]⟩
  | .struct fields, _, _, _, h => by
    rw [withIds] at h
    obtain ⟨⟨ws, pool'⟩, hws, h⟩ := Option.map_eq_some_iff.1 h
    cases h
    obtain ⟨hkeeps, hids⟩ := mapAllHandles_of_allWithIds fields hws
    exact ⟨hkeeps, fun q hq => by rw [Val.mapHandles, hids q hq]⟩

theorem mapAllHandles_of_allWithIds {tag : UInt64} :
    ∀ (vs : List Val) {ws : List Val} {pool pool' : HandlePool},
      allWithIds tag vs pool = some (ws, pool') →
      pool.KeepsIds pool' ∧ ∀ q, pool'.KeepsIds q → Val.mapAllHandles q.idOf vs = ws
  | [], _, _, _, h => by
    rw [allWithIds] at h
    cases h
    exact ⟨.refl _, fun _ _ => by rw [Val.mapAllHandles]⟩
  | v :: vs, _, _, _, h => by
    rw [allWithIds, Option.bind_eq_some_iff] at h
    obtain ⟨⟨w, pool₁⟩, hw, h⟩ := h
    obtain ⟨⟨ws, pool₂⟩, hws, h⟩ := Option.map_eq_some_iff.1 h
    cases h
    -- later lookups do not change the ids of the earlier handles
    obtain ⟨hkeeps, hid⟩ := mapHandles_of_withIds v hw
    obtain ⟨hkeeps', hids⟩ := mapAllHandles_of_allWithIds vs hws
    refine ⟨hkeeps.trans hkeeps', fun q hq => ?_⟩
    rw [Val.mapAllHandles, hid q (hkeeps'.trans hq), hids q hq]

end

/-! ## Data -/

theorem Ty.sizeof_pos_of_isData {ty : Ty} (h : ty.isData = true) : 0 < ty.sizeof := by
  cases ty with
  | scalar width => simpa [Ty.isData, Ty.sizeof] using h
  | handle deallocates => simp [Ty.sizeof]
  | buffer annotations pointee => simp [Ty.isData] at h
  | struct fields =>
    rw [Ty.isData, Bool.and_eq_true, decide_eq_true_eq] at h
    exact h.2
  | conditional predicate thenType elseType originalType => simp [Ty.isData] at h

mutual

/-- A value of data has the length of its type in memory. -/
theorem length_image_of_isData :
    ∀ (ty : Ty) {originalType : Option Ty} {path : Path} {v : Val}, ty.isData = true →
      HasType ty originalType path v → v.image.length = ty.sizeof
  | .scalar _, _, _, .scalar _, _, htype => by
    rw [HasType] at htype
    rw [Val.image, Ty.sizeof, htype]
  | .handle _, _, _, .handle _, _, _ => by
    rw [Val.image, Ty.sizeof, length_leBytes]
  | .struct fields, _, _, .struct _, hdata, htype => by
    rw [Ty.isData, Bool.and_eq_true] at hdata
    rw [HasType] at htype
    rw [Val.image, Ty.sizeof]
    exact length_images_of_areData fields hdata.1 htype

theorem length_images_of_areData :
    ∀ (fields : Fields) {path : Path} {values : List Val}, fields.areData = true →
      FieldsHaveType fields path values → (Val.images values).length = fields.sizeof
  | .nil, _, [], _, _ => by rw [Val.images, Fields.sizeof, List.length_nil]
  | .cons field rest, _, _ :: _, hdata, htype => by
    rw [Fields.areData, Bool.and_eq_true] at hdata
    rw [FieldsHaveType] at htype
    rw [Val.images, List.length_append, Fields.sizeof,
      length_image_of_isData field hdata.1 htype.1,
      length_images_of_areData rest hdata.2 htype.2]

end

mutual

/-- Ids take the place of handles in a value of data. -/
theorem hasType_of_withIds {tag : UInt64} :
    ∀ (ty : Ty) {originalType : Option Ty} {path : Path} {v w : Val} {pool pool' : HandlePool},
      ty.isData = true → HasType ty originalType path v → withIds tag v pool = some (w, pool') →
      HasType ty originalType path w
  | .scalar _, _, _, .scalar _, _, _, _, _, htype, h => by
    rw [withIds] at h
    cases h
    exact htype
  | .handle _, _, _, .handle _, _, _, _, _, _, h => by
    rw [withIds] at h
    obtain ⟨⟨id, pool'⟩, -, h⟩ := Option.map_eq_some_iff.1 h
    cases h
    rw [HasType]
    trivial
  | .struct fields, _, _, .struct _, _, _, _, hdata, htype, h => by
    rw [Ty.isData, Bool.and_eq_true] at hdata
    rw [HasType] at htype
    rw [withIds] at h
    obtain ⟨⟨ws, pool'⟩, hws, h⟩ := Option.map_eq_some_iff.1 h
    cases h
    rw [HasType]
    exact fieldsHaveType_of_allWithIds fields hdata.1 htype hws

theorem fieldsHaveType_of_allWithIds {tag : UInt64} :
    ∀ (fields : Fields) {path : Path} {values ws : List Val} {pool pool' : HandlePool},
      fields.areData = true → FieldsHaveType fields path values →
      allWithIds tag values pool = some (ws, pool') → FieldsHaveType fields path ws
  | .nil, _, [], _, _, _, _, htype, h => by
    rw [allWithIds] at h
    cases h
    exact htype
  | .cons field rest, _, v :: values, _, _, _, hdata, htype, h => by
    rw [Fields.areData, Bool.and_eq_true] at hdata
    rw [FieldsHaveType] at htype
    rw [allWithIds, Option.bind_eq_some_iff] at h
    obtain ⟨⟨w, pool₁⟩, hw, h⟩ := h
    obtain ⟨⟨ws, pool₂⟩, hws, h⟩ := Option.map_eq_some_iff.1 h
    cases h
    rw [FieldsHaveType]
    exact ⟨hasType_of_withIds field hdata.1 htype.1 hw,
      fieldsHaveType_of_allWithIds rest hdata.2 htype.2 hws⟩

end

/-! ## What the worker sends -/

section Worker

variable {output : Bool} {shadowId : Nat → Nat} {tag : UInt64}

mutual

/-- Data is converted by replacing its handles. -/
theorem convertResultValue_of_isData :
    ∀ (ty : Ty) {originalType : Option Ty} {path : Path} {v : Val} (r : Reply), ty.isData = true →
      HasType ty originalType path v →
      convertResultValue output shadowId tag ty originalType path v r =
        (withIds tag v r.pool).map fun q => (q.1.image, { r with pool := q.2 })
  | .scalar _, _, _, .scalar _, _, _, _ => by
    rw [convertResultValue, withIds, Option.map_some, Val.image]
  | .handle deallocates, _, _, .handle handle, r, hdata, _ => by
    rw [Ty.isData, Bool.not_eq_true'] at hdata
    rw [convertResultValue, hdata, withIds, Option.map_map]
    refine congrArg (Option.map · _) (funext fun q => ?_)
    simp only [Function.comp_apply, Val.image]
  | .struct fields, _, _, .struct values, r, hdata, htype => by
    rw [Ty.isData, Bool.and_eq_true] at hdata
    rw [HasType] at htype
    rw [convertResultValue, convertResultFields_of_areData fields r hdata.1 htype, withIds,
      Option.map_map]
    refine congrArg (Option.map · _) (funext fun q => ?_)
    simp only [Function.comp_apply, Val.image]

theorem convertResultFields_of_areData :
    ∀ (fields : Fields) {path : Path} {values : List Val} (r : Reply), fields.areData = true →
      FieldsHaveType fields path values →
      convertResultFields output shadowId tag fields path values r =
        (allWithIds tag values r.pool).map fun q => (Val.images q.1, { r with pool := q.2 })
  | .nil, _, [], _, _, _ => by
    rw [convertResultFields, allWithIds, Option.map_some, Val.images]
  | .cons field rest, path, v :: values, r, hdata, htype => by
    rw [Fields.areData, Bool.and_eq_true] at hdata
    rw [FieldsHaveType] at htype
    rw [convertResultFields, convertResultValue_of_isData field r hdata.1 htype.1, allWithIds]
    rcases withIds tag v r.pool with - | ⟨w, pool⟩
    · rfl
    · simp only [Option.map_some, Option.bind_some,
        convertResultFields_of_areData rest _ hdata.2 htype.2, Option.map_map,
        Function.comp_def, Val.images]

end

/-- The loop that converts the elements of a buffer. -/
theorem forIndexed_convertResultValue {pointee : Ty} (hdata : pointee.isData = true) {path : Path}
    {elements : List Val} {start : Nat}
    (htype : ∀ i e, elements[i]? = some e → HasType pointee none ((start + i) :: path) e)
    (r : Reply) :
    forIndexed (fun i e r => convertResultValue output shadowId tag pointee none (i :: path) e r)
        start elements r =
      (allWithIds tag elements r.pool).map fun q =>
        (q.1.mapIdx fun _ w => w.image, { r with pool := q.2 }) := by
  induction elements generalizing start r with
  | nil =>
    rw [allWithIds]
    rfl
  | cons e elements ih =>
    have hrest : ∀ i e', elements[i]? = some e' →
        HasType pointee none ((start + 1 + i) :: path) e' := fun i e' he => by
      have hnext := htype (i + 1) e' he
      rwa [← Nat.add_assoc, Nat.add_right_comm] at hnext
    have hfirst : HasType pointee none (start :: path) e := htype 0 e rfl
    rw [forIndexed_cons, convertResultValue_of_isData pointee r hdata hfirst, allWithIds]
    rcases withIds tag e r.pool with - | ⟨w, pool⟩
    · rfl
    · simp only [Option.map_some, Option.bind_some, ih hrest, Option.map_map, Function.comp_def,
        List.mapIdx_cons]

mutual

/-- Without handles there is nothing to replace. -/
theorem withIds_of_isBlob :
    ∀ (ty : Ty) {originalType : Option Ty} {path : Path} {v : Val} (pool : HandlePool),
      ty.isData = true → ty.isBlob false = true → HasType ty originalType path v →
      withIds tag v pool = some (v, pool)
  | .scalar _, _, _, .scalar _, _, _, _, _ => by rw [withIds]
  | .handle _, _, _, .handle _, _, _, hblob, _ => by simp [Ty.isBlob] at hblob
  | .struct fields, _, _, .struct _, pool, hdata, hblob, htype => by
    rw [Ty.isData, Bool.and_eq_true] at hdata
    rw [Ty.isBlob] at hblob
    rw [HasType] at htype
    rw [withIds, allWithIds_of_areBlobs fields pool hdata.1 hblob htype, Option.map_some]

theorem allWithIds_of_areBlobs :
    ∀ (fields : Fields) {path : Path} {values : List Val} (pool : HandlePool),
      fields.areData = true → fields.areBlobs false = true → FieldsHaveType fields path values →
      allWithIds tag values pool = some (values, pool)
  | .nil, _, [], _, _, _, _ => by rw [allWithIds]
  | .cons field rest, _, _ :: _, pool, hdata, hblob, htype => by
    rw [Fields.areData, Bool.and_eq_true] at hdata
    rw [Fields.areBlobs, Bool.and_eq_true] at hblob
    rw [FieldsHaveType] at htype
    rw [allWithIds, withIds_of_isBlob field pool hdata.1 hblob.1 htype.1, Option.bind_some,
      allWithIds_of_areBlobs rest pool hdata.2 hblob.2 htype.2, Option.map_some]

end

theorem allWithIds_eq_self {vs : List Val} {pool : HandlePool}
    (h : ∀ v ∈ vs, withIds tag v pool = some (v, pool)) :
    allWithIds tag vs pool = some (vs, pool) := by
  induction vs with
  | nil => rw [allWithIds]
  | cons v vs ih =>
    rw [allWithIds, h v List.mem_cons_self, Option.bind_some,
      ih fun w hw => h w (List.mem_cons_of_mem v hw), Option.map_some]

/-- The images of elements that were converted one by one. -/
theorem length_images_of_allWithIds {pointee : Ty} (hdata : pointee.isData = true) {path : Path}
    {elements ws : List Val} {pool pool' : HandlePool} {start : Nat}
    (htype : ∀ i e, elements[i]? = some e → HasType pointee none ((start + i) :: path) e)
    (h : allWithIds tag elements pool = some (ws, pool')) :
    (Val.images ws).length = elements.length * pointee.sizeof := by
  induction elements generalizing start pool ws with
  | nil =>
    rw [allWithIds] at h
    cases h
    rw [Val.images, List.length_nil, List.length_nil, Nat.zero_mul]
  | cons e elements ih =>
    have hfirst : HasType pointee none (start :: path) e := htype 0 e rfl
    have hrest : ∀ i e', elements[i]? = some e' →
        HasType pointee none ((start + 1 + i) :: path) e' := fun i e' he => by
      have hnext := htype (i + 1) e' he
      rwa [← Nat.add_assoc, Nat.add_right_comm] at hnext
    rw [allWithIds, Option.bind_eq_some_iff] at h
    obtain ⟨⟨w, pool₁⟩, hw, h⟩ := h
    obtain ⟨⟨ws, pool₂⟩, hws, h⟩ := Option.map_eq_some_iff.1 h
    cases h
    rw [Val.images, List.length_append, ih hrest hws, List.length_cons, Nat.succ_mul,
      length_image_of_isData pointee hdata (hasType_of_withIds pointee hdata hfirst hw),
      Nat.add_comm]

variable {annotations : BufferAnnotations} {pointee : Ty} {path : Path} {elements : List Val}

theorem pos_of_hasType_buffer
    (htype : HasType (.buffer annotations pointee) none path (.buffer elements))
    (hne : elements ≠ []) : 0 < annotations.buffer path := by
  by_contra hpos
  rw [HasType, if_neg hpos, List.length_eq_zero_iff] at htype
  exact hne htype.1

theorem length_of_hasType_buffer
    (htype : HasType (.buffer annotations pointee) none path (.buffer elements))
    (hne : elements ≠ []) :
    elements.length = computeBufferSize annotations pointee none path := by
  have hpos := pos_of_hasType_buffer htype hne
  rw [HasType, if_pos hpos] at htype
  exact htype.1

theorem hasType_elements
    (htype : HasType (.buffer annotations pointee) none path (.buffer elements)) :
    ∀ i e, elements[i]? = some e → HasType pointee none ((0 + i) :: path) e := by
  intro i e he
  rw [HasType] at htype
  rw [Nat.zero_add]
  exact htype.2 i e he

theorem length_images_of_elements (hdata : pointee.isData = true)
    (htype : HasType (.buffer annotations pointee) none path (.buffer elements)) {ws : List Val}
    {pool pool' : HandlePool} (h : allWithIds tag elements pool = some (ws, pool')) :
    (Val.images ws).length = elements.length * pointee.sizeof :=
  length_images_of_allWithIds hdata (hasType_elements htype) h

/-- The elements of an output buffer are attached with ids in place of handles. -/
theorem convertResultValue_buffer (hcall : annotations.lifetime = .call)
    (hdata : pointee.isData = true)
    (htype : HasType (.buffer annotations pointee) none path (.buffer elements)) {r : Reply}
    (hroom : HasRoom r.draft (elements.length * pointee.sizeof)) (hne : elements ≠ []) :
    convertResultValue true shadowId tag (.buffer annotations pointee) none path (.buffer elements)
        r =
      (allWithIds tag elements r.pool).map fun q =>
        (leBytes 8 r.draft.curOffset, ⟨extend r.draft (Val.images q.1), q.2⟩) := by
  have hpos := pos_of_hasType_buffer htype hne
  -- with or without a temporary, the same bytes are attached
  have hattach : ∀ q, allWithIds tag elements r.pool = some q →
      Reply.attachBuffer true shadowId .call
        (sizeToBytes (computeBufferSize annotations pointee none path) pointee) (Val.images q.1)
        { r with pool := q.2 } =
      some (leBytes 8 r.draft.curOffset, ⟨extend r.draft (Val.images q.1), q.2⟩) := by
    rintro ⟨ws, pool⟩ hws
    have hlen := length_images_of_elements hdata htype hws
    have hbytes : Val.images ws ≠ [] := by
      rw [← List.length_pos_iff, hlen]
      exact Nat.mul_pos (List.length_pos_iff.2 hne) (Ty.sizeof_pos_of_isData hdata)
    rw [← hlen] at hroom
    -- the reply has room for all elements, so `size_t` can count their bytes
    have hsize : sizeToBytes (computeBufferSize annotations pointee none path) pointee =
        (Val.images ws).length := by
      rw [← length_of_hasType_buffer htype hne, hlen]
      rw [hlen] at hroom
      exact sizeToBytes_of_lt (lt_of_le_of_lt (by have := hroom.fits; omega) hroom.lt)
    simp only [Reply.attachBuffer, Bool.true_eq_false, and_false, if_false, attachBuffer, hsize,
      List.take_length, attachBuffer_extend hroom hbytes, Option.map_some]
  rw [convertResultValue, hcall]
  simp only [Bool.not_true, Bool.or_false]
  split_ifs with hblob
  · have hsame : allWithIds tag elements r.pool = some (elements, r.pool) := by
      refine allWithIds_eq_self fun e he => ?_
      obtain ⟨i, hi⟩ := List.mem_iff_getElem?.1 he
      rw [HasType] at htype
      exact withIds_of_isBlob pointee r.pool hdata hblob (htype.2 i e hi)
    rw [hsame, Option.map_some]
    exact hattach _ hsame
  · rw [forIndexed_convertResultValue hdata (hasType_elements htype)]
    cases hws : allWithIds tag elements r.pool with
    | none => rfl
    | some q =>
      simp only [Option.map_some, Option.bind_some]
      rw [← images_eq_flatten]
      exact hattach q hws

end Worker

/-! ## What the guest writes -/

section Guest

variable {block : Bytes} {m n : Nat}

/-- A piece of code copies the `size` bytes at `src` of the reply to the address `param`, and does
nothing else. -/
def Copies (block : Bytes) (size : Nat) (copy : Nat → Nat → Bytes → Option Bytes) : Prop :=
  ∀ (param src : Nat) (mem bytes : Bytes), HoldsAt block src bytes → bytes.length = size →
    param + size ≤ mem.length → copy param src mem = some (writeAt mem param bytes)

theorem copies_store (size : Nat) :
    Copies block size fun param src mem => (readAt block src size).bind (store mem param) := by
  intro param src mem bytes hblock hlen hle
  subst hlen
  dsimp only
  rw [hblock.readAt_eq, Option.bind_some, store, if_pos hle]

theorem copies_skip : Copies block 0 fun _ _ mem => some mem := by
  intro param src mem bytes _ hlen _
  rw [List.length_eq_zero_iff.1 hlen, writeAt_nil]

/-- Copies of two parts that follow each other. -/
theorem Copies.seq {first second : Nat → Nat → Bytes → Option Bytes} (hfirst : Copies block m first)
    (hsecond : Copies block n second) :
    Copies block (m + n) fun param src mem =>
      (first param src mem).bind fun mem => second (param + m) (src + m) mem := by
  intro param src mem bytes hblock hlen hle
  obtain ⟨a, b, rfl, rfl, rfl⟩ : ∃ a b, bytes = a ++ b ∧ a.length = m ∧ b.length = n := by
    refine ⟨bytes.take m, bytes.drop m, (List.take_append_drop m bytes).symm, ?_, ?_⟩
    · rw [List.length_take_of_le (by omega)]
    · rw [List.length_drop, hlen, Nat.add_sub_cancel_left]
  have ha : param + a.length ≤ mem.length := by omega
  dsimp only
  rw [hfirst param src mem a hblock.left rfl ha, Option.bind_some,
    hsecond _ _ _ b hblock.right rfl (by rw [length_writeAt ha]; omega)]
  rw [← List.length_append] at hle
  rw [writeAt_writeAt_append hle]

/-- A loop over elements of one size. -/
theorem Copies.loop {size : Nat} {copy : Nat → Nat → Nat → Bytes → Option Bytes}
    (h : ∀ i, Copies block size (copy i)) (count : Nat) :
    Copies block (count * size) fun param src mem =>
      (List.range count).foldlM (fun mem i => copy i (param + i * size) (src + i * size) mem)
        mem := by
  induction count with
  | zero =>
    rw [Nat.zero_mul]
    exact copies_skip
  | succ count ih =>
    rw [Nat.succ_mul]
    simp only [List.range_succ, List.foldlM_append, List.foldlM_cons, List.foldlM_nil,
      bind_pure]
    exact ih.seq (h count)

variable {ret : Bool} {shadowBuffer : Nat → Nat}

mutual

/-- Data is copied as it lies in the reply. -/
theorem copyResultValue_of_isData :
    ∀ (ty : Ty) (originalType : Option Ty) (path : Path), ty.isData = true →
      Copies block ty.sizeof (copyResultValue true ret block shadowBuffer ty originalType path)
  | .scalar width, _, _, _ => by
    intro param src mem bytes hblock hlen hle
    rw [copyResultValue]
    exact copies_store width param src mem bytes hblock hlen hle
  | .handle _, _, _, _ => by
    intro param src mem bytes hblock hlen hle
    rw [copyResultValue]
    exact copies_store 8 param src mem bytes hblock hlen hle
  | .struct fields, _, path, hdata => by
    rw [Ty.isData, Bool.and_eq_true] at hdata
    intro param src mem bytes hblock hlen hle
    rw [copyResultValue]
    exact copyResultFields_of_areData fields path hdata.1 param src mem bytes hblock hlen hle

theorem copyResultFields_of_areData :
    ∀ (fields : Fields) (path : Path), fields.areData = true →
      Copies block fields.sizeof (copyResultFields true ret block shadowBuffer fields path)
  | .nil, _, _ => by
    intro param src mem bytes hblock hlen hle
    rw [copyResultFields]
    exact copies_skip param src mem bytes hblock hlen hle
  | .cons field rest, path, hdata => by
    rw [Fields.areData, Bool.and_eq_true] at hdata
    have hseq := (copyResultValue_of_isData field none path hdata.1).seq
      (copyResultFields_of_areData rest path hdata.2)
    intro param src mem bytes hblock hlen hle
    rw [copyResultFields]
    exact hseq param src mem bytes hblock hlen hle

end

variable {annotations : BufferAnnotations} {pointee : Ty} {path : Path}

/-- The contents of a received buffer are copied to the buffer that the call record points to. -/
theorem copyResultValue_buffer (hcall : annotations.lifetime = .call)
    (hdata : pointee.isData = true) {record offset id address : Nat} {mem data : Bytes}
    (hfield : readAt block offset 8 = some (leBytes 8 id)) (hid : leNat (leBytes 8 id) = id)
    (hnull : id ≠ 0) (hrecord : readAt mem record 8 = some (leBytes 8 address))
    (haddress : leNat (leBytes 8 address) = address) (hne : address ≠ 0)
    (hdataAt : HoldsAt block id data)
    (hlen : data.length = computeBufferSize annotations pointee none path * pointee.sizeof)
    (hlt : data.length < 2 ^ 64) (hle : address + data.length ≤ mem.length) :
    copyResultValue true ret block shadowBuffer (.buffer annotations pointee) none path
        record offset
      mem = some (writeAt mem address data) := by
  rw [copyResultValue, hfield]
  simp only [if_true, Option.bind_some, hid, if_neg hnull, resultBuffer, hcall, hrecord,
    Option.map_some, haddress, if_neg hne, getBufferSize]
  rw [hlen] at hle hlt
  rw [sizeToBytes_of_lt hlt]
  split_ifs with hblob
  · exact copies_store _ address id mem data hdataAt hlen hle
  · exact Copies.loop (fun i => copyResultValue_of_isData pointee none (i :: path) hdata) _
      address id mem data hdataAt hlen hle

end Guest

/-! ## Output buffers -/

/-- An output buffer with call lifetime whose elements are data. The worker builds the reply unless
an assertion of the handle pool fails. From any reply that holds what it attached, with other
buffers before and after it, the guest fills the buffer that the call record points to with the
elements of the worker, their handles replaced by the ids of the pool after the call, and writes
nothing else. A buffer that is `NULL` on the guest is `NULL` on the worker and in the reply, and
nothing is written. -/
theorem output_buffer_reaches_guest {arg : DirectedArgument} {annotations : BufferAnnotations}
    {pointee : Ty} (harg : arg.type = .buffer annotations pointee) (houtput : arg.output = true)
    (hcall : annotations.lifetime = .call) (hdata : pointee.isData = true)
    (shadowId shadowBuffer : Nat → Nat) (tag : UInt64) :
    (∀ (elements : List Val) (r : Reply) (mem : Bytes) (record address : Nat),
      HasType arg.type none [] (.buffer elements) → elements ≠ [] →
      r.draft.curOffset = r.draft.structSize + r.draft.attached.length →
      HasRoom r.draft (elements.length * pointee.sizeof) →
      readAt mem record 8 = some (leBytes 8 address) → 0 < address → address < 2 ^ 64 →
      address + elements.length * pointee.sizeof ≤ mem.length →
      ((arg.convertResult shadowId tag (.buffer elements) r).isSome =
        (allWithIds tag elements r.pool).isSome) ∧
      ∀ field reply, arg.convertResult shadowId tag (.buffer elements) r = some (field, reply) →
        ∀ (struct later : Bytes) (offset : Nat), struct.length = r.draft.structSize →
          offset + 8 ≤ struct.length → slice struct offset 8 = field →
          ∃ mem', arg.copyResult (struct ++ reply.draft.attached ++ later) shadowBuffer
              record offset
              mem = some mem' ∧
            slice mem' address (elements.length * pointee.sizeof) =
              Val.images (Val.mapAllHandles reply.pool.idOf elements) ∧
            ∀ i, i < address ∨ address + elements.length * pointee.sizeof ≤ i →
              mem'[i]? = mem[i]?) ∧
    ((∀ d, arg.attach shadowId .null d = some (leBytes 8 0, d)) ∧
      (∀ block offset c, slice block offset 8 = leBytes 8 0 →
        arg.convertInput block offset c = some (.null, c)) ∧
      (∀ r, arg.convertResult shadowId tag .null r = some (leBytes 8 0, r)) ∧
      ∀ block record offset mem, readAt block offset 8 = some (leBytes 8 0) →
        arg.copyResult block shadowBuffer record offset mem = some mem) := by
  simp only [DirectedArgument.convertResult, DirectedArgument.copyResult, Argument.attach,
    Argument.convertInput, harg, houtput]
  refine ⟨?_, ?_, ?_, ?_, ?_⟩
  · intro elements r mem record address htype hne hcur hroom hrecord haddress hlt hle
    have hconvert : convertResultValue true shadowId tag _ none [] _ r = _ :=
      convertResultValue_buffer hcall hdata htype hroom hne
    refine ⟨by rw [hconvert, Option.isSome_map], ?_⟩
    intro field reply hreply struct later offset hstruct hoffset hfield
    rw [hconvert] at hreply
    obtain ⟨⟨ids, pool⟩, hids, hreply⟩ := Option.map_eq_some_iff.1 hreply
    cases hreply
    have hlen := length_images_of_elements hdata htype hids
    -- the reply has the id of the buffer in its field and the elements at this id
    have hread : readAt (struct ++ (extend r.draft (Val.images ids)).attached ++ later) offset 8 =
        some (leBytes 8 r.draft.curOffset) := by
      rw [readAt, if_pos (by simp only [List.length_append]; omega), List.append_assoc,
        slice_append_left _ hoffset, hfield]
    have hholds : HoldsAt (struct ++ (extend r.draft (Val.images ids)).attached ++ later)
        r.draft.curOffset (Val.images ids) := by
      refine ⟨struct ++ r.draft.attached, later, ?_, ?_⟩
      · simp [extend]
      · rw [List.length_append, hstruct, hcur]
    rw [← hlen] at hle ⊢
    refine ⟨writeAt mem address (Val.images ids), ?_, ?_, ?_⟩
    · refine copyResultValue_buffer hcall hdata hread (leNat_id hroom) hroom.pos.ne' hrecord
        (leNat_leBytes_of_lt (lt_of_lt_of_eq hlt (by norm_num))) haddress.ne' hholds ?_ ?_ hle
      · rw [hlen, length_of_hasType_buffer htype hne]
      · exact hlen ▸ lt_of_le_of_lt (by have := hroom.fits; omega) hroom.lt
    · rw [slice_writeAt_self hle, (mapAllHandles_of_allWithIds elements hids).2 pool (.refl pool)]
    · intro i hi
      rw [getElem?_writeAt hle, if_neg (by omega)]
  · intro d
    rw [copyForValue]
  · intro block offset c hfield
    rw [Ty.sizeof, hfield, convertInputValue, leNat_null]
    rfl
  · intro r
    rw [convertResultValue]
  · intro block record offset mem hfield
    rw [copyResultValue, hfield]
    rfl

/-- An output array of two structs of a handle and two bytes, with six bytes of padding. -/
def handleArray : DirectedArgument where
  type := .buffer ⟨fun _ => 2, .call, .malloc, "struct s"⟩ (.struct (.cons (.handle false)
    (.cons (.scalar 2) (.cons (.scalar 6) .nil))))
  input := false
  output := true
  ret := false

/-- What the native function leaves in it: one handle twice. -/
def handleElements : List Val :=
  [.struct [.handle 5, .scalar [1, 2], .scalar (List.replicate 6 0)],
    .struct [.handle 5, .scalar [3, 4], .scalar (List.replicate 6 0)]]

/-- The guest's array is at the address 16, and the call record at the address 0. -/
theorem output_buffer_reaches_guest_handleArray :
    ∃ field reply, handleArray.convertResult (fun _ => 0) 1 (.buffer handleElements)
        ⟨.new 144 32, HandlePool.new⟩ = some (field, reply) ∧
      ∀ (struct later : Bytes) (offset : Nat), struct.length = 144 → offset + 8 ≤ struct.length →
        slice struct offset 8 = field →
        ∃ mem', handleArray.copyResult (struct ++ reply.draft.attached ++ later) (fun _ => 0) 0
            offset (leBytes 48 16) = some mem' ∧
          slice mem' 16 32 = Val.images (Val.mapAllHandles reply.pool.idOf handleElements) ∧
          ∀ i, i < 16 ∨ 48 ≤ i → mem'[i]? = (leBytes 48 16)[i]? := by
  have htype : HasType handleArray.type none [] (.buffer handleElements) := by
    simp only [handleArray, handleElements, HasType]
    refine ⟨rfl, ?_⟩
    rintro (_ | _ | i) e he
    · cases he
      simp [HasType, FieldsHaveType]
    · cases he
      simp [HasType, FieldsHaveType]
    · simp at he
  have hroom : HasRoom (.new 144 32) (handleElements.length * 16) :=
    ⟨by decide, by decide, by decide⟩
  have harg : handleArray.type = .buffer _ _ := rfl
  obtain ⟨hbuilt, hcopied⟩ := (output_buffer_reaches_guest harg rfl rfl rfl (fun _ => 0)
    (fun _ => 0) 1).1 handleElements ⟨.new 144 32, HandlePool.new⟩ (leBytes 48 16) 0 16 htype
    (by simp [handleElements]) rfl hroom rfl (by decide) (by decide) (by decide)
  rw [show (allWithIds 1 handleElements HandlePool.new).isSome = true from rfl] at hbuilt
  obtain ⟨⟨field, reply⟩, hreply⟩ := Option.isSome_iff_exists.1 hbuilt
  exact ⟨field, reply, hreply, hcopied field reply hreply⟩

end Ava.Generator
