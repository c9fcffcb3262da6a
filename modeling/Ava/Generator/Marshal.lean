import Ava.Generator.Values

/-!
# Marshalling input arguments

The worker rebuilds the value that the guest put into a command. The induction follows the type.
Both sides walk it in the same order, so the buffers attached for a part of the value are one
segment of the data region, and the conversion of that part reads only from this segment:
`RoundTrip` states this for any part of a value, and it composes along loops and fields.

A simple buffer is copied in one piece on either side. By `copyForValue_of_isPlain` and
`convertInputValue_of_isPlain` that is what copying it element by element would do, so the induction
has one case for buffers.
-/

set_option autoImplicit false

namespace Ava.Generator

open Ava.Lib Ava.Channel Ava.Endpoint

/-- The command after more bytes were attached. -/
def extend (d : SocketDraft) (bytes : Bytes) : SocketDraft :=
  { d with curOffset := d.curOffset + bytes.length, attached := d.attached ++ bytes }

/-- A command with space for `size` more bytes, whose buffer ids are pointers other than `NULL`. -/
structure HasRoom (d : SocketDraft) (size : Nat) : Prop where
  pos : 0 < d.curOffset
  fits : d.curOffset + size ≤ d.structSize + d.regionSize
  lt : d.structSize + d.regionSize < 2 ^ 64

section Draft

variable {d : SocketDraft} {a b : Bytes} {m n : Nat}

theorem extend_nil (d : SocketDraft) : extend d [] = d := by
  simp [extend]

theorem extend_extend : extend (extend d a) b = extend d (a ++ b) := by
  simp [extend, Nat.add_assoc]

theorem HasRoom.left (h : HasRoom d (m + n)) : HasRoom d m :=
  ⟨h.pos, le_trans (by omega) h.fits, h.lt⟩

theorem HasRoom.extend (h : HasRoom d (a.length + n)) : HasRoom (extend d a) n :=
  ⟨Nat.add_pos_left h.pos _, le_trans (Nat.add_assoc ..).le h.fits, h.lt⟩

theorem attachBuffer_extend (h : HasRoom d a.length) (ha : a ≠ []) :
    d.attachBuffer a = some (d.curOffset, extend d a) := SocketDraft.attachBuffer_eq ha h.fits

theorem leNat_id (h : HasRoom d n) : leNat (leBytes 8 d.curOffset) = d.curOffset :=
  leNat_leBytes_of_lt (lt_of_le_of_lt (le_trans (Nat.le_add_right _ n) h.fits)
    (lt_of_lt_of_eq h.lt (by norm_num)))

end Draft

/-! ## Parts of a value -/

section RoundTrip

universe u v

variable {β : Type u} {γ : Type v}

/-- What the conversion of a part of a value gives, without the local buffers. -/
def outcome (r : γ × Conversion) : γ × HandlePool := (r.1, r.2.pool)

/-- The part of a command that `attach` builds, with `size` attached bytes, is converted to the
translation of a part of a value. -/
def RoundTrip (size : Nat) (attach : SocketDraft → Option (β × SocketDraft))
    (convert : Bytes → β → Conversion → Option (γ × Conversion))
    (expected : HandlePool → Option (γ × HandlePool)) : Prop :=
  ∀ d : SocketDraft, HasRoom d size → ∃ b bytes, attach d = some (b, extend d bytes) ∧
    bytes.length = size ∧ ∀ (block : Bytes) (c : Conversion), HoldsAt block d.curOffset bytes →
      (convert block b c).map outcome = expected c.pool

variable {attach : SocketDraft → Option (β × SocketDraft)}
  {convert : Bytes → β → Conversion → Option (γ × Conversion)}
  {expected : HandlePool → Option (γ × HandlePool)} {size : Nat}

theorem RoundTrip.of_attach_eq {b : β} (hattach : ∀ d, attach d = some (b, d))
    (hconvert : ∀ block c, (convert block b c).map outcome = expected c.pool) :
    RoundTrip 0 attach convert expected := by
  intro d _
  refine ⟨b, [], ?_, rfl, fun block c _ => hconvert block c⟩
  rw [hattach, extend_nil]

/-- Two conversions in a row follow two translations in a row. -/
theorem outcome_seq {x : Option (γ × Conversion)} {y : Option (γ × HandlePool)}
    {next : Conversion → Option (List γ × Conversion)}
    {expectedNext : HandlePool → Option (List γ × HandlePool)}
    (hx : x.map outcome = y) (hnext : ∀ c, (next c).map outcome = expectedNext c.pool) :
    (x.bind fun r => (next r.2).map fun q => (r.1 :: q.1, q.2)).map outcome =
      y.bind fun r => (expectedNext r.2).map fun q => (r.1 :: q.1, q.2) := by
  subst hx
  rcases x with - | ⟨g, c⟩
  · rfl
  · simp only [Option.bind_some, Option.map_some, outcome, Option.map_map, Function.comp_def,
      ← hnext c]

/-- The conversions of the elements, in a loop on either side. -/
theorem RoundTrip.forIndexed {α : Type u} (size : Nat → α → Nat)
    (attach : Nat → α → SocketDraft → Option (β × SocketDraft))
    (convert : Bytes → Nat → β → Conversion → Option (γ × Conversion))
    (expected : Nat → α → HandlePool → Option (γ × HandlePool)) (start : Nat) {as : List α}
    (h : ∀ i a, as[i]? = some a → RoundTrip (size (start + i) a) (attach (start + i) a)
      (fun block => convert block (start + i)) (expected (start + i) a)) :
    RoundTrip (as.mapIdx fun i a => size (start + i) a).sum (Lib.forIndexed attach start as)
      (fun block => Lib.forIndexed (convert block) start) (Lib.forIndexed expected start as) := by
  -- on the elements; the index they start at moves with them
  induction as generalizing start with
  | nil => exact RoundTrip.of_attach_eq (fun _ => rfl) fun _ _ => rfl
  | cons a as ih =>
    have hsum : ((a :: as).mapIdx fun i a => size (start + i) a).sum =
        size start a + (as.mapIdx fun i a => size (start + 1 + i) a).sum := by
      rw [List.mapIdx_cons, List.sum_cons]
      simp only [Nat.add_zero, Nat.add_assoc, Nat.add_comm 1]
    have hrest := ih (start + 1) fun i e he => by
      have hstep := h (i + 1) e he
      rwa [← Nat.add_assoc, Nat.add_right_comm] at hstep
    rw [hsum]
    intro d hroom
    -- what the first element attaches lies before what the others attach
    obtain ⟨b, bytes, hb, hlen, hconv⟩ := h 0 a rfl d hroom.left
    rw [Nat.add_zero] at hb hlen hconv
    rw [← hlen] at hroom
    obtain ⟨bs, bytes', hbs, hlen', hconv'⟩ := hrest (extend d bytes) hroom.extend
    refine ⟨b :: bs, bytes ++ bytes', ?_, ?_, ?_⟩
    · rw [forIndexed_cons_of_eq hb hbs, extend_extend]
    · rw [List.length_append, hlen, hlen']
    · intro block c hblock
      exact outcome_seq (hconv block c hblock.left) fun c' => hconv' block c' hblock.right

end RoundTrip

/-! ## Buffers -/

section Buffer

variable {shadowId : Nat → Nat} {annotations : BufferAnnotations} {pointee : Ty}
  {originalType : Option Ty} {path : Path} {elements : List Val} {d : SocketDraft}

theorem images_eq_flatten (vs : List Val) :
    Val.images vs = (vs.mapIdx fun _ v => v.image).flatten := by
  induction vs with
  | nil => rw [Val.images]; rfl
  | cons v vs ih => rw [Val.images, List.mapIdx_cons, List.flatten_cons, ih]

/-- A buffer is filled element by element and attached. -/
theorem copyForValue_buffer (hwf : (Ty.buffer annotations pointee).WellFormed)
    (htype : HasType (.buffer annotations pointee) originalType path (.buffer elements))
    (hpos : 0 < annotations.buffer path) :
    copyForValue true shadowId (.buffer annotations pointee) originalType path (.buffer elements)
        d =
      (forIndexed (fun i e d => copyForValue true shadowId pointee none (i :: path) e d) 0 elements
        d).bind fun tmp =>
          (tmp.2.attachBuffer (tmp.1.flatten.take
            (sizeToBytes (computeBufferSize annotations pointee originalType path) pointee))).map
            fun r => (leBytes 8 r.1, r.2) := by
  rw [HasType] at htype
  obtain ⟨hcall, hblob, -⟩ := hwf.buffer
  rw [copyForValue, if_pos hpos, hcall]
  simp only [attachBuffer, Bool.not_true, Bool.or_false]
  split_ifs with hb
  · -- in one piece: the image of the elements is what the loop would have written
    have hloop : forIndexed (fun i e d => copyForValue true shadowId pointee none (i :: path) e d) 0
        elements d = some (elements.mapIdx fun _ e => e.image, d) := by
      refine forIndexed_pure (fun _ (e : Val) => e.image) fun k e he d => ?_
      rw [Nat.zero_add]
      exact copyForValue_of_isPlain pointee d (hblob true hb) (htype.2 k e he)
    rw [hloop, Option.bind_some, images_eq_flatten]
  · rfl

/-- A buffer is converted element by element from its transfer buffer. -/
theorem convertInputValue_buffer (block : Bytes) (originalType : Option Ty) (path : Path)
    (hwf : (Ty.buffer annotations pointee).WellFormed) {bytes : Bytes} (hparam : leNat bytes ≠ 0)
    (c : Conversion) :
    ∃ b, convertInputValue true block (.buffer annotations pointee) originalType path bytes c =
      (readAt block (leNat bytes)
        (computeBufferSize annotations pointee originalType path * pointee.sizeof)).bind fun src =>
        (forIndexed (fun i e c => convertInputValue true block pointee none (i :: path) e c) 0
          (chunks pointee.sizeof (computeBufferSize annotations pointee originalType path) src)
          (c.addLocal b)).map fun r => (.buffer r.1, r.2) := by
  obtain ⟨hcall, hblob, -⟩ := hwf.buffer
  rw [convertInputValue]
  simp only [if_neg hparam, getBufferSize, hcall, if_true]
  generalize computeBufferSize annotations pointee originalType path = count
  -- a simple buffer is only viewed, which the loop over plain elements would do as well
  by_cases hb : pointee.isBlob false = true
  · refine ⟨⟨simpleLocation annotations (leNat bytes), count * pointee.sizeof⟩, ?_⟩
    simp only [if_pos hb]
    refine congrArg _ (funext fun src => ?_)
    have hloop : ∀ (parts : List Bytes) (c : Conversion),
        forIndexed (fun i e c => convertInputValue true block pointee none (i :: path) e c) 0 parts
            c =
          some (parts.mapIdx fun i e => pointee.view ((0 + i) :: path) e, c) := fun parts c =>
      forIndexed_pure (fun i e => pointee.view (i :: path) e) fun k e _ c =>
        convertInputValue_of_isPlain pointee none e c (hblob false hb)
    rw [hloop, Option.map_some]
    simp only [Nat.zero_add]
  · refine ⟨⟨.allocated, count * pointee.sizeof⟩, ?_⟩
    simp only [if_neg hb]

theorem computeSize_buffer (hwf : (Ty.buffer annotations pointee).WellFormed)
    (hpos : 0 < annotations.buffer path) :
    computeSize true (.buffer annotations pointee) originalType path (.buffer elements) =
      (elements.mapIdx fun i e => computeSize true pointee none (i :: path) e).sum +
        computeBufferSize annotations pointee originalType path * pointee.sizeof := by
  obtain ⟨hcall, hblob, -⟩ := hwf.buffer
  rw [computeSize, if_pos hpos, hcall, attachedSize]
  split_ifs with hb
  · rw [List.sum_eq_zero]
    intro n hn
    obtain ⟨i, hi, rfl⟩ := List.mem_mapIdx.1 hn
    exact computeSize_of_isPlain pointee none (i :: path) _ (hblob true hb)
  · rfl

end Buffer

mutual

/-- A value takes its `sizeof` in the command struct, or in the buffer it is an element of. -/
theorem length_copyForValue {input : Bool} {shadowId : Nat → Nat} :
    ∀ (ty : Ty) {originalType : Option Ty} {path : Path} {v : Val} {d d' : SocketDraft}
      {bytes : Bytes}, ty.Consistent → HasType ty originalType path v →
      copyForValue input shadowId ty originalType path v d = some (bytes, d') →
      bytes.length = ty.sizeof
  | .scalar width, _, _, .scalar _, _, _, _, _, htype, h => by
    rw [copyForValue] at h
    rw [HasType] at htype
    cases h
    exact htype
  | .handle _, _, _, .handle _, _, _, _, _, _, h => by
    rw [copyForValue] at h
    cases h
    exact length_leBytes 8 _
  | .buffer _ _, _, _, .null, _, _, _, _, _, h => by
    rw [copyForValue] at h
    cases h
    exact length_leBytes 8 0
  | .buffer annotations pointee, _, path, .buffer elements, d, _, _, _, _, h => by
    rw [copyForValue] at h
    rw [Ty.sizeof]
    split_ifs at h
    · obtain ⟨r, -, h⟩ := Option.map_eq_some_iff.1 h
      cases h
      exact length_leBytes 8 _
    · obtain ⟨tmp, -, h⟩ := Option.bind_eq_some_iff.1 h
      obtain ⟨r, -, h⟩ := Option.map_eq_some_iff.1 h
      cases h
      exact length_leBytes 8 _
    · cases h
      exact length_leBytes 8 0
  | .struct fields, _, _, .struct _, _, _, _, hcons, htype, h => by
    rw [Ty.Consistent] at hcons
    rw [HasType] at htype
    rw [copyForValue] at h
    rw [Ty.sizeof]
    exact length_copyForFields fields hcons htype h
  | .conditional predicate thenType elseType _, _, _, _, _, _, _, hcons, htype, h => by
    rw [Ty.Consistent] at hcons
    rw [HasType] at htype
    rw [copyForValue] at h
    rw [Ty.sizeof]
    split_ifs at htype h
    · exact (length_copyForValue thenType hcons.1.2 htype h).trans hcons.1.1
    · exact (length_copyForValue elseType hcons.2.2 htype h).trans hcons.2.1

theorem length_copyForFields {input : Bool} {shadowId : Nat → Nat} :
    ∀ (fields : Fields) {path : Path} {values : List Val} {d d' : SocketDraft} {bytes : Bytes},
      fields.Consistent → FieldsHaveType fields path values →
      copyForFields input shadowId fields path values d = some (bytes, d') →
      bytes.length = fields.sizeof
  | .nil, _, [], _, _, _, _, _, h => by
    rw [copyForFields] at h
    cases h
    rfl
  | .cons field rest, _, _ :: _, _, _, _, hcons, htype, h => by
    rw [Fields.Consistent] at hcons
    rw [FieldsHaveType] at htype
    rw [copyForFields, Option.bind_eq_some_iff] at h
    obtain ⟨⟨first, d₁⟩, hfirst, h⟩ := h
    obtain ⟨⟨others, d₂⟩, hrest, h⟩ := Option.map_eq_some_iff.1 h
    cases h
    rw [List.length_append, length_copyForValue field hcons.1 htype.1 hfirst,
      length_copyForFields rest hcons.2 htype.2 hrest, Fields.sizeof]

end

section Buffer

variable {shadowId : Nat → Nat} {annotations : BufferAnnotations} {pointee : Ty}
  {originalType : Option Ty} {path : Path} {elements : List Val}

/-- The parts that the loop over the elements of a buffer writes. -/
theorem elements_parts {input : Bool} (hcons : (Ty.buffer annotations pointee).Consistent)
    (htype : HasType (.buffer annotations pointee) originalType path (.buffer elements))
    {d d' : SocketDraft} {parts : List Bytes}
    (h : forIndexed (fun i e d => copyForValue input shadowId pointee none (i :: path) e d) 0
      elements d = some (parts, d')) :
    parts.length = elements.length ∧ (∀ part ∈ parts, part.length = pointee.sizeof) ∧
      parts.flatten.length = elements.length * pointee.sizeof := by
  rw [Ty.Consistent] at hcons
  rw [HasType] at htype
  obtain ⟨hlen, hparts⟩ := forIndexed_results (P := fun part => part.length = pointee.sizeof)
    (fun {k e _ _ _} he hstep => by
      rw [Nat.zero_add] at hstep
      exact length_copyForValue pointee hcons.2 (htype.2 k e he) hstep) h
  exact ⟨hlen, hparts, by rw [length_flatten_of_lengths hparts, hlen]⟩

/-- A transfer buffer that holds the parts of a buffer is converted part by part. -/
theorem convertInputValue_parts (hwf : (Ty.buffer annotations pointee).WellFormed)
    {block bytes : Bytes} (hparam : leNat bytes ≠ 0) {parts : List Bytes}
    (hcount : parts.length = computeBufferSize annotations pointee originalType path)
    (hsizes : ∀ part ∈ parts, part.length = pointee.sizeof)
    (hblock : HoldsAt block (leNat bytes) parts.flatten) (c : Conversion) :
    ∃ b, convertInputValue true block (.buffer annotations pointee) originalType path bytes c =
      (forIndexed (fun i e c => convertInputValue true block pointee none (i :: path) e c) 0 parts
        (c.addLocal b)).map fun r => (.buffer r.1, r.2) := by
  obtain ⟨b, hb⟩ := convertInputValue_buffer block originalType path hwf hparam c
  have hread : readAt block (leNat bytes) (parts.length * pointee.sizeof) = some parts.flatten := by
    rw [← length_flatten_of_lengths hsizes]
    exact hblock.readAt_eq
  refine ⟨b, ?_⟩
  rw [hb, ← hcount, hread, Option.bind_some, chunks_flatten hsizes]

theorem RoundTrip.buffer (hwf : (Ty.buffer annotations pointee).WellFormed)
    (htype : HasType (.buffer annotations pointee) originalType path (.buffer elements))
    (hpos : 0 < annotations.buffer path)
    (hbytes : 0 < sizeToBytes (computeBufferSize annotations pointee originalType path) pointee)
    (h : ∀ i e, elements[i]? = some e →
      RoundTrip (computeSize true pointee none (i :: path) e)
        (copyForValue true shadowId pointee none (i :: path) e)
        (fun block => convertInputValue true block pointee none (i :: path))
        (translate pointee (i :: path) e)) :
    RoundTrip (computeSize true (.buffer annotations pointee) originalType path (.buffer elements))
      (copyForValue true shadowId (.buffer annotations pointee) originalType path
        (.buffer elements))
      (fun block => convertInputValue true block (.buffer annotations pointee) originalType path)
      (translate (.buffer annotations pointee) path (.buffer elements)) := by
  have hcount : elements.length = computeBufferSize annotations pointee originalType path := by
    have hlen := htype
    rw [HasType, if_pos hpos] at hlen
    exact hlen.1
  have hloop := RoundTrip.forIndexed
    (fun i e => computeSize true pointee none (i :: path) e)
    (fun i e d => copyForValue true shadowId pointee none (i :: path) e d)
    (fun block i e c => convertInputValue true block pointee none (i :: path) e c)
    (fun i e pool => translate pointee (i :: path) e pool) 0
    fun i e he => by
      rw [Nat.zero_add]
      exact h i e he
  simp only [Nat.zero_add] at hloop
  intro d hroom
  rw [computeSize_buffer hwf hpos] at hroom ⊢
  obtain ⟨parts, bytes, hparts, hlen, hconv⟩ := hloop d hroom.left
  obtain ⟨hpartsLength, hsizes, hflat⟩ := elements_parts hwf.1 htype hparts
  rw [hcount] at hpartsLength hflat
  -- there is room for all bytes of the buffer, so `size_t` can count them
  have hfits : computeBufferSize annotations pointee originalType path * pointee.sizeof < 2 ^ 64 :=
    lt_of_le_of_lt (by have := hroom.fits; omega) hroom.lt
  rw [sizeToBytes_of_lt hfits] at hbytes
  rw [← hlen, ← hflat] at hroom
  have hne : parts.flatten ≠ [] := by
    rintro hnil
    rw [hnil, List.length_nil] at hflat
    omega
  -- the buffers of the elements come first, then the buffer itself
  have hid := leNat_id hroom.extend
  refine ⟨leBytes 8 (extend d bytes).curOffset, bytes ++ parts.flatten, ?_, ?_, ?_⟩
  · rw [copyForValue_buffer hwf htype hpos, hparts, Option.bind_some, sizeToBytes_of_lt hfits,
      List.take_of_length_le hflat.le, attachBuffer_extend hroom.extend hne, Option.map_some,
      extend_extend]
  · rw [List.length_append, hlen, hflat]
  · intro block c hblock
    have hparam : leNat (leBytes 8 (extend d bytes).curOffset) ≠ 0 := by
      rw [hid]
      exact hroom.extend.pos.ne'
    have hheld : HoldsAt block (leNat (leBytes 8 (extend d bytes).curOffset)) parts.flatten := by
      rw [hid]
      exact hblock.right
    obtain ⟨b, hb⟩ := convertInputValue_parts hwf hparam hpartsLength hsizes hheld c
    dsimp only
    rw [hb]
    -- the buffer is not empty, so the translation is not `NULL`
    obtain ⟨e, rest, rfl⟩ : ∃ e rest, elements = e :: rest := by
      refine List.exists_cons_of_ne_nil ?_
      rintro rfl
      rw [List.length_nil] at hcount
      rw [← hcount, Nat.zero_mul] at hbytes
      exact lt_irrefl 0 hbytes
    rw [translate, ← show (c.addLocal b).pool = c.pool from rfl,
      ← hconv block (c.addLocal b) hblock.left, Option.map_map, Option.map_map]
    rfl

end Buffer

/-! ## Whole values -/

theorem leNat_null : leNat (leBytes 8 0) = 0 := rfl

/-- A buffer that the guest sends as `NULL` is `NULL` on the worker. -/
theorem RoundTrip.null {shadowId : Nat → Nat} {annotations : BufferAnnotations} {pointee : Ty}
    {originalType : Option Ty} {path : Path} {v : Val}
    (hsize : computeSize true (.buffer annotations pointee) originalType path v = 0)
    (hcopy : ∀ d, copyForValue true shadowId (.buffer annotations pointee) originalType path v d =
      some (leBytes 8 0, d))
    (htranslate : ∀ pool,
      translate (.buffer annotations pointee) path v pool = some (.null, pool)) :
    RoundTrip (computeSize true (.buffer annotations pointee) originalType path v)
      (copyForValue true shadowId (.buffer annotations pointee) originalType path v)
      (fun block => convertInputValue true block (.buffer annotations pointee) originalType path)
      (translate (.buffer annotations pointee) path v) := by
  rw [hsize]
  refine RoundTrip.of_attach_eq hcopy fun block c => ?_
  rw [convertInputValue, leNat_null, htranslate]
  rfl

mutual

/-- The worker rebuilds the translation of a value. -/
theorem roundTrip_value {shadowId : Nat → Nat} :
    ∀ (ty : Ty) (originalType : Option Ty) (path : Path) (v : Val), ty.WellFormed →
      HasType ty originalType path v → Attachable ty originalType path v →
      RoundTrip (computeSize true ty originalType path v)
        (copyForValue true shadowId ty originalType path v)
        (fun block => convertInputValue true block ty originalType path) (translate ty path v)
  | .scalar _, _, _, .scalar bytes, _, _, _ => by
    rw [computeSize_of_isPlain _ _ _ _ rfl]
    refine RoundTrip.of_attach_eq (fun d => by rw [copyForValue]) fun block c => ?_
    rw [convertInputValue, translate]
    rfl
  | .handle deallocates, _, _, .handle id, _, _, _ => by
    rw [computeSize_of_isPlain _ _ _ _ rfl]
    refine RoundTrip.of_attach_eq (fun d => by rw [copyForValue]) fun block c => ?_
    have hid : UInt64.ofNat (leNat (leBytes 8 id.toNat)) = id := by
      rw [leNat_leBytes_of_lt (lt_of_lt_of_eq id.toNat_lt (by norm_num)), UInt64.ofNat_toNat]
    rw [convertInputValue, translate, hid, Option.map_map]
    rfl
  | .buffer _ _, _, _, .null, _, _, _ =>
    RoundTrip.null (by simp [computeSize]) (fun d => by rw [copyForValue])
      fun pool => by rw [translate]
  | .buffer annotations pointee, originalType, path, .buffer elements, hwf, htype, hattach => by
    by_cases hpos : 0 < annotations.buffer path
    · rw [Attachable] at hattach
      obtain ⟨hbytes, helements⟩ := hattach hpos
      refine RoundTrip.buffer hwf htype hpos hbytes fun i e he => ?_
      rw [HasType] at htype
      exact roundTrip_value pointee none (i :: path) e hwf.buffer.2.2 (htype.2 i e he)
        (helements i e he)
    · -- a buffer of size 0 has no elements, and `NULL` is sent for it
      rw [HasType, if_neg hpos, List.length_eq_zero_iff] at htype
      rw [htype.1]
      exact RoundTrip.null (by rw [computeSize, if_neg hpos])
        (fun d => by rw [copyForValue, if_neg hpos]) fun pool => by rw [translate]
  | .struct fields, _, path, .struct values, hwf, htype, hattach => by
    rw [HasType] at htype
    rw [Attachable] at hattach
    intro d hroom
    rw [computeSize] at hroom ⊢
    obtain ⟨b, bytes, hb, hlen, hconv⟩ :=
      roundTrip_fields fields path values hwf.struct htype hattach d hroom
    refine ⟨b, bytes, by rw [copyForValue, hb], hlen, fun block c hblock => ?_⟩
    dsimp only
    rw [convertInputValue, translate, ← hconv block c hblock, Option.map_map, Option.map_map]
    rfl
  | .conditional predicate thenType elseType originalType, _, path, v, hwf, htype, hattach => by
    rw [HasType] at htype
    rw [Attachable] at hattach
    intro d hroom
    simp only [computeSize, copyForValue, convertInputValue, translate] at hroom ⊢
    -- both sides evaluate the predicate and take the same branch
    split_ifs at htype hattach hroom ⊢
    · exact roundTrip_value thenType _ path v hwf.conditional.1 htype hattach d hroom
    · exact roundTrip_value elseType _ path v hwf.conditional.2 htype hattach d hroom

theorem roundTrip_fields {shadowId : Nat → Nat} :
    ∀ (fields : Fields) (path : Path) (values : List Val), fields.WellFormed →
      FieldsHaveType fields path values → FieldsAttachable fields path values →
      RoundTrip (computeFieldSizes true fields path values)
        (copyForFields true shadowId fields path values)
        (fun block => convertInputFields true block fields path)
        (translateFields fields path values)
  | .nil, _, [], _, _, _ => by
    rw [show computeFieldSizes true .nil _ _ = 0 by simp [computeFieldSizes]]
    refine RoundTrip.of_attach_eq (fun d => by rw [copyForFields]) fun block c => ?_
    rw [convertInputFields, translateFields]
    rfl
  | .cons field rest, path, v :: values, hwf, htype, hattach => by
    obtain ⟨hfield, hrest⟩ := hwf.cons
    rw [FieldsHaveType] at htype
    rw [FieldsAttachable] at hattach
    intro d hroom
    rw [computeFieldSizes] at hroom ⊢
    obtain ⟨first, bytes, hfirst, hlen, hconv⟩ :=
      roundTrip_value field none path v hfield htype.1 hattach.1 d hroom.left
    rw [← hlen] at hroom
    obtain ⟨others, bytes', hothers, hlen', hconv'⟩ :=
      roundTrip_fields rest path values hrest htype.2 hattach.2 (extend d bytes) hroom.extend
    -- the fields after the first start at its `sizeof`
    have hsize := length_copyForValue field hfield.1 htype.1 hfirst
    refine ⟨first ++ others, bytes ++ bytes', ?_, ?_, fun block c hblock => ?_⟩
    · rw [copyForFields, hfirst, Option.bind_some, hothers, Option.map_some, extend_extend]
    · rw [List.length_append, hlen, hlen']
    · dsimp only
      rw [convertInputFields, translateFields, List.take_left' hsize, List.drop_left' hsize]
      exact outcome_seq (hconv block c hblock.left) fun c' => hconv' block c' hblock.right

end

/-! ## Values that cannot be attached -/

mutual

/-- The emitted code gets through only if every buffer it attaches has bytes. -/
theorem attachable_of_copyForValue {shadowId : Nat → Nat} :
    ∀ (ty : Ty) {originalType : Option Ty} {path : Path} {v : Val} {d d' : SocketDraft}
      {bytes : Bytes}, ty.WellFormed → HasType ty originalType path v →
      copyForValue true shadowId ty originalType path v d = some (bytes, d') →
      Attachable ty originalType path v
  | .scalar _, _, _, v, _, _, _, _, _, _ => attachable_of_isPlain _ _ _ v rfl
  | .handle _, _, _, v, _, _, _, _, _, _ => attachable_of_isPlain _ _ _ v rfl
  | .buffer _ _, _, _, .null, _, _, _, _, _, _ => by simp [Attachable]
  | .buffer annotations pointee, _, path, .buffer elements, d, _, _, hwf, htype, h => by
    rw [Attachable]
    intro hpos
    rw [copyForValue_buffer hwf htype hpos, Option.bind_eq_some_iff] at h
    obtain ⟨⟨parts, d₁⟩, hloop, h⟩ := h
    obtain ⟨r, hattach, -⟩ := Option.map_eq_some_iff.1 h
    rw [HasType] at htype
    refine ⟨?_, fun i e he => ?_⟩
    · -- the channel asserts that there is something to attach
      rw [Nat.pos_iff_ne_zero]
      intro hzero
      simp [hzero, SocketDraft.attachBuffer] at hattach
    · obtain ⟨_, _, _, hstep⟩ := exists_step_of_forIndexed hloop he
      rw [Nat.zero_add] at hstep
      exact attachable_of_copyForValue pointee hwf.buffer.2.2 (htype.2 i e he) hstep
  | .struct fields, _, _, .struct _, _, _, _, hwf, htype, h => by
    rw [HasType] at htype
    rw [copyForValue] at h
    rw [Attachable]
    exact fieldsAttachable_of_copyForFields fields hwf.struct htype h
  | .conditional predicate thenType elseType _, _, _, _, _, _, _, hwf, htype, h => by
    rw [HasType] at htype
    rw [copyForValue] at h
    rw [Attachable]
    split_ifs at htype h ⊢
    · exact attachable_of_copyForValue thenType hwf.conditional.1 htype h
    · exact attachable_of_copyForValue elseType hwf.conditional.2 htype h

theorem fieldsAttachable_of_copyForFields {shadowId : Nat → Nat} :
    ∀ (fields : Fields) {path : Path} {values : List Val} {d d' : SocketDraft} {bytes : Bytes},
      fields.WellFormed → FieldsHaveType fields path values →
      copyForFields true shadowId fields path values d = some (bytes, d') →
      FieldsAttachable fields path values
  | .nil, _, [], _, _, _, _, _, _ => by simp [FieldsAttachable]
  | .cons field rest, _, _ :: _, _, _, _, hwf, htype, h => by
    rw [FieldsHaveType] at htype
    rw [copyForFields, Option.bind_eq_some_iff] at h
    obtain ⟨⟨_, _⟩, hfirst, h⟩ := h
    obtain ⟨⟨_, _⟩, hrest, -⟩ := Option.map_eq_some_iff.1 h
    rw [FieldsAttachable]
    exact ⟨attachable_of_copyForValue field hwf.cons.1 htype.1 hfirst,
      fieldsAttachable_of_copyForFields rest hwf.cons.2 htype.2 hrest⟩

end

/-! ## Arguments -/

/-- For the argument itself the original type changes nothing. -/
theorem convertInputValue_self (input : Bool) (block : Bytes) (ty : Ty) (path : Path)
    (bytes : Bytes) (c : Conversion) :
    convertInputValue input block ty (some ty) path bytes c =
      convertInputValue input block ty none path bytes c := by
  cases ty with
  | buffer annotations pointee =>
    have hsize : computeBufferSize annotations pointee (some (.buffer annotations pointee)) path =
        computeBufferSize annotations pointee none path := by
      simp [computeBufferSize, Ty.pointee?]
    simp only [convertInputValue, getBufferSize, hsize]
  | _ => simp only [convertInputValue]

/-- An argument is attached, and rebuilt from any command it was attached to with other arguments
before and after it, exactly if every buffer that the guest does not replace by `NULL` has at least
one byte. -/
theorem convertInput_of_attach_iff {arg : Argument} {shadowId : Nat → Nat} {v : Val}
    {d : SocketDraft} (hinput : arg.input = true) (hwf : arg.type.WellFormed)
    (htype : HasType arg.type none [] v) (hcur : d.curOffset = d.structSize + d.attached.length)
    (hroom : HasRoom d (arg.totalSize v)) :
    (∃ param d', arg.attach shadowId v d = some (param, d') ∧
      ∀ (struct later : Bytes) (offset : Nat) (c : Conversion), struct.length = d.structSize →
        offset + arg.type.sizeof ≤ struct.length → slice struct offset arg.type.sizeof = param →
        (arg.convertInput (struct ++ d'.attached ++ later) offset c).map outcome =
          translate arg.type [] v c.pool) ↔
      Attachable arg.type none [] v := by
  simp only [Argument.attach, Argument.totalSize, Argument.convertInput, hinput] at hroom ⊢
  constructor
  · rintro ⟨param, d', hparam, -⟩
    exact attachable_of_copyForValue arg.type hwf htype hparam
  · intro hattach
    obtain ⟨param, bytes, hparam, -, hconv⟩ :=
      roundTrip_value arg.type none [] v hwf htype hattach d hroom
    refine ⟨param, _, hparam, fun struct later offset c hstruct hle hfield => ?_⟩
    -- what was attached for the argument lies behind the struct and the earlier buffers
    have hholds : HoldsAt (struct ++ (extend d bytes).attached ++ later) d.curOffset bytes := by
      refine ⟨struct ++ d.attached, later, ?_, ?_⟩
      · simp [extend]
      · rw [List.length_append, hstruct, hcur]
    have hslice : slice (struct ++ (extend d bytes).attached ++ later) offset arg.type.sizeof =
        param := by
      rw [List.append_assoc, slice_append_left _ hle, hfield]
    rw [hslice, convertInputValue_self]
    exact hconv _ c hholds

/-- An array of two structs of a handle and a buffer with as many bytes as the index of the
struct. -/
def nestedArgument : Argument where
  type := .buffer ⟨fun _ => 2, .call, .malloc, "struct s"⟩ (.struct (.cons (.handle false)
    (.cons (.buffer ⟨fun path => path.headD 0, .call, .malloc, "char"⟩ (.scalar 1)) .nil)))
  input := true

/-- A value of it: the buffer of the first struct has no elements. -/
def nestedValue : Val :=
  .buffer [.struct [.handle 5, .buffer []], .struct [.handle 6, .buffer [.scalar [7]]]]

theorem convertInput_of_attach_nested :
    ∃ param d', nestedArgument.attach (fun _ => 0) nestedValue (.new 144 33) = some (param, d') ∧
      ∀ (struct later : Bytes) (offset : Nat) (c : Conversion), struct.length = 144 →
        offset + 8 ≤ struct.length → slice struct offset 8 = param →
        (nestedArgument.convertInput (struct ++ d'.attached ++ later) offset c).map outcome =
          translate nestedArgument.type [] nestedValue c.pool := by
  refine (convertInput_of_attach_iff rfl ?_ ?_ rfl ?_).2 ?_
  · simp [nestedArgument, Ty.WellFormed, Ty.Consistent, Fields.Consistent, Ty.CallLifetime,
      Fields.CallLifetime, Ty.isBlob, Fields.areBlobs, Ty.isPlain]
  · have hinner : ∀ (i : Nat) (e : Val), [Val.scalar [7]][i]? = some e →
        HasType (.scalar 1) none [i, 1] e := by
      rintro (_ | i) e he
      · cases he
        simp [HasType]
      · simp at he
    simp only [nestedArgument, nestedValue, HasType]
    refine ⟨rfl, ?_⟩
    rintro (_ | _ | i) e he
    · cases he
      simp [HasType, FieldsHaveType]
    · cases he
      simp only [HasType, FieldsHaveType]
      exact ⟨trivial, ⟨rfl, hinner⟩, trivial⟩
    · simp at he
  · exact ⟨by decide, by decide, by decide⟩
  · simp only [nestedArgument, nestedValue, Attachable]
    refine fun _ => ⟨by decide, ?_⟩
    rintro (_ | _ | i) e he
    · cases he
      simp [Attachable, FieldsAttachable]
    · cases he
      simp [Attachable, FieldsAttachable, sizeToBytes, computeBufferSize, sizeT, Ty.sizeof]
    · simp at he

/-- A buffer of two bytes that a conditional type casts to a buffer of four-byte integers. -/
def castArgument : Argument where
  type := .conditional (fun _ => true) (.buffer ⟨fun _ => 2, .call, .malloc, "int"⟩ (.scalar 4))
    (.buffer ⟨fun _ => 2, .call, .malloc, "void"⟩ (.scalar 1))
    (.buffer ⟨fun _ => 2, .call, .malloc, "void"⟩ (.scalar 1))
  input := true

/-- The two bytes hold no integer, so the worker should see `NULL`. The guest tests the size
expression, which is positive, and then attaches the scaled size, which is zero. -/
theorem castArgument_aborts :
    castArgument.type.WellFormed ∧ HasType castArgument.type none [] (.buffer []) ∧
      HasRoom (.new 144 0) (castArgument.totalSize (.buffer [])) ∧
      castArgument.attach (fun _ => 0) (.buffer []) (.new 144 0) = none ∧
      translate castArgument.type [] (.buffer []) HandlePool.new =
        some (.null, HandlePool.new) := by
  refine ⟨?_, ?_, ⟨by decide, by decide, by decide⟩, by decide, ?_⟩
  · simp [castArgument, Ty.WellFormed, Ty.Consistent, Ty.CallLifetime, Ty.isPlain, Ty.sizeof]
  · simp [castArgument, HasType, computeBufferSize, Ty.pointee?, Ty.sizeof, sizeT]
  · simp [castArgument, translate]

end Ava.Generator
