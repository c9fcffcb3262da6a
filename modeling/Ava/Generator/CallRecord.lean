import Ava.Generator.Callee

/-!
# The record of a call

`call_command_implementation` of `generator/c/callee.py` emits the handler of a function on the
worker: it converts the arguments, calls the native function, and then records the received command
in the log. The record is made after the call, from the command in memory, so what the native
function wrote to a local buffer that lies in the command is recorded too.

`Ty.SharesBytes` says, from the types and the received command alone, when the native function gets
a pointer to bytes of the command: an input argument reaches a buffer that is not `NULL` and not
empty, whose elements hold only opaque values, with call lifetime and `malloc` as its allocator.
`callRecord_eq_received_iff` shows that the record is the received command, whatever the native
function writes, exactly if no argument does so.
-/

set_option autoImplicit false

namespace Ava.Generator

open Ava.Lib Ava.Channel Ava.Endpoint

/-- A parameter of a function: the argument and the offset of its field in the command struct. -/
structure Parameter where
  argument : Argument
  offset : Nat

/-- Unpack and translate the arguments. -/
def convertArguments (parameters : List Parameter) (block : Bytes) (c : Conversion) :
    Option (List Val × Conversion) :=
  forIndexed (fun _ p c => p.argument.convertInput block p.offset c) 0 parameters c

/-- What a native function leaves in its local buffers: for its arguments, the number of a local
buffer and an offset in it, the byte that is there after the call. -/
abbrev Native := List Val → Nat → Nat → UInt8

/-- The command after the native function wrote to the local buffers, the first of which has the
given number. -/
def callNative (effect : Nat → Nat → UInt8) : Nat → List LocalBuffer → Bytes → Bytes
  | _, [], block => block
  | k, ⟨.transfer offset, size⟩ :: locals, block =>
    callNative effect (k + 1) locals (writeAt block offset ((List.range size).map (effect k)))
  | k, ⟨.allocated, _⟩ :: locals, block => callNative effect (k + 1) locals block

/-- `call_command_implementation`, up to `record_call_metadata`: the offset of the call record and
the log. -/
def callCommandImplementation (parameters : List Parameter) (native : Native) (log : Log)
    (cmd : Bytes) (pool : HandlePool) : Option (Nat × Log) :=
  (convertArguments parameters cmd ⟨pool, []⟩).map fun r =>
    log.transferCommand (callNative (native r.1) 0 r.2.locals cmd)

section

variable (block : Bytes)

mutual

/-- A buffer that the native function shares with the command, and that has bytes, is reached from
the value at a type. -/
def Ty.SharesBytes : Ty → Option Ty → Path → Bytes → Prop
  | .scalar _, _, _, _ => False
  | .handle _, _, _, _ => False
  | .buffer annotations pointee, originalType, path, bytes =>
    let param := leNat bytes
    let size := getBufferSize block annotations pointee originalType path param
    param ≠ 0 ∧
      if pointee.isBlob false then
        annotations.lifetime = .call ∧ annotations.allocator = .malloc ∧ 0 < size * pointee.sizeof
      else ∃ i < size, pointee.SharesBytes none (i :: path)
        (slice block (param + i * pointee.sizeof) pointee.sizeof)
  | .struct fields, _, path, bytes => fields.ShareBytes path bytes
  | .conditional predicate thenType elseType originalType, _, path, bytes =>
    if predicate path then thenType.SharesBytes (some originalType) path bytes
    else elseType.SharesBytes (some originalType) path bytes

def Fields.ShareBytes : Fields → Path → Bytes → Prop
  | .nil, _, _ => False
  | .cons field rest, path, bytes =>
    field.SharesBytes none path (bytes.take field.sizeof) ∨
      rest.ShareBytes path (bytes.drop field.sizeof)

end

end

/-- The native function can write to the received command through this parameter. -/
def Parameter.SharesBytes (p : Parameter) (block : Bytes) : Prop :=
  p.argument.input = true ∧ p.argument.type.SharesBytes block (some p.argument.type) []
    (slice block p.offset p.argument.type.sizeof)

/-! ## Where local buffers lie -/

/-- A local buffer of a command of the given length that lies in the command lies within it. -/
def LocalBuffer.InBounds (length : Nat) (b : LocalBuffer) : Prop :=
  ∀ offset, b.location = .transfer offset → offset + b.size ≤ length

/-- The native function can change the command through the local buffer. -/
def LocalBuffer.Shared (b : LocalBuffer) : Prop :=
  ∃ offset, b.location = .transfer offset ∧ 0 < b.size

theorem LocalBuffer.not_shared_allocated (size : Nat) :
    ¬ LocalBuffer.Shared ⟨.allocated, size⟩ := by
  rintro ⟨offset, hloc, -⟩
  cases hloc

/-- What is known of the local buffers of a conversion: all of them are within the command. -/
def Conversion.InBounds (length : Nat) (c : Conversion) : Prop :=
  ∀ b ∈ c.locals, b.InBounds length

/-- Some local buffer is shared. -/
def Conversion.Shared (c : Conversion) : Prop := ∃ b ∈ c.locals, b.Shared

namespace Conversion

variable {c : Conversion} {b : LocalBuffer} {length : Nat}

theorem inBounds_addLocal (hc : c.InBounds length) (hb : b.InBounds length) :
    (c.addLocal b).InBounds length := by
  intro q hq
  rcases List.mem_append.1 hq with hq | hq
  · exact hc q hq
  · rwa [List.mem_singleton.1 hq]

theorem inBounds_allocated (hc : c.InBounds length) (size : Nat) :
    (c.addLocal ⟨.allocated, size⟩).InBounds length := by
  refine inBounds_addLocal hc ?_
  rintro offset hloc
  cases hloc

theorem shared_addLocal : (c.addLocal b).Shared ↔ c.Shared ∨ b.Shared := by
  simp only [Shared, addLocal, List.mem_append, List.mem_singleton, or_and_right, exists_or,
    exists_eq_left]

theorem shared_allocated (size : Nat) : (c.addLocal ⟨.allocated, size⟩).Shared ↔ c.Shared := by
  rw [shared_addLocal]
  exact or_iff_left (LocalBuffer.not_shared_allocated size)

end Conversion

/-- The local buffer of a simple buffer is shared if it is the transfer buffer and has bytes. -/
theorem shared_simpleLocation {annotations : BufferAnnotations} {param size : Nat} :
    LocalBuffer.Shared ⟨simpleLocation annotations param, size⟩ ↔
      annotations.lifetime = .call ∧ annotations.allocator = .malloc ∧ 0 < size := by
  rw [LocalBuffer.Shared, simpleLocation, ← and_assoc]
  split_ifs with hshared
  · simp [hshared]
  · simp [hshared]

section

variable {input : Bool} {block : Bytes}

mutual

/-- The local buffers of a value are within the command, and one of them is shared exactly if the
value shares bytes with the command. -/
theorem locals_convertInputValue :
    ∀ (ty : Ty) {originalType : Option Ty} {path : Path} {bytes : Bytes} {c c' : Conversion}
      {v : Val}, convertInputValue input block ty originalType path bytes c = some (v, c') →
      (c.InBounds block.length → c'.InBounds block.length) ∧
        (c'.Shared ↔ c.Shared ∨ input = true ∧ ty.SharesBytes block originalType path bytes)
  | .scalar _, _, _, _, _, _, _, h => by
    rw [convertInputValue] at h
    cases h
    simp [Ty.SharesBytes]
  | .handle _, _, _, _, _, _, _, h => by
    rw [convertInputValue] at h
    obtain ⟨r, -, h⟩ := Option.map_eq_some_iff.1 h
    cases h
    simp [Ty.SharesBytes, Conversion.InBounds, Conversion.Shared]
  | .buffer annotations pointee, _, path, bytes, _, _, _, h => by
    rw [convertInputValue] at h
    rw [Ty.SharesBytes]
    dsimp only at h ⊢
    -- the cases of the emitted code: `NULL`, simple, complex, and not an input
    split_ifs at h with hnull hinput hblob
    · cases h
      simp [hnull]
    · -- a simple buffer: its local buffer is where `simpleLocation` says
      obtain ⟨src, hsrc, h⟩ := Option.bind_eq_some_iff.1 h
      cases h
      refine ⟨fun hc => Conversion.inBounds_addLocal hc ?_, ?_⟩
      · intro offset hloc
        rw [simpleLocation] at hloc
        split_ifs at hloc
        cases hloc
        exact (readAt_eq_some hsrc).1
      · rw [Conversion.shared_addLocal, shared_simpleLocation, if_pos hblob]
        simp [hinput, hnull]
    · -- a complex buffer is allocated, and its elements may be shared
      obtain ⟨src, hsrc, h⟩ := Option.bind_eq_some_iff.1 h
      obtain ⟨-, rfl⟩ := readAt_eq_some hsrc
      obtain ⟨⟨vs, c₁⟩, hloop, h⟩ := Option.map_eq_some_iff.1 h
      cases h
      constructor
      · intro hc
        exact forIndexed_invariant
          (fun c c' => c.InBounds block.length → c'.InBounds block.length)
          (fun _ => id) (fun h h' => h' ∘ h)
          (fun _ hstep => (locals_convertInputValue pointee hstep).1) hloop
          (Conversion.inBounds_allocated hc _)
      · have hiff := forIndexed_iff_or (P := Conversion.Shared)
          (Q := fun i e => input = true ∧ pointee.SharesBytes block none (i :: path) e)
          (fun _ hstep => (locals_convertInputValue pointee hstep).2) hloop
        rw [hiff, Conversion.shared_allocated, if_neg hblob]
        refine or_congr_right ⟨?_, ?_⟩
        · -- element `i` of the source is a slice of the block
          rintro ⟨i, e, he, -, hshares⟩
          obtain ⟨hi, rfl⟩ := getElem?_chunks.1 he
          rw [Nat.zero_add, slice_slice (by nlinarith)] at hshares
          exact ⟨hinput, hnull, i, hi, hshares⟩
        · rintro ⟨-, -, i, hi, hshares⟩
          refine ⟨i, _, getElem?_chunks.2 ⟨hi, rfl⟩, hinput, ?_⟩
          rwa [Nat.zero_add, slice_slice (by nlinarith)]
    · cases h
      refine ⟨fun hc => Conversion.inBounds_allocated hc _, ?_⟩
      rw [Conversion.shared_allocated]
      simp [hinput]
  | .struct fields, _, _, _, _, _, _, h => by
    rw [convertInputValue] at h
    obtain ⟨⟨vs, c₁⟩, hfields, h⟩ := Option.map_eq_some_iff.1 h
    cases h
    rw [Ty.SharesBytes]
    exact locals_convertInputFields fields hfields
  | .conditional _ thenType elseType _, _, _, _, _, _, _, h => by
    rw [convertInputValue] at h
    rw [Ty.SharesBytes]
    split_ifs at h ⊢
    · exact locals_convertInputValue thenType h
    · exact locals_convertInputValue elseType h

theorem locals_convertInputFields :
    ∀ (fields : Fields) {path : Path} {bytes : Bytes} {c c' : Conversion} {vs : List Val},
      convertInputFields input block fields path bytes c = some (vs, c') →
      (c.InBounds block.length → c'.InBounds block.length) ∧
        (c'.Shared ↔ c.Shared ∨ input = true ∧ fields.ShareBytes block path bytes)
  | .nil, _, _, _, _, _, h => by
    rw [convertInputFields] at h
    cases h
    simp [Fields.ShareBytes]
  | .cons field rest, _, _, _, _, _, h => by
    rw [convertInputFields, Option.bind_eq_some_iff] at h
    obtain ⟨⟨v, c₁⟩, hfield, h⟩ := h
    obtain ⟨⟨vs, c₂⟩, hrest, h⟩ := Option.map_eq_some_iff.1 h
    cases h
    obtain ⟨hbounds, hshared⟩ := locals_convertInputValue field hfield
    obtain ⟨hbounds', hshared'⟩ := locals_convertInputFields rest hrest
    refine ⟨fun hc => hbounds' (hbounds hc), ?_⟩
    rw [hshared', hshared, Fields.ShareBytes, or_assoc, and_or_left]

end

end

/-- The local buffers of a call. -/
theorem locals_convertArguments {parameters : List Parameter} {block : Bytes} {pool : HandlePool}
    {vs : List Val} {c : Conversion}
    (h : convertArguments parameters block ⟨pool, []⟩ = some (vs, c)) :
    c.InBounds block.length ∧ (c.Shared ↔ ∃ p ∈ parameters, p.SharesBytes block) := by
  constructor
  · refine forIndexed_invariant (fun c c' => c.InBounds block.length → c'.InBounds block.length)
      (fun _ => id) (fun h h' => h' ∘ h) (fun {_ p _ _ _} _ hstep => ?_) h ?_
    · exact (locals_convertInputValue p.argument.type hstep).1
    · exact fun b hb => absurd hb List.not_mem_nil
  · have hiff := forIndexed_iff_or (P := Conversion.Shared)
      (Q := fun _ (p : Parameter) => p.SharesBytes block)
      (fun {_ p _ _ _} _ hstep => (locals_convertInputValue p.argument.type hstep).2) h
    have hnone : ¬ Conversion.Shared ⟨pool, []⟩ := by
      rintro ⟨b, hb, -⟩
      exact absurd hb List.not_mem_nil
    rw [hiff, or_iff_right hnone]
    constructor
    · rintro ⟨k, p, hp, hshares⟩
      exact ⟨p, List.mem_of_getElem? hp, hshares⟩
    · rintro ⟨p, hp, hshares⟩
      obtain ⟨k, hk⟩ := List.mem_iff_getElem?.1 hp
      exact ⟨k, p, hk, hshares⟩

/-! ## What the native function can change -/

section

variable {effect : Nat → Nat → UInt8} {k : Nat} {locals : List LocalBuffer} {block : Bytes}

variable {offset size : Nat}

theorem length_write (data : Nat → UInt8) (h : offset + size ≤ block.length) :
    (writeAt block offset ((List.range size).map data)).length = block.length :=
  length_writeAt (by simpa using h)

/-- What is written to a local buffer in the command is found there. -/
theorem getElem?_write (data : Nat → UInt8) (h : offset + size ≤ block.length) (i : Nat) :
    (writeAt block offset ((List.range size).map data))[i]? =
      if offset ≤ i ∧ i < offset + size then some (data (i - offset)) else block[i]? := by
  rw [getElem?_writeAt (by simpa using h), List.length_map, List.length_range]
  split_ifs with hi
  · rw [List.getElem?_map, List.getElem?_range (by omega), Option.map_some]
  · rfl

/-- The frame: writes to other memory leave the command as it is. -/
theorem callNative_of_not_shared (h : ∀ b ∈ locals, ¬ b.Shared) :
    callNative effect k locals block = block := by
  induction locals generalizing k with
  | nil => rw [callNative]
  | cons b locals ih =>
    obtain ⟨location, size⟩ := b
    obtain ⟨hb, hlocals⟩ := List.forall_mem_cons.1 h
    cases location with
    | allocated => rw [callNative, ih hlocals]
    | transfer offset =>
      -- a buffer of no bytes in the command is not written to
      have hsize : size = 0 := Nat.eq_zero_of_not_pos fun hpos => hb ⟨offset, rfl, hpos⟩
      rw [callNative, hsize, List.range_zero, List.map_nil, writeAt_nil, ih hlocals]

/-- What every write inside the command preserves is preserved by the call. -/
theorem callNative_invariant (P : Bytes → Prop)
    (hwrite : ∀ (k : Nat) {offset size : Nat} {cmd : Bytes}, offset + size ≤ cmd.length → P cmd →
      P (writeAt cmd offset ((List.range size).map (effect k))))
    (h : ∀ b ∈ locals, b.InBounds block.length) (hP : P block) :
    P (callNative effect k locals block) := by
  induction locals generalizing k block with
  | nil =>
    rw [callNative]
    exact hP
  | cons b locals ih =>
    obtain ⟨location, size⟩ := b
    obtain ⟨hb, hlocals⟩ := List.forall_mem_cons.1 h
    cases location with
    | allocated =>
      rw [callNative]
      exact ih hlocals hP
    | transfer offset =>
      have hle : offset + size ≤ block.length := hb offset rfl
      rw [callNative]
      exact ih (by rwa [length_write _ hle]) (hwrite k hle hP)

theorem length_callNative (h : ∀ b ∈ locals, b.InBounds block.length) :
    (callNative effect k locals block).length = block.length :=
  callNative_invariant (fun cmd => cmd.length = block.length)
    (fun k _ _ _ hle hcmd => (length_write (effect k) hle).trans hcmd) h rfl

/-- A function that fills its buffers with one byte leaves it at the start of every buffer that lies
in the command, whichever other buffers overlap it. -/
theorem callNative_fill {x : UInt8} (h : ∀ b ∈ locals, b.InBounds block.length)
    (hb : ⟨.transfer offset, size⟩ ∈ locals) (hsize : 0 < size) :
    (callNative (fun _ _ => x) k locals block)[offset]? = some x := by
  -- later writes put the same byte there or do not reach it
  have hkeep : ∀ (o : Nat) {n : Nat} {cmd : Bytes}, o + n ≤ cmd.length → cmd[offset]? = some x →
      (writeAt cmd o ((List.range n).map fun _ => x))[offset]? = some x := by
    intro o n cmd hle hcmd
    rw [getElem?_write _ hle, hcmd, ite_self]
  induction locals generalizing k block with
  | nil => exact absurd hb List.not_mem_nil
  | cons q locals ih =>
    obtain ⟨hq, hlocals⟩ := List.forall_mem_cons.1 h
    rcases List.mem_cons.1 hb with rfl | hmem
    · have hle : offset + size ≤ block.length := hq offset rfl
      rw [callNative]
      refine callNative_invariant (fun cmd => cmd[offset]? = some x)
        (fun _ o _ _ => hkeep o) (by rwa [length_write _ hle]) ?_
      rw [getElem?_write _ hle, if_pos ⟨le_rfl, Nat.lt_add_of_pos_right hsize⟩]
    · obtain ⟨location, n⟩ := q
      cases location with
      | allocated =>
        rw [callNative]
        exact ih hlocals hmem
      | transfer o =>
        have hle : o + n ≤ block.length := hq o rfl
        rw [callNative]
        exact ih (by rwa [length_write _ hle]) hmem

end

/-! ## The record -/

/-- Commands of one length with one record are the same. -/
theorem eq_of_transferCommand_eq {log : Log} {c : Command} {cmd : Bytes}
    (hlen : cmd.length = c.bytes.length)
    (h : log.transferCommand cmd = log.transferCommand c.bytes) : cmd = c.bytes := by
  have hfile := congrArg (fun r => r.2.file) h
  have hparts := c.struct_append_region
  rw [Command.struct, Command.region] at hparts
  simp only [Log.transferCommand, List.append_assoc, List.append_cancel_left_eq, hparts] at hfile
  -- the metadata has a fixed length, so behind it the two commands are the same
  obtain ⟨-, hcmd⟩ := List.append_inj hfile (by simp)
  have htake : cmd.take (commandSize cmd + regionSize cmd) = c.bytes := by
    rw [List.take_add, ← hcmd, slice, slice, List.drop_zero]
  have hle : cmd.length ≤ commandSize cmd + regionSize cmd := by
    have hl := congrArg List.length htake
    rw [List.length_take] at hl
    omega
  rwa [List.take_of_length_le hle] at htake

section

variable {parameters : List Parameter} {log : Log} {c : Command} {pool : HandlePool}

/-- The record of a call of which no argument shares bytes with the command. -/
theorem callRecord_of_not_sharesBytes (hshares : ∀ p ∈ parameters, ¬ p.SharesBytes c.bytes)
    {native : Native} {r : Nat × Log}
    (h : callCommandImplementation parameters native log c.bytes pool = some r) :
    r = log.transferCommand c.bytes := by
  obtain ⟨⟨vs, conv⟩, hconv, rfl⟩ := Option.map_eq_some_iff.1 h
  have hnot : ¬ conv.Shared := by
    rw [(locals_convertArguments hconv).2]
    rintro ⟨p, hp, hp'⟩
    exact hshares p hp hp'
  rw [callNative_of_not_shared fun b hb hb' => hnot ⟨b, hb, hb'⟩]

/-- The record of a call that is handled is the received command, whatever the native function
writes, exactly if no argument shares bytes with the command. -/
theorem callRecord_eq_received_iff
    (hhandled : (convertArguments parameters c.bytes ⟨pool, []⟩).isSome = true) :
    (∀ native r, callCommandImplementation parameters native log c.bytes pool = some r →
        r = log.transferCommand c.bytes) ↔
      ∀ p ∈ parameters, ¬ p.SharesBytes c.bytes := by
  refine ⟨fun hall p hp hshares => ?_, fun hshares _ _ h => callRecord_of_not_sharesBytes hshares h⟩
  obtain ⟨⟨vs, conv⟩, hconv⟩ := Option.isSome_iff_exists.1 hhandled
  obtain ⟨hbounds, hshared⟩ := locals_convertArguments hconv
  obtain ⟨⟨location, size⟩, hb, offset, hloc, hsize⟩ := hshared.2 ⟨p, hp, hshares⟩
  cases hloc
  have hlt : offset < c.bytes.length :=
    lt_of_lt_of_le (Nat.lt_add_of_pos_right hsize) (hbounds _ hb offset rfl)
  -- a function that writes another byte there
  have hrecord := hall (fun _ _ _ => c.bytes[offset] + 1) _ (by
    rw [callCommandImplementation, hconv, Option.map_some])
  have hcmd := eq_of_transferCommand_eq (length_callNative hbounds) hrecord
  have hfill := callNative_fill (k := 0) (x := c.bytes[offset] + 1) hbounds hb hsize
  rw [hcmd, List.getElem?_eq_getElem hlt, Option.some.injEq] at hfill
  simp at hfill

end

/-- An array of one handle that is read, and a buffer of four bytes that is only written. Their
fields in the struct of the call follow the base and `__call_id`. -/
def handlesAndOutput : List Parameter :=
  [⟨⟨.buffer ⟨fun _ => 1, .call, .malloc, "handle_t"⟩ (.handle false), true⟩, 144⟩,
    ⟨⟨.buffer ⟨fun _ => 4, .call, .malloc, "char"⟩ (.scalar 1), false⟩, 152⟩]

/-- A call with the id 3 and a `NULL` handle. -/
def handlesCall : Command :=
  .ofBase { CommandBase.new 160 8 (List.replicate 64 0) rfl with apiId := 1, commandId := 2 }
    (leBytes 8 3 ++ leBytes 8 160 ++ leBytes 8 hasOutBufferSentinel) (leBytes 8 0) rfl rfl
    (Nat.le_of_ble_eq_true rfl)

set_option maxRecDepth 8000 in
/-- The output goes to a buffer that was allocated for it. -/
theorem callRecord_eq_received_of_handles :
    callCommandImplementation handlesAndOutput (fun _ _ _ => 9) Log.new handlesCall.bytes
      HandlePool.new = some (Log.new.transferCommand handlesCall.bytes) := by
  have hhandled : (convertArguments handlesAndOutput handlesCall.bytes
      ⟨HandlePool.new, []⟩).isSome = true := rfl
  have hshares : ∀ p ∈ handlesAndOutput, ¬ p.SharesBytes handlesCall.bytes := by
    simp [handlesAndOutput, Parameter.SharesBytes, Ty.SharesBytes, Ty.isBlob]
  obtain ⟨r, hr⟩ : ∃ r, callCommandImplementation handlesAndOutput (fun _ _ _ => 9) Log.new
      handlesCall.bytes HandlePool.new = some r := ⟨_, rfl⟩
  rw [hr, (callRecord_eq_received_iff hhandled).2 hshares _ r hr]

/-- A buffer of one byte that is read and written. -/
def inOutParameters : List Parameter :=
  [⟨⟨.buffer ⟨fun _ => 1, .call, .malloc, "char"⟩ (.scalar 1), true⟩, 144⟩]

/-- A call with the id 3 and the byte 5. -/
def inOutCall : Command :=
  .ofBase { CommandBase.new 152 1 (List.replicate 64 0) rfl with apiId := 1, commandId := 2 }
    (leBytes 8 3 ++ leBytes 8 152) [5] rfl rfl (Nat.le_of_ble_eq_true rfl)

set_option maxRecDepth 8000 in
/-- The native function gets 5 and returns 9 in the same buffer. The record of the call has the 9,
and a replay passes it to the function. -/
theorem callRecord_has_output :
    (convertArguments inOutParameters inOutCall.bytes ⟨HandlePool.new, []⟩).map Prod.fst =
        some [.buffer [.scalar [5]]] ∧
      ∃ record, ((callCommandImplementation inOutParameters (fun _ _ _ => 9) Log.new inOutCall.bytes
          HandlePool.new).bind fun r => (r.2.loadCommand (some r.1)).map fun q => q.2.1) =
            some record ∧ record ≠ inOutCall.bytes ∧
        (convertArguments inOutParameters record ⟨HandlePool.new, []⟩).map Prod.fst =
          some [.buffer [.scalar [9]]] := by
  refine ⟨rfl, inOutCall.bytes.take 152 ++ [9], rfl, by decide, rfl⟩

end Ava.Generator
