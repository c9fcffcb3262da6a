import Ava.Channel.Log
import Ava.Endpoint.HandlePool

/-!
# Metadata of objects and recording

`nw_global_metadata_map` keeps, for every native object, the offsets of the calls that were recorded
for it, the objects it depends on, and whether it has functions to extract and replace explicit
state. `NULL` stands for calls that are recorded globally.
-/

set_option autoImplicit false

namespace Ava.Endpoint

open Ava.Lib Ava.Channel

/-- `struct ava_offset_pair_t`: where a call and its return are in the log. -/
structure OffsetPair where
  a : Nat
  b : Nat
deriving DecidableEq

/-- `struct ava_metadata_base`. The function pointers are only tested for `NULL` here. -/
structure Metadata where
  recordedCalls : List OffsetPair
  dependencies : List Ptr
  extract : Bool
  replace : Bool
deriving DecidableEq

/-- `nw_global_metadata_map`. -/
abbrev MetadataMap := HashTable Ptr Metadata

namespace MetadataMap

variable (m : MetadataMap) (ptr : Ptr)

/-- `ava_internal_metadata_unlocked`: the metadata of `ptr`, all zero if there was none. -/
def metadata : Metadata := (m.lookup ptr).getD ⟨[], [], false, false⟩

/-- The recorded calls of an object. -/
def calls : List OffsetPair := (metadata m ptr).recordedCalls

/-- The objects an object depends on. -/
def deps : List Ptr := (metadata m ptr).dependencies

/-- `ava_add_recorded_call`. -/
def addRecordedCall (pair : OffsetPair) : MetadataMap :=
  m.insert ptr { metadata m ptr with recordedCalls := calls m ptr ++ [pair] }

/-- `ava_add_dependency`. -/
def addDependency (b : Ptr) : MetadataMap :=
  m.insert ptr { metadata m ptr with dependencies := deps m ptr ++ [b] }

/-- `ava_assign_record_replay_functions`. -/
def assignRecordReplayFunctions (extract replace : Bool) : MetadataMap :=
  m.insert ptr { metadata m ptr with extract := extract, replace := replace }

/-- The map after `ava_internal_metadata_unlocked`, which creates a missing entry. -/
def touch : MetadataMap := if ptr ∈ m then m else m.insert ptr (metadata m ptr)

end MetadataMap

/-- `ava_expunge_recorded_calls`: both records of each call recorded for `handle` get the flags 1.
The list of the calls stays. -/
def expungeRecordedCalls (m : MetadataMap) (log : Log) (handle : Ptr) : MetadataMap × Log :=
  (m.touch handle,
    (m.calls handle).foldl (fun log pair => (log.updateFlags pair.a 1).updateFlags pair.b 1) log)

namespace MetadataMap

variable (m : MetadataMap) (ptr x : Ptr)

theorem metadata_insert (md : Metadata) :
    metadata (m.insert ptr md) x = if x = ptr then md else metadata m x := by
  rw [metadata, HashTable.lookup_insert_eq]
  split_ifs <;> rfl

@[simp] theorem metadata_touch : metadata (m.touch ptr) x = metadata m x := by
  rw [touch]
  split_ifs
  · rfl
  · rw [metadata_insert]
    split_ifs with h
    · rw [h]
    · rfl

@[simp] theorem calls_touch : calls (m.touch ptr) x = calls m x :=
  congrArg Metadata.recordedCalls (metadata_touch m ptr x)

theorem calls_addRecordedCall (pair : OffsetPair) :
    calls (m.addRecordedCall ptr pair) x =
      if x = ptr then calls m ptr ++ [pair] else calls m x := by
  rw [calls, addRecordedCall, metadata_insert]
  split_ifs <;> rfl

@[simp] theorem calls_addDependency (b : Ptr) : calls (m.addDependency ptr b) x = calls m x := by
  rw [calls, addDependency, metadata_insert]
  split_ifs with h
  · rw [h, calls]
  · rfl

@[simp] theorem calls_assignFunctions (extract replace : Bool) :
    calls (m.assignRecordReplayFunctions ptr extract replace) x = calls m x := by
  rw [calls, assignRecordReplayFunctions, metadata_insert]
  split_ifs with h
  · rw [h, calls]
  · rfl

/-- An object that is not a key of the map has neither calls nor dependencies. -/
theorem metadata_of_notMem {x : Ptr} (h : x ∉ m.keys) : metadata m x = ⟨[], [], false, false⟩ := by
  rw [metadata, AList.lookup_eq_none.2 h]
  rfl

theorem mem_keys_of_deps {x : Ptr} (h : deps m x ≠ []) : x ∈ m.keys := by
  by_contra hx
  exact h (congrArg Metadata.dependencies (metadata_of_notMem m hx))

theorem mem_keys_of_calls {x : Ptr} {p : OffsetPair} (h : p ∈ calls m x) : x ∈ m.keys := by
  by_contra hx
  rw [calls, metadata_of_notMem m hx] at h
  cases h

end MetadataMap

end Ava.Endpoint
