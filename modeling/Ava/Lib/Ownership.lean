import Mathlib.Data.Finset.Card
import Mathlib.Data.List.Perm.Basic

/-!
# Objects that a library creates, and the lists that hold them

A library creates and destroys objects and never has two live objects under one name; a name may
come back after its object was destroyed. `Tracks live l` says that the list `l` holds different
live objects, and `TracksAll live l` that it holds all of them. Both follow the rules of `Tracking`,
which say what becomes of a list when the library creates an object, when it destroys one, and when
objects only move from place to place in the list.
-/

set_option autoImplicit false

namespace Ava.Lib

universe u

variable {α : Type u} {live : Finset α} {l l' : List α}

/-- The members of the list are different objects, and alive. -/
structure Tracks (live : Finset α) (l : List α) : Prop where
  nodup : l.Nodup
  alive : ∀ d ∈ l, d ∈ live

/-- The members of the list are the live objects. -/
structure TracksAll (live : Finset α) (l : List α) : Prop extends Tracks live l where
  complete : ∀ d ∈ live, d ∈ l

theorem tracksAll_nil : TracksAll (∅ : Finset α) [] where
  nodup := List.nodup_nil
  alive := fun _ h => by cases h
  complete := fun _ h => by simp at h

/-- Objects that the list forgets stay alive. -/
theorem Tracks.of_append (h : Tracks live (l' ++ l)) : Tracks live l :=
  ⟨(List.nodup_append.1 h.nodup).2.1, fun d hd => h.alive d (List.mem_append_right _ hd)⟩

variable [DecidableEq α]

/-- The rules for a way of tracking objects. -/
structure Tracking (P : Finset α → List α → Prop) : Prop where
  alive : ∀ {live l}, P live l → ∀ d ∈ l, d ∈ live
  perm : ∀ {live l l'}, P live l → l.Perm l' → P live l'
  insert : ∀ {live l d}, P live l → d ∉ live → P (insert d live) (d :: l)
  erase : ∀ {live l d}, P live (d :: l) → P (live.erase d) l

theorem tracking_tracks : Tracking (@Tracks α) where
  alive := fun h => h.alive
  perm := fun h hl => ⟨hl.nodup h.nodup, fun d hd => h.alive d (hl.mem_iff.2 hd)⟩
  insert := by
    intro live l d h hd
    refine ⟨List.nodup_cons.2 ⟨fun hmem => hd (h.alive d hmem), h.nodup⟩, fun e he => ?_⟩
    rcases List.mem_cons.1 he with rfl | he
    · exact Finset.mem_insert_self ..
    · exact Finset.mem_insert_of_mem (h.alive e he)
  erase := by
    intro live l d h
    obtain ⟨hd, hl⟩ := List.nodup_cons.1 h.nodup
    refine ⟨hl, fun e he => Finset.mem_erase.2 ⟨?_, h.alive e (List.mem_cons_of_mem d he)⟩⟩
    rintro rfl
    exact hd he

theorem tracking_tracksAll : Tracking (@TracksAll α) where
  alive := fun h => h.alive
  perm := fun h hl =>
    ⟨tracking_tracks.perm h.toTracks hl, fun d hd => hl.mem_iff.1 (h.complete d hd)⟩
  insert := by
    intro live l d h hd
    refine ⟨tracking_tracks.insert h.toTracks hd, fun e he => ?_⟩
    rcases Finset.mem_insert.1 he with rfl | he
    · exact List.mem_cons_self
    · exact List.mem_cons_of_mem d (h.complete e he)
  erase := by
    intro live l d h
    refine ⟨tracking_tracks.erase h.toTracks, fun e he => ?_⟩
    obtain ⟨hne, he⟩ := Finset.mem_erase.1 he
    exact (List.mem_cons.1 (h.complete e he)).resolve_left hne

/-- As many objects are alive as the list has members. -/
theorem TracksAll.card (h : TracksAll live l) : live.card = l.length := by
  have heq : live = l.toFinset := by
    ext d
    rw [List.mem_toFinset]
    exact ⟨h.complete d, h.alive d⟩
  rw [heq, List.toFinset_card_of_nodup h.nodup]

end Ava.Lib
