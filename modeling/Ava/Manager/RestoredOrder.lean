import Ava.Lib.Rows
import Ava.Manager.Service
import Mathlib.Data.List.Sort
import Mathlib.Data.Multiset.Basic

/-!
# The order of the assigned GPUs

A request lists memory sizes; GPUs are assigned to the sizes in decreasing order. Before the server
is started, `DoAssignWorker` puts the uuids back into the order of the request: every uuid goes to
the first place of its size whose uuid is still empty.

The pairs of uuid and size at all places are counted. A uuid that is placed replaces the empty uuid
in one pair, so as long as sizes are left there is a free place for each of them
(`place_all`), and in the end the pairs are those that were reserved.
-/

set_option autoImplicit false

namespace Ava.Manager

open Ava.Lib

theorem zip_replicate_length {α β : Type} (a : α) (m : List β) :
    (List.replicate m.length a).zip m = m.map fun b => (a, b) := by
  induction m with
  | nil => rfl
  | cons b m ih => rw [List.length_cons, List.replicate_succ, List.zip_cons_cons, ih, List.map_cons]

/-! ## Free places -/

variable {gpuMem : List UInt64} {restored : List String} {size : UInt64}

theorem freePlace_eq_some (hlen : restored.length = gpuMem.length) {j : Nat}
    (h : freePlace gpuMem restored size = some j) :
    gpuMem[j]? = some size ∧ restored[j]? = some "" := by
  have hj := List.mem_range.1 (List.mem_of_find?_eq_some h)
  have hp := List.find?_some h
  rw [List.getD_eq_getElem?_getD, List.getD_eq_getElem?_getD, List.getElem?_eq_getElem hj,
    List.getElem?_eq_getElem (hlen ▸ hj), Option.getD_some, Option.getD_some, Bool.and_eq_true,
    beq_iff_eq, String.isEmpty_iff] at hp
  rw [List.getElem?_eq_getElem hj, List.getElem?_eq_getElem (hlen ▸ hj), hp.1, hp.2]
  exact ⟨rfl, rfl⟩

theorem freePlace_of_mem (hlen : restored.length = gpuMem.length)
    (h : ("", size) ∈ restored.zip gpuMem) : ∃ j, freePlace gpuMem restored size = some j := by
  rw [← Option.isSome_iff_exists, freePlace, List.find?_isSome]
  obtain ⟨j, hj, heq⟩ := List.mem_iff_getElem.1 h
  rw [List.getElem_zip] at heq
  rw [List.length_zip, hlen, Nat.min_self] at hj
  obtain ⟨hempty, hsize⟩ := Prod.mk.inj heq
  refine ⟨j, List.mem_range.2 hj, ?_⟩
  rw [List.getD_eq_getElem?_getD, List.getD_eq_getElem?_getD, List.getElem?_eq_getElem hj,
    List.getElem?_eq_getElem (hlen ▸ hj), Option.getD_some, Option.getD_some, hsize, hempty]
  simp

/-! ## Placing uuids -/

variable {g : GpuList}

theorem length_placeUuid (a : Nat × UInt64) :
    (placeUuid g gpuMem restored a).length = restored.length := by
  rw [placeUuid]
  cases freePlace gpuMem restored a.2 with
  | none => rfl
  | some j => exact List.length_set

theorem length_foldl_placeUuid (assigned : Reservations) :
    (assigned.foldl (placeUuid g gpuMem) restored).length = restored.length := by
  induction assigned generalizing restored with
  | nil => rfl
  | cons a assigned ih => rw [List.foldl_cons, ih, length_placeUuid]

theorem length_restoredUuid (assigned : Reservations) :
    (restoredUuid g gpuMem assigned).length = gpuMem.length := by
  rw [restoredUuid, length_foldl_placeUuid, List.length_replicate]

/-- A uuid replaces the empty uuid in one of the pairs. -/
theorem placeUuid_perm (hlen : restored.length = gpuMem.length) {a : Nat × UInt64}
    (h : ("", a.2) ∈ restored.zip gpuMem) :
    (("", a.2) :: (placeUuid g gpuMem restored a).zip gpuMem).Perm
      (((g.entry a.1).uuid, a.2) :: restored.zip gpuMem) := by
  obtain ⟨j, hj⟩ := freePlace_of_mem hlen h
  obtain ⟨hsize, hempty⟩ := freePlace_eq_some hlen hj
  rw [placeUuid, hj]
  dsimp only
  rw [zip_set _ hsize]
  refine cons_set_perm _ ?_
  rw [List.getElem?_zip_eq_some]
  exact ⟨hempty, hsize⟩

/-- The pairs that are reserved. -/
def reservedPairs (g : GpuList) (assigned : Reservations) : List (String × UInt64) :=
  assigned.map fun a => ((g.entry a.1).uuid, a.2)

/-- As long as the free places are those of the sizes that are left, every size finds one. -/
theorem place_all (assigned : Reservations) {others : List (String × UInt64)}
    (hlen : restored.length = gpuMem.length)
    (h : (restored.zip gpuMem).Perm ((assigned.map fun a => ("", a.2)) ++ others)) :
    ((assigned.foldl (placeUuid g gpuMem) restored).zip gpuMem).Perm
      (reservedPairs g assigned ++ others) := by
  induction assigned generalizing restored others with
  | nil => exact h
  | cons a assigned ih =>
    have hfree : ("", a.2) ∈ restored.zip gpuMem := h.mem_iff.2 (List.mem_cons_self ..)
    have hplaced := placeUuid_perm (g := g) hlen hfree
    -- the pair moves from the free ones to the others
    have hnext : ((placeUuid g gpuMem restored a).zip gpuMem).Perm
        ((assigned.map fun a => ("", a.2)) ++ ((g.entry a.1).uuid, a.2) :: others) := by
      refine List.Perm.cons_inv (a := ("", a.2)) (hplaced.trans ((h.cons _).trans ?_))
      exact (List.Perm.swap _ _ _).trans (List.perm_middle.symm.cons _)
    exact (ih ((length_placeUuid a).trans hlen) hnext).trans List.perm_middle

/-- Restoring the order matches the reserved uuids with the sizes of the request. -/
theorem perm_restoredUuid {assigned : Reservations}
    (hsizes : assigned.map Prod.snd = sortedSizes gpuMem) :
    ((restoredUuid g gpuMem assigned).zip gpuMem).Perm (reservedPairs g assigned) := by
  have hfree : ((List.replicate gpuMem.length "").zip gpuMem).Perm
      ((assigned.map fun a => ("", a.2)) ++ []) := by
    have hall : (assigned.map fun a => ("", a.2)) =
        (sortedSizes gpuMem).map fun size => ("", size) := by
      rw [← hsizes, List.map_map]
      rfl
    rw [List.append_nil, hall, zip_replicate_length]
    exact ((List.perm_insertionSort _ gpuMem).symm).map _
  have hplaced := place_all (g := g) assigned List.length_replicate hfree
  rwa [List.append_nil, ← restoredUuid] at hplaced

/-- Only uuids of assigned GPUs are in the restored order, the empty one included. -/
theorem mem_restoredUuid {assigned : Reservations}
    (hsizes : assigned.map Prod.snd = sortedSizes gpuMem) {uuid : String}
    (h : uuid ∈ restoredUuid g gpuMem assigned) : ∃ a ∈ assigned, (g.entry a.1).uuid = uuid := by
  obtain ⟨j, hj, heq⟩ := List.mem_iff_getElem.1 h
  have hj' : j < gpuMem.length := length_restoredUuid (g := g) assigned ▸ hj
  have hpair : (uuid, gpuMem[j]) ∈ (restoredUuid g gpuMem assigned).zip gpuMem := by
    refine List.mem_iff_getElem.2 ⟨j, ?_, ?_⟩
    · rw [List.length_zip]
      exact Nat.lt_min.2 ⟨hj, hj'⟩
    · rw [List.getElem_zip, heq]
  obtain ⟨a, ha, hpair⟩ := List.mem_map.1 ((perm_restoredUuid hsizes).mem_iff.1 hpair)
  exact ⟨a, ha, (Prod.mk.inj hpair).1⟩

/-- For every request, whatever GPUs have been assigned to its sizes in decreasing order: every
place gets a uuid, and the pairs of uuid and size are those that were reserved. -/
theorem restored_order_matching (g : GpuList) (gpuMem : List UInt64) (assigned : Reservations)
    (hsizes : assigned.map Prod.snd = sortedSizes gpuMem)
    (huuid : ∀ a ∈ assigned, (g.entry a.1).uuid ≠ "") :
    (restoredUuid g gpuMem assigned).length = gpuMem.length ∧
      "" ∉ restoredUuid g gpuMem assigned ∧
      (((restoredUuid g gpuMem assigned).zip gpuMem : List (String × UInt64)) :
          Multiset (String × UInt64)) =
        (assigned.map fun a => ((g.entry a.1).uuid, a.2) : List (String × UInt64)) := by
  refine ⟨length_restoredUuid assigned, fun hempty => ?_,
    Multiset.coe_eq_coe.2 (perm_restoredUuid hsizes)⟩
  obtain ⟨a, ha, heq⟩ := mem_restoredUuid hsizes hempty
  exact huuid a ha heq

/-- Two places of the same size, on two GPUs and on one of them again. -/
def threeOnTwo : GpuList where
  entry k := ⟨if k = 0 then "GPU-a" else "GPU-b", 0, [], 0, 0⟩
  gpuList := [0, 1]

theorem restored_order_matching_three :
    restoredUuid threeOnTwo [10, 30, 10] [(1, 30), (0, 10), (1, 10)] =
        ["GPU-a", "GPU-b", "GPU-b"] ∧
      "" ∉ restoredUuid threeOnTwo [10, 30, 10] [(1, 30), (0, 10), (1, 10)] :=
  ⟨by decide, (restored_order_matching threeOnTwo [10, 30, 10] [(1, 30), (0, 10), (1, 10)]
    (by decide) (by decide)).2.1⟩

end Ava.Manager
