import Ava.Lib.Family
import Ava.Manager.Service
import Mathlib.Algebra.GroupWithZero.Nat
import Mathlib.Data.UInt

/-!
# An assignment is all or nothing

`DoAssignWorker` takes memory for one size after the other, from a list that is sorted again after
each of them, and gives everything back where a node is too small or no server starts. The entries
change one at a time through their pointers, so what a loop does to a GPU is what the sizes that
were placed on it do, in their order (`updateAll_apply`); the order of the list does not matter.
-/

set_option autoImplicit false

namespace Ava.Manager

open Ava.Lib
open Function (update)

/-! ## The loops and one entry -/

/-- What a loop over reservations does to one entry. -/
theorem updateAll_sizesAt (change : GpuListEntry → UInt64 → GpuListEntry)
    (entry : Nat → GpuListEntry) (assigned : Reservations) (k : Nat) :
    updateAll Prod.fst (fun a e => change e a.2) entry assigned k =
      (sizesAt assigned k).foldl change (entry k) := by
  rw [updateAll_apply, sizesAt, List.foldl_map]

/-- The entries after some reservations. -/
def reserved (entry : Nat → GpuListEntry) (assigned : Reservations) : Nat → GpuListEntry :=
  updateAll Prod.fst (fun a e => e.reserveMemory a.2) entry assigned

theorem reserved_append (entry : Nat → GpuListEntry) (assigned : Reservations) (k : Nat)
    (size : UInt64) : reserved entry (assigned ++ [(k, size)]) =
      update (reserved entry assigned) k ((reserved entry assigned k).reserveMemory size) := by
  rw [reserved, updateAll, List.foldl_append]
  rfl

namespace GpuListEntry

theorem foldl_reserveMemory (sizes : List UInt64) (e : GpuListEntry) :
    sizes.foldl reserveMemory e = { e with
      freeMemory := e.freeMemory - sizes.sum
      workerCounter := e.workerCounter + sizes.length } := by
  induction sizes generalizing e with
  | nil => simp
  | cons size sizes ih =>
    rw [List.foldl_cons, ih, reserveMemory, List.sum_cons, List.length_cons]
    congr 1
    · grind
    · push_cast
      omega

theorem foldl_releaseMemory (sizes : List UInt64) (e : GpuListEntry) :
    sizes.foldl releaseMemory e = { e with
      freeMemory := e.freeMemory + sizes.sum
      workerCounter := e.workerCounter - sizes.length } := by
  induction sizes generalizing e with
  | nil => simp
  | cons size sizes ih =>
    rw [List.foldl_cons, ih, releaseMemory, List.sum_cons, List.length_cons]
    congr 1
    · grind
    · push_cast
      omega

theorem foldl_addBusyWorker (address : ServerAddress) (sizes : List UInt64) (e : GpuListEntry) :
    sizes.foldl (fun e size => e.addBusyWorker address size) e = { e with
      busyWorkers := e.busyWorkers ++ sizes.map fun size => ⟨address, size⟩ } := by
  induction sizes generalizing e with
  | nil => simp
  | cons size sizes ih =>
    rw [List.foldl_cons, ih, addBusyWorker, List.map_cons, List.append_assoc,
      List.singleton_append]

/-- Sizes that are released again have no effect. -/
theorem release_reserve (sizes : List UInt64) (e : GpuListEntry) :
    sizes.foldl releaseMemory (sizes.foldl reserveMemory e) = e := by
  rw [foldl_reserveMemory, foldl_releaseMemory]
  simp only [UInt64.sub_add_cancel, Int.add_sub_cancel]

end GpuListEntry

section Loops

variable (S : Sorter Nat)

theorem revokeAll_entry (assigned : Reservations) (g : GpuList) :
    (revokeAll S g assigned).entry =
      updateAll Prod.fst (fun a e => e.releaseMemory a.2) g.entry assigned := by
  induction assigned generalizing g with
  | nil => rfl
  | cons a assigned ih => exact ih _

theorem revokeAll_perm (assigned : Reservations) (g : GpuList) :
    (revokeAll S g assigned).gpuList.Perm g.gpuList := by
  induction assigned generalizing g with
  | nil => exact .refl _
  | cons a assigned ih => exact (ih _).trans (GpuList.perm_unlockedSort S _)

theorem addAll_entry (address : ServerAddress) (assigned : Reservations) (g : GpuList) :
    (addAll g address assigned).entry =
      updateAll Prod.fst (fun a e => e.addBusyWorker address a.2) g.entry assigned := by
  induction assigned generalizing g with
  | nil => rfl
  | cons a assigned ih => exact ih _

theorem addAll_gpuList (address : ServerAddress) (assigned : Reservations) (g : GpuList) :
    (addAll g address assigned).gpuList = g.gpuList := by
  induction assigned generalizing g with
  | nil => rfl
  | cons a assigned ih => exact ih _

variable {assigned : Reservations} {g : GpuList}

/-- Revoking what was reserved restores every entry. -/
theorem revokeAll_reserved {entry : Nat → GpuListEntry} (h : g.entry = reserved entry assigned) :
    (revokeAll S g assigned).entry = entry := by
  funext k
  rw [revokeAll_entry, updateAll_sizesAt, h, reserved, updateAll_sizesAt]
  exact GpuListEntry.release_reserve _ _

/-! ## The sizes on one node -/

/-- Each size is taken from a GPU of the list that has enough memory at that moment. -/
def TakenInTurn (gpus : List Nat) : (Nat → GpuListEntry) → Reservations → Prop
  | _, [] => True
  | entry, (k, size) :: assigned => k ∈ gpus ∧ size ≤ (entry k).freeMemory ∧
      TakenInTurn gpus (update entry k ((entry k).reserveMemory size)) assigned

theorem TakenInTurn.append {gpus : List Nat} {k : Nat} {size : UInt64} (hk : k ∈ gpus) :
    ∀ {entry : Nat → GpuListEntry} {assigned : Reservations}, TakenInTurn gpus entry assigned →
      size ≤ (reserved entry assigned k).freeMemory →
      TakenInTurn gpus entry (assigned ++ [(k, size)])
  | _, [], _, hsize => ⟨hk, hsize, trivial⟩
  | _, _ :: _, ⟨hk', hsize', hrest⟩, hsize => ⟨hk', hsize', hrest.append hk hsize⟩

/-- What is missing of the free memory of an entry is what was placed on it. -/
theorem TakenInTurn.freeMemory {gpus : List Nat} {entry : Nat → GpuListEntry}
    (h : TakenInTurn gpus entry assigned) (k : Nat) :
    (reserved entry assigned k).freeMemory.toNat + ((sizesAt assigned k).map UInt64.toNat).sum =
      (entry k).freeMemory.toNat := by
  induction assigned generalizing entry with
  | nil => rfl
  | cons a assigned ih =>
    obtain ⟨k', size⟩ := a
    obtain ⟨-, hsize, hrest⟩ := h
    have hih := ih hrest
    rw [reserved, updateAll_cons, ← reserved]
    by_cases hk : k' = k
    · -- this size is taken from the entry before the others are
      subst hk
      have hsub := UInt64.toNat_sub_of_le _ _ hsize
      have hle := UInt64.le_iff_toNat_le.1 hsize
      rw [Function.update_self, GpuListEntry.reserveMemory, hsub] at hih
      rw [sizesAt, List.filter_cons_of_pos (by simp), List.map_cons, List.map_cons,
        List.sum_cons, ← sizesAt]
      simp only [GpuListEntry.reserveMemory] at hih ⊢
      omega
    · rw [Function.update_of_ne (Ne.symm hk)] at hih
      rw [sizesAt, List.filter_cons_of_neg (by simp [hk]), ← sizesAt]
      exact hih

/-- What the loop over the sizes does to a list: it places all of them, or changes nothing but the
order. -/
inductive Reserving (g : GpuList) (sizes : List UInt64) : Reservations → GpuList → Prop where
  | placed {assigned : Reservations} {g' : GpuList} (all : assigned.map Prod.snd = sizes)
      (taken : TakenInTurn g.gpuList g.entry assigned)
      (entries : g'.entry = reserved g.entry assigned) (order : g'.gpuList.Perm g.gpuList) :
      Reserving g sizes assigned g'
  | restored {g' : GpuList} (entries : g'.entry = g.entry) (order : g'.gpuList.Perm g.gpuList) :
      Reserving g sizes [] g'

/-- The loop, from where some sizes are placed. -/
theorem reserveAll_from (rest : List UInt64) {now : GpuList} (assigned : Reservations)
    (hentry : now.entry = reserved g.entry assigned) (horder : now.gpuList.Perm g.gpuList)
    (htaken : TakenInTurn g.gpuList g.entry assigned) :
    Reserving g (assigned.map Prod.snd ++ rest) (reserveAll S now rest assigned).1
      (reserveAll S now rest assigned).2 := by
  -- what is placed so far is the invariant: the list now is the first one after these reservations
  induction rest generalizing now assigned with
  | nil => exact .placed (List.append_nil _).symm htaken hentry horder
  | cons size rest ih =>
    rw [reserveAll]
    cases hfind : now.findEntryAndReserveMemory S size with
    | none =>
      exact .restored (revokeAll_reserved S hentry) ((revokeAll_perm S _ _).trans horder)
    | some found =>
      obtain ⟨k, next⟩ := found
      obtain ⟨hmem, henough, rfl⟩ := GpuList.find_of_some S hfind
      rw [hentry] at henough
      have htaken' := htaken.append (horder.mem_iff.1 hmem) henough
      have hentry' : ((now.modify k fun e => e.reserveMemory size).unlockedSort S).entry =
          reserved g.entry (assigned ++ [(k, size)]) := by
        rw [GpuList.unlockedSort_entry, GpuList.modify, reserved_append, hentry]
      have hrest := ih _ hentry' ((GpuList.perm_unlockedSort S _).trans horder) htaken'
      rw [List.map_append, List.append_assoc] at hrest
      exact hrest

theorem reserveAll_reserving (g : GpuList) (sizes : List UInt64) :
    Reserving g sizes (reserveAll S g sizes []).1 (reserveAll S g sizes []).2 :=
  reserveAll_from S sizes [] rfl (.refl _) trivial

/-! ## The nodes -/

/-- The node has the same GPUs; the order of its list may be another one. -/
structure DaemonInfo.Same (x y : DaemonInfo) : Prop where
  address : y.address = x.address
  isDead : y.isDead = x.isDead
  entries : y.gpuList.entry = x.gpuList.entry
  order : y.gpuList.gpuList.Perm x.gpuList.gpuList

theorem getElem?_node (front back : List DaemonInfo) (x : DaemonInfo) :
    (front ++ x :: back)[front.length]? = some x := by simp

theorem set_node (front back : List DaemonInfo) (x y : DaemonInfo) :
    (front ++ x :: back).set front.length y = front ++ y :: back := by simp

theorem DaemonInfo.Same.refl (x : DaemonInfo) : x.Same x := ⟨rfl, rfl, rfl, .refl _⟩

/-- What the loop over the nodes does: nothing, or it places the sizes on the node that it finds. -/
inductive LookedUp (sizes : List UInt64) (daemons : List DaemonInfo) :
    Option (Nat × Reservations) × List DaemonInfo → Prop where
  | nowhere {daemons' : List DaemonInfo} (same : List.Forall₂ DaemonInfo.Same daemons daemons') :
      LookedUp sizes daemons (none, daemons')
  | found {front front' back : List DaemonInfo} {daemon : DaemonInfo} {assigned : Reservations}
      {g : GpuList} (nodes : daemons = front ++ daemon :: back)
      (same : List.Forall₂ DaemonInfo.Same front front') (live : daemon.isDead = false)
      (reserving : Reserving daemon.gpuList sizes assigned g) (nonempty : assigned ≠ []) :
      LookedUp sizes daemons
        (some (front'.length, assigned), front' ++ { daemon with gpuList := g } :: back)

theorem LookedUp.next {sizes : List UInt64} {daemons : List DaemonInfo} {x y : DaemonInfo}
    (hxy : x.Same y) {r : Option (Nat × Reservations) × List DaemonInfo}
    (h : LookedUp sizes daemons r) :
    LookedUp sizes (x :: daemons) (r.1.map fun found => (found.1 + 1, found.2), y :: r.2) := by
  cases h with
  | nowhere hsame => exact .nowhere (.cons hxy hsame)
  | found hnodes hsame hlive hreserving hne =>
    exact .found (congrArg (x :: ·) hnodes) (.cons hxy hsame) hlive hreserving hne

theorem lookUp_lookedUp (sizes : List UInt64) (daemons : List DaemonInfo) :
    LookedUp sizes daemons (lookUp S sizes daemons) := by
  induction daemons with
  | nil => exact .nowhere .nil
  | cons daemon daemons ih =>
    rw [lookUp]
    by_cases hdead : daemon.isDead = true
    · rw [if_pos hdead]
      exact ih.next (.refl daemon)
    · rw [if_neg hdead]
      have hreserving := reserveAll_reserving S daemon.gpuList sizes
      by_cases hempty : (reserveAll S daemon.gpuList sizes []).1 = []
      · -- a node that is too small has its entries back
        refine (if_pos (List.isEmpty_iff.2 hempty)).symm ▸ ih.next ?_
        rw [hempty] at hreserving
        cases hreserving with
        | placed _ _ hentries horder => exact ⟨rfl, rfl, hentries, horder⟩
        | restored hentries horder => exact ⟨rfl, rfl, hentries, horder⟩
      · refine (if_neg (mt List.isEmpty_iff.1 hempty)).symm ▸ ?_
        have hnodes : daemon :: daemons = [] ++ daemon :: daemons := rfl
        exact .found hnodes .nil (Bool.eq_false_of_not_eq_true hdead) hreserving hempty

/-! ## The request -/

/-- What an assignment does to the list of its node. -/
structure Assigned (address : ServerAddress) (assigned : Reservations) (g g' : GpuList) :
    Prop where
  taken : TakenInTurn g.gpuList g.entry assigned
  order : g'.gpuList.Perm g.gpuList
  freeMemory : ∀ k, (g'.entry k).freeMemory.toNat +
    ((sizesAt assigned k).map UInt64.toNat).sum = (g.entry k).freeMemory.toNat
  workerCounter : ∀ k, (g'.entry k).workerCounter =
    (g.entry k).workerCounter + (sizesAt assigned k).length
  busyWorkers : ∀ k, (g'.entry k).busyWorkers =
    (g.entry k).busyWorkers ++ (sizesAt assigned k).map fun size => ⟨address, size⟩

theorem addAll_assigned {now : GpuList} (htaken : TakenInTurn g.gpuList g.entry assigned)
    (hentry : now.entry = reserved g.entry assigned) (horder : now.gpuList.Perm g.gpuList)
    (address : ServerAddress) : Assigned address assigned g (addAll now address assigned) := by
  have hadded : ∀ k, (addAll now address assigned).entry k =
      { reserved g.entry assigned k with
        busyWorkers := (reserved g.entry assigned k).busyWorkers ++
          (sizesAt assigned k).map fun size => ⟨address, size⟩ } := fun k => by
    rw [addAll_entry, updateAll_sizesAt fun e size => e.addBusyWorker address size,
      GpuListEntry.foldl_addBusyWorker, hentry]
  have hreserved := fun k =>
    (updateAll_sizesAt GpuListEntry.reserveMemory g.entry assigned k).trans
      (GpuListEntry.foldl_reserveMemory _ _)
  refine ⟨htaken, ?_, fun k => ?_, fun k => ?_, fun k => ?_⟩
  · rw [addAll_gpuList]
    exact horder
  · rw [hadded]
    exact htaken.freeMemory k
  · rw [hadded, reserved, hreserved]
  · rw [hadded, reserved, hreserved]

variable (spawn : ServerAddress → List String → List UInt64 → List ServerAddress)

/-- What a request does: nothing, or an assignment on one node that is alive. -/
inductive Outcome (daemons : List DaemonInfo) (gpuMem : List UInt64) :
    List ServerAddress × List DaemonInfo → Prop where
  | refused {daemons' : List DaemonInfo} (same : List.Forall₂ DaemonInfo.Same daemons daemons') :
      Outcome daemons gpuMem ([], daemons')
  | assigned {address : ServerAddress} {more : List ServerAddress}
      {front front' back : List DaemonInfo} {daemon : DaemonInfo} {assigned : Reservations}
      {g : GpuList} (nodes : daemons = front ++ daemon :: back)
      (same : List.Forall₂ DaemonInfo.Same front front') (live : daemon.isDead = false)
      (sizes : (assigned.map Prod.snd).Perm gpuMem)
      (node : Assigned address assigned daemon.gpuList g) :
      Outcome daemons gpuMem (address :: more, front' ++ { daemon with gpuList := g } :: back)

theorem doAssignWorker_outcome (daemons : List DaemonInfo) (gpuMem : List UInt64) :
    Outcome daemons gpuMem (doAssignWorker S spawn daemons gpuMem) := by
  rw [doAssignWorker]
  by_cases hempty : gpuMem.isEmpty = true
  · rw [if_pos hempty]
    exact .refused (List.forall₂_same.2 fun x _ => .refl x)
  rw [if_neg hempty]
  have hlook := lookUp_lookedUp S (sortedSizes gpuMem) daemons
  generalize lookUp S (sortedSizes gpuMem) daemons = r at hlook
  cases hlook with
  | nowhere hsame => exact .refused hsame
  | @found front front' back daemon assigned g hnodes hsame hlive hreserving hne =>
    dsimp only
    rw [getElem?_node]
    cases hreserving with
    | restored _ _ => exact absurd rfl hne
    | placed hall htaken hentry horder =>
      dsimp only
      cases spawn daemon.address (restoredUuid g gpuMem assigned) gpuMem with
      | nil =>
        rw [set_node]
        refine .refused (hnodes ▸ List.rel_append hsame (.cons ?_ ?_))
        · exact ⟨rfl, rfl, revokeAll_reserved S hentry, (revokeAll_perm S _ _).trans horder⟩
        · exact List.forall₂_same.2 fun x _ => .refl x
      | cons address more =>
        dsimp only
        rw [set_node]
        exact .assigned hnodes hsame hlive ((List.Perm.of_eq hall).trans
          (List.perm_insertionSort _ _))
          (addAll_assigned htaken hentry horder address)

/-- A request that gets no server leaves every GPU of every node as it was. A request that gets one
changes one node, which is alive: every requested size is taken from a GPU that has enough memory at
that moment, and the GPU counts the server and notes it with the size. -/
theorem assignment_all_or_nothing (daemons : List DaemonInfo) (gpuMem : List UInt64) :
    ((doAssignWorker S spawn daemons gpuMem).1 = [] →
      List.Forall₂ DaemonInfo.Same daemons (doAssignWorker S spawn daemons gpuMem).2) ∧
    ∀ address more, (doAssignWorker S spawn daemons gpuMem).1 = address :: more →
      ∃ front front' daemon back assigned g,
        daemons = front ++ daemon :: back ∧
        (doAssignWorker S spawn daemons gpuMem).2 =
          front' ++ { daemon with gpuList := g } :: back ∧
        List.Forall₂ DaemonInfo.Same front front' ∧ daemon.isDead = false ∧
        (assigned.map Prod.snd).Perm gpuMem ∧ Assigned address assigned daemon.gpuList g := by
  have houtcome := doAssignWorker_outcome S spawn daemons gpuMem
  generalize doAssignWorker S spawn daemons gpuMem = r at houtcome
  cases houtcome with
  | refused hsame => exact ⟨fun _ => hsame, fun _ _ h => nomatch h⟩
  | @assigned address more front front' back daemon assigned g hnodes hsame hlive hsizes hnode =>
    refine ⟨fun h => (nomatch h), fun address' more' h => ?_⟩
    cases h
    exact ⟨front, front', daemon, back, assigned, g, hnodes, rfl, hsame, hlive, hsizes, hnode⟩

/-- A node with two GPUs. -/
def nodeWith (ip : String) (memory₀ memory₁ : UInt64) : DaemonInfo where
  address := ⟨ip, 3333⟩
  isDead := false
  gpuList := .addEntries insertionSorter (fun k => match k with
    | 0 => ⟨"A", memory₀, [], 0, memory₀⟩
    | _ => ⟨"B", memory₁, [], 0, memory₁⟩) 2

/-- The first node has room for one of two sizes, the second node for both; the same request fails
if no server starts. -/
theorem assignment_all_or_nothing_two_nodes :
    (∃ front front' daemon back assigned g,
      [nodeWith "10.0.0.1" 70 20, nodeWith "10.0.0.2" 100 90] = front ++ daemon :: back ∧
      (doAssignWorker insertionSorter (fun _ _ _ => [⟨"10.0.0.2", 4000⟩])
        [nodeWith "10.0.0.1" 70 20, nodeWith "10.0.0.2" 100 90] [50, 60]).2 =
          front' ++ { daemon with gpuList := g } :: back ∧
      List.Forall₂ DaemonInfo.Same front front' ∧ daemon.isDead = false ∧
      (assigned.map Prod.snd).Perm [50, 60] ∧
      Assigned ⟨"10.0.0.2", 4000⟩ assigned daemon.gpuList g) ∧
    List.Forall₂ DaemonInfo.Same [nodeWith "10.0.0.1" 70 20, nodeWith "10.0.0.2" 100 90]
      (doAssignWorker insertionSorter (fun _ _ _ => [])
        [nodeWith "10.0.0.1" 70 20, nodeWith "10.0.0.2" 100 90] [50, 60]).2 :=
  ⟨(assignment_all_or_nothing insertionSorter (fun _ _ _ => [⟨"10.0.0.2", 4000⟩])
      [nodeWith "10.0.0.1" 70 20, nodeWith "10.0.0.2" 100 90] [50, 60]).2 _ [] rfl,
    (assignment_all_or_nothing insertionSorter (fun _ _ _ => [])
      [nodeWith "10.0.0.1" 70 20, nodeWith "10.0.0.2" 100 90] [50, 60]).1 rfl⟩

end Loops

end Ava.Manager
