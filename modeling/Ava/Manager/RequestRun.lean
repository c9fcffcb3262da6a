import Ava.Manager.Assignment

/-!
# A request that runs alone

The service takes a request step by step. If no other message is handled in between, the steps of a
request do what `doAssignWorker` does: each loop of the function is a run of steps, over the same
list of nodes, and the last step of the run has the result of the function.
-/

set_option autoImplicit false

namespace Ava.Manager

namespace Service

open Ava.Lib

section Alone

variable (S : Sorter Nat) (requests : List AssignRequest) (r : Nat) (sizes : List UInt64)
  (reply : List ServerAddress)

/-- The service where the request is at some point. -/
def requestAt (daemons : List DaemonInfo) (p : Progress) : Service :=
  ⟨daemons, requests.set r ⟨sizes, p⟩⟩

/-- The steps of the request with the reply of the daemon. -/
abbrev Alone : Service → Service → Prop := Reaches (step S) fun _ op => op = .advance r reply

variable {S requests r sizes reply} {front back : List DaemonInfo} {daemon : DaemonInfo}

theorem requestAt_request (hr : r < requests.length) (daemons : List DaemonInfo) (p : Progress) :
    (requestAt requests r sizes daemons p).requests[r]? = some ⟨sizes, p⟩ :=
  List.getElem?_set_self hr

theorem requestAt_setProgress (hr : r < requests.length) (daemons : List DaemonInfo)
    (p p' : Progress) : (requestAt requests r sizes daemons p).setProgress r p' =
      requestAt requests r sizes daemons p' := by
  rw [requestAt, setProgress, requestAt]
  congr 1
  apply List.ext_getElem?
  intro i
  rw [List.getElem?_modify]
  by_cases hi : r = i
  · subst hi
    rw [List.getElem?_set_self hr, List.getElem?_set_self hr]
    simp
  · rw [List.getElem?_set_ne hi, List.getElem?_set_ne hi]
    simp [hi]

theorem requestAt_setGpuList (p : Progress) (g : GpuList) :
    (requestAt requests r sizes (front ++ daemon :: back) p).setGpuList front.length g =
      requestAt requests r sizes (front ++ { daemon with gpuList := g } :: back) p := by
  rw [requestAt, setGpuList, requestAt]
  congr 1
  simp [List.modify_eq_take_drop]

theorem requestAt_node (p : Progress) :
    (requestAt requests r sizes (front ++ daemon :: back) p).daemons[front.length]? = some daemon :=
  getElem?_node front back daemon

theorem Alone.next {daemons : List DaemonInfo} {p : Progress} {t u : Service}
    (h : (requestAt requests r sizes daemons p).advance S r reply = some t)
    (hrest : Alone S r reply t u) :
    Alone S r reply (requestAt requests r sizes daemons p) u :=
  .head ⟨_, rfl, h⟩ hrest

/-! ## The loops -/

theorem alone_revoke (hr : r < requests.length) (next : Option Nat) (assigned : Reservations)
    (g : GpuList) :
    Alone S r reply
      (requestAt requests r sizes (front ++ { daemon with gpuList := g } :: back)
        (.revoking front.length assigned next))
      (requestAt requests r sizes
        (front ++ { daemon with gpuList := revokeAll S g assigned } :: back)
        (match next with
        | some d => .looking d
        | none => .finished [])) := by
  induction assigned generalizing g with
  | nil =>
    refine Alone.next ?_ .refl
    rw [advance, requestAt_request hr]
    cases next with
    | none => exact congrArg some (requestAt_setProgress hr _ _ _)
    | some d => exact congrArg some (requestAt_setProgress hr _ _ _)
  | cons a assigned ih =>
    refine Alone.next ?_ (ih (g.revokeEntryWithMemory S a.1 a.2))
    rw [advance, requestAt_request hr]
    dsimp only
    rw [requestAt_node]
    dsimp only
    rw [requestAt_setGpuList, requestAt_setProgress hr]

theorem alone_add (hr : r < requests.length) (replied : List ServerAddress)
    (address : ServerAddress) (assigned : Reservations) (g : GpuList) :
    Alone S r reply
      (requestAt requests r sizes (front ++ { daemon with gpuList := g } :: back)
        (.adding front.length replied address assigned))
      (requestAt requests r sizes
        (front ++ { daemon with gpuList := addAll g address assigned } :: back)
        (.finished replied)) := by
  induction assigned generalizing g with
  | nil =>
    refine Alone.next ?_ .refl
    rw [advance, requestAt_request hr]
    exact congrArg some (requestAt_setProgress hr _ _ _)
  | cons a assigned ih =>
    refine Alone.next ?_ (ih (g.modify a.1 fun e => e.addBusyWorker address a.2))
    rw [advance, requestAt_request hr]
    dsimp only
    rw [requestAt_node]
    dsimp only
    rw [requestAt_setGpuList, requestAt_setProgress hr]

/-- After the sizes the request goes on to the next node or starts a server. -/
theorem alone_reserve (hr : r < requests.length) (rest : List UInt64) (assigned : Reservations)
    (g : GpuList) :
    Alone S r reply
      (requestAt requests r sizes (front ++ { daemon with gpuList := g } :: back)
        (.reserving front.length rest assigned))
      (requestAt requests r sizes
        (front ++ { daemon with gpuList := (reserveAll S g rest assigned).2 } :: back)
        (if (reserveAll S g rest assigned).1.isEmpty then .looking (front.length + 1)
          else .spawning front.length (reserveAll S g rest assigned).1)) := by
  induction rest generalizing assigned g with
  | nil =>
    refine Alone.next ?_ .refl
    rw [advance, requestAt_request hr, reserveAll]
    dsimp only
    split_ifs
    · rw [requestAt_setProgress hr]
    · rw [requestAt_setProgress hr]
  | cons size rest ih =>
    cases hfind : g.findEntryAndReserveMemory S size with
    | none =>
      rw [reserveAll, hfind]
      refine Alone.next ?_ (alone_revoke hr (some (front.length + 1)) assigned g)
      rw [advance, requestAt_request hr]
      dsimp only
      rw [requestAt_node]
      dsimp only
      rw [hfind]
      dsimp only
      rw [requestAt_setProgress hr]
    | some found =>
      obtain ⟨k, g'⟩ := found
      rw [reserveAll, hfind]
      refine Alone.next ?_ (ih (assigned ++ [(k, size)]) g')
      rw [advance, requestAt_request hr]
      dsimp only
      rw [requestAt_node]
      dsimp only
      rw [hfind]
      dsimp only
      rw [requestAt_setGpuList, requestAt_setProgress hr]

/-- The loop over the nodes, from one of them. -/
theorem alone_lookUp (hr : r < requests.length) (daemons : List DaemonInfo) :
    ∀ front, Alone S r reply
      (requestAt requests r sizes (front ++ daemons) (.looking front.length))
      (requestAt requests r sizes (front ++ (lookUp S sizes daemons).2)
        (match (lookUp S sizes daemons).1 with
        | none => .finished []
        | some (d, assigned) => .spawning (front.length + d) assigned)) := by
  induction daemons with
  | nil =>
    intro front
    refine Alone.next ?_ .refl
    rw [advance, requestAt_request hr]
    dsimp only
    have hend : (requestAt requests r sizes (front ++ []) (.looking front.length)).daemons[
        front.length]? = none := by simp [requestAt]
    rw [hend]
    exact congrArg some (requestAt_setProgress hr _ _ _)
  | cons daemon daemons ih =>
    intro front
    -- The loop goes on behind a node that has been passed.
    have hpass : ∀ node, Alone S r reply
        (requestAt requests r sizes (front ++ node :: daemons) (.looking (front.length + 1)))
        (requestAt requests r sizes (front ++ node :: (lookUp S sizes daemons).2)
          (match (lookUp S sizes daemons).1.map fun found => (found.1 + 1, found.2) with
          | none => .finished []
          | some (d, assigned) => .spawning (front.length + d) assigned)) := by
      intro node
      have hih := ih (front ++ [node])
      rw [List.length_append, List.length_singleton, List.append_assoc, List.append_assoc,
        List.singleton_append, List.singleton_append] at hih
      cases hlook : (lookUp S sizes daemons).1 with
      | none =>
        rw [hlook] at hih
        exact hih
      | some found =>
        rw [hlook] at hih
        dsimp only [Option.map_some] at hih ⊢
        rwa [Nat.add_comm found.1 1, ← Nat.add_assoc]
    rw [lookUp]
    by_cases hdead : daemon.isDead = true
    · rw [if_pos hdead]
      refine Alone.next ?_ (hpass daemon)
      rw [advance, requestAt_request hr]
      dsimp only
      rw [requestAt_node]
      dsimp only
      rw [if_pos hdead, requestAt_setProgress hr]
    · rw [if_neg hdead]
      have hreserve : Alone S r reply (requestAt requests r sizes (front ++ daemon :: daemons)
        (.reserving front.length sizes [])) _ := alone_reserve hr sizes [] daemon.gpuList
      refine Alone.next ?_ (.trans hreserve ?_)
      · rw [advance, requestAt_request hr]
        dsimp only
        rw [requestAt_node]
        dsimp only
        rw [if_neg hdead, requestAt_setProgress hr]
      · by_cases hempty : (reserveAll S daemon.gpuList sizes []).1.isEmpty = true
        · rw [if_pos hempty, if_pos hempty]
          exact hpass _
        · rw [if_neg hempty, if_neg hempty]
          exact .refl

/-- The last part of the request, from where memory is assigned. -/
theorem alone_spawn (hr : r < requests.length) (assigned : Reservations) (g : GpuList) :
    Alone S r reply
      (requestAt requests r sizes (front ++ { daemon with gpuList := g } :: back)
        (.spawning front.length assigned))
      (match reply with
      | [] => requestAt requests r sizes
          (front ++ { daemon with gpuList := revokeAll S g assigned } :: back) (.finished [])
      | address :: more => requestAt requests r sizes
          (front ++ { daemon with gpuList := addAll g address assigned } :: back)
          (.finished (address :: more))) := by
  cases reply with
  | nil =>
    refine Alone.next ?_ (alone_revoke hr none assigned g)
    rw [advance, requestAt_request hr]
    exact congrArg some (requestAt_setProgress hr _ _ _)
  | cons address more =>
    refine Alone.next ?_ (alone_add hr (address :: more) address assigned g)
    rw [advance, requestAt_request hr]
    exact congrArg some (requestAt_setProgress hr _ _ _)

end Alone

/-- The steps of a request that is handled alone do what `doAssignWorker` does. -/
theorem alone_doAssignWorker (S : Sorter Nat) (s : Service) (gpuMem : List UInt64)
    (reply : List ServerAddress) :
    Alone S s.requests.length reply (s.assignWorker gpuMem)
      ⟨(doAssignWorker S (fun _ _ _ => reply) s.daemons gpuMem).2, s.requests ++
        [⟨sortedSizes gpuMem,
          .finished (doAssignWorker S (fun _ _ _ => reply) s.daemons gpuMem).1⟩]⟩ := by
  by_cases hempty : gpuMem.isEmpty = true
  · rw [assignWorker, doAssignWorker, if_pos hempty, if_pos hempty]
  · have hat : ∀ daemons p, requestAt (s.requests ++ [⟨sortedSizes gpuMem, .looking 0⟩])
        s.requests.length (sortedSizes gpuMem) daemons p =
        ⟨daemons, s.requests ++ [⟨sortedSizes gpuMem, p⟩]⟩ := by
      intro daemons p
      simp [requestAt]
    have hr : s.requests.length <
        (s.requests ++ [(⟨sortedSizes gpuMem, .looking 0⟩ : AssignRequest)]).length := by simp
    rw [assignWorker, doAssignWorker, if_neg hempty, if_neg hempty, ← hat]
    refine .trans (alone_lookUp hr s.daemons []) ?_
    have hlook := lookUp_lookedUp S (sortedSizes gpuMem) s.daemons
    generalize lookUp S (sortedSizes gpuMem) s.daemons = result at hlook
    cases hlook with
    | nowhere hsame =>
      rw [← hat]
      exact .refl
    | @found front front' back daemon assigned g hnodes hsame hlive hreserving hne =>
      dsimp only
      rw [getElem?_node, List.nil_append, List.length_nil, Nat.zero_add]
      refine .trans (alone_spawn hr assigned g) ?_
      cases reply with
      | nil =>
        dsimp only
        rw [set_node, ← hat]
      | cons address more =>
        dsimp only
        rw [set_node, ← hat]

end Service

end Ava.Manager
