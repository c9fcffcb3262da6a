import Ava.Channel.LogBuild
import Mathlib.Data.List.Chain

/-!
# When commands built on the log load back

The records of commands follow each other in the file as long as each command is created when the
one before it has its room, that is, when the last byte of its record is written.
`logBuild_loadsBack_iff` says that the commands of any interleaved run load back as they were sent
exactly if this is so, each data region was filled by one buffer, and no command is longer than what
one `read` moves.
-/

set_option autoImplicit false

namespace Ava.Channel

open Ava.Lib

/-! ## Records that follow each other -/

/-- The records follow each other without gaps from `n` on. -/
def ChainFrom : Nat → List Built → Prop
  | _, [] => True
  | n, b :: bs => b.first = n ∧ ChainFrom b.last bs

/-- The end of records that follow each other from `n` on. -/
def chainEnd (n : Nat) (bs : List Built) : Nat := (bs.getLast?.map Built.last).getD n

section Chain

variable {n : Nat} {bs : List Built} {b : Built}

theorem chainEnd_cons : chainEnd n (b :: bs) = chainEnd b.last bs := by
  cases bs with
  | nil => rfl
  | cons c bs => rfl

theorem chainEnd_concat : chainEnd n (bs ++ [b]) = b.last := by
  rw [chainEnd, List.getLast?_concat]
  rfl

theorem chainFrom_append {cs : List Built} :
    ChainFrom n (bs ++ cs) ↔ ChainFrom n bs ∧ ChainFrom (chainEnd n bs) cs := by
  induction bs generalizing n with
  | nil => exact (and_iff_right trivial).symm
  | cons b bs ih =>
    rw [List.cons_append, ChainFrom, ChainFrom, ih, chainEnd_cons, and_assoc]

/-- A chain depends on the places of its records only. -/
theorem ChainFrom.congr {cs : List Built} (h : ChainFrom n bs)
    (hfirst : bs.map Built.first = cs.map Built.first)
    (hlast : bs.map Built.last = cs.map Built.last) : ChainFrom n cs := by
  induction bs generalizing n cs with
  | nil =>
    obtain rfl := List.map_eq_nil_iff.1 hfirst.symm
    trivial
  | cons b bs ih =>
    cases cs with
    | nil => trivial
    | cons c cs =>
      rw [List.map_cons, List.map_cons, List.cons.injEq] at hfirst hlast
      refine ⟨hfirst.1.symm.trans h.1, ?_⟩
      rw [← hlast.1]
      exact ih h.2 hfirst.2 hlast.2

theorem Built.first_le_last (b : Built) : b.first ≤ b.last := by
  rw [Built.first, Built.last]
  omega

theorem ChainFrom.le_first (h : ChainFrom n bs) (hb : b ∈ bs) : n ≤ b.first := by
  induction bs generalizing n with
  | nil => cases hb
  | cons c bs ih =>
    rcases List.mem_cons.1 hb with rfl | hb
    · exact h.1.ge
    · exact (h.1.ge.trans c.first_le_last).trans (ih h.2 hb)

theorem ChainFrom.pairwise (h : ChainFrom n bs) : bs.Pairwise fun b c => b.last ≤ c.first := by
  induction bs generalizing n with
  | nil => exact List.Pairwise.nil
  | cons b bs ih => exact List.Pairwise.cons (fun c hc => h.2.le_first hc) (ih h.2)

/-- The images of filled commands take the room of their records. -/
theorem ChainFrom.length_images (h : ChainFrom n bs) (hwell : ∀ b ∈ bs, b.WellBuilt)
    (hfilled : ∀ b ∈ bs, b.Filled) :
    n + (bs.map Built.image).flatten.length = chainEnd n bs := by
  induction bs generalizing n with
  | nil => rfl
  | cons b bs ih =>
    have hb := Built.length_image_of_filled (hfilled b List.mem_cons_self)
      (hwell b List.mem_cons_self)
    have hbs := ih h.2 (fun c hc => hwell c (List.mem_cons_of_mem b hc))
      (fun c hc => hfilled c (List.mem_cons_of_mem b hc))
    rw [h.1] at hb
    rw [List.map_cons, List.flatten_cons, List.length_append, chainEnd_cons, ← hbs, ← hb]
    omega

end Chain

/-! ## The invariant -/

namespace LogBuild

/-- All commands are filled or fresh, and were created when the one before had its room. -/
def Whole (s : LogBuild) : Prop :=
  ∀ b ∈ s.built, b.afterFilled = true ∧ (b.Filled ∨ b.Fresh)

structure Inv (s : LogBuild) : Prop where
  wellBuilt : ∀ b ∈ s.built, b.WellBuilt
  fits : s.chan.file.contents.length < 2 ^ 63
  empty : s.built = [] → s.chan.file.contents = []
  adjacent : s.built.IsChain fun b c => c.afterFilled = true → b.Filled
  /-- The room of the last command is taken exactly if it is filled. -/
  chain : (∀ b ∈ s.built, b.afterFilled = true) →
    ChainFrom 0 s.built ∧ ∀ b ∈ s.built.getLast?,
      b.draft.commandStartOffset ≤ s.chan.file.contents.length ∧
        s.chan.file.contents.length ≤ b.last ∧
        (b.Filled ↔ s.chan.file.contents.length = b.last)
  separate : s.Separate → ∀ b ∈ s.built, b.afterFilled = true
  images : s.Whole → s.chan.file.contents = (s.built.map Built.image).flatten

variable {s s' : LogBuild}

theorem inv_new : new.Inv where
  wellBuilt _ hb := nomatch hb
  fits := by decide
  empty _ := rfl
  adjacent := List.IsChain.nil
  chain _ := ⟨trivial, fun _ hb => nomatch hb⟩
  separate _ _ hb := nomatch hb
  images _ := rfl

/-- A command is filled if the next one was created in time. -/
theorem Inv.filled_of_next (h : s.Inv) {l r : List Built} {b c : Built}
    (hbuilt : s.built = l ++ b :: c :: r) (hc : c.afterFilled = true) : b.Filled := by
  have hadjacent := h.adjacent
  rw [hbuilt, List.isChain_append_cons_cons] at hadjacent
  exact hadjacent.2.1 hc

/-- All commands are filled if the last one is. -/
theorem Inv.all_filled (h : s.Inv) (hafter : ∀ b ∈ s.built, b.afterFilled = true)
    (hlast : LastFilled s.built) : ∀ b ∈ s.built, b.Filled := by
  intro b hb
  obtain ⟨l, r, hsplit⟩ := List.append_of_mem hb
  cases r with
  | nil =>
    apply hlast
    rw [hsplit, List.getLast?_concat]
    rfl
  | cons c r =>
    apply h.filled_of_next hsplit
    apply hafter
    rw [hsplit]
    simp

/-- Where the next record goes. -/
theorem Inv.chainEnd_eq (h : s.Inv) (hafter : ∀ b ∈ s.built, b.afterFilled = true)
    (hlast : LastFilled s.built) : chainEnd 0 s.built = s.chan.file.contents.length := by
  rcases List.eq_nil_or_concat s.built with hnil | ⟨l, b, hsplit⟩
  · rw [hnil, h.empty hnil]
    rfl
  · rw [List.concat_eq_append] at hsplit
    have hb : b ∈ s.built.getLast? := by
      rw [hsplit, List.getLast?_concat]
      rfl
    rw [hsplit, chainEnd_concat]
    exact (((h.chain hafter).2 b hb).2.2.1 (hlast b hb)).symm

section Creation

variable {structSize regionSize : Nat} {c : Built}

/-- The command that a creation adds. -/
def created (s : LogBuild) (structSize regionSize : Nat) : Built :=
  ⟨structSize, regionSize,
    ⟨s.chan.file.contents.length + metadataSize,
      s.chan.file.contents.length + metadataSize + structSize⟩,
    [], none, decide (LastFilled s.built)⟩

theorem created_fresh (s : LogBuild) (structSize regionSize : Nat) :
    (s.created structSize regionSize).Fresh := ⟨rfl, rfl⟩

theorem created_first : (s.created structSize regionSize).first = s.chan.file.contents.length := rfl

/-- If the records stay apart, the last command was filled. -/
theorem Inv.lastFilled_of_separate (h : s.Inv) (hsize : commandBaseSize ≤ structSize)
    (hseparate : (s.built ++ [s.created structSize regionSize]).Pairwise
      fun b c => b.last ≤ c.first ∨ c.last ≤ b.first) : LastFilled s.built := by
  obtain ⟨hold, -, hnew⟩ := List.pairwise_append.1 hseparate
  intro b hb
  obtain ⟨hstart, hle, hfilled⟩ := (h.chain (h.separate hold)).2 b hb
  have hmem : b ∈ s.built := List.mem_of_getLast? hb
  have hwell := (h.wellBuilt b hmem).start
  apply hfilled.2
  rcases hnew b hmem _ (List.mem_singleton_self _) with hbefore | hbehind
  · rw [created_first] at hbefore
    exact Nat.le_antisymm hle hbefore
  · -- the new record cannot lie before one that was created earlier
    rw [Built.first, Built.last, created] at hbehind
    rw [commandBaseSize] at hsize
    rw [metadataSize] at hwell hbehind
    dsimp only at hbehind
    omega

theorem Inv.create (h : s.Inv) (hsize : commandBaseSize ≤ structSize)
    (hbuilt : s'.built = s.built ++ [s.created structSize regionSize])
    (hcontents : s'.chan.file.contents =
      s.chan.file.contents ++ recordCommandMetadata (structSize + regionSize) 0)
    (hfits : s'.chan.file.contents.length < 2 ^ 63) : s'.Inv := by
  have hmem : ∀ b, b ∈ s'.built ↔ b ∈ s.built ∨ b = s.created structSize regionSize := by
    intro b
    rw [hbuilt, List.mem_append, List.mem_singleton]
  have hlength : s'.chan.file.contents.length = s.chan.file.contents.length + metadataSize := by
    rw [hcontents, List.length_append, length_recordCommandMetadata]
  -- if this command was created in time, then so were all, and the last one is filled
  have hafter : (∀ b ∈ s'.built, b.afterFilled = true) →
      (∀ b ∈ s.built, b.afterFilled = true) ∧ LastFilled s.built := by
    intro hall
    refine ⟨fun b hb => hall b ((hmem b).2 (.inl hb)), ?_⟩
    exact of_decide_eq_true (hall _ ((hmem _).2 (.inr rfl)))
  refine ⟨?_, hfits, ?_, ?_, ?_, ?_, ?_⟩
  · intro b hb
    rcases (hmem b).1 hb with hb | rfl
    · exact h.wellBuilt b hb
    · exact ⟨hsize, Nat.le_add_left _ _, rfl, Nat.zero_le _, (fun _ h => nomatch h),
        (fun _ h => nomatch h)⟩
  · intro hnil
    rw [hbuilt] at hnil
    exact absurd hnil (by simp)
  · rw [hbuilt, List.isChain_append]
    refine ⟨h.adjacent, List.IsChain.singleton _, ?_⟩
    intro b hb c hc hcreated
    obtain rfl := Option.some.inj hc
    exact of_decide_eq_true hcreated b hb
  · intro hall
    obtain ⟨hold, hlast⟩ := hafter hall
    rw [hbuilt, chainFrom_append, h.chainEnd_eq hold hlast]
    refine ⟨⟨(h.chain hold).1, created_first, trivial⟩, ?_⟩
    intro b hb
    rw [List.getLast?_concat] at hb
    obtain rfl := Option.some.inj hb
    have hnot := Built.Fresh.not_filled (s.created_fresh structSize regionSize)
    rw [hlength]
    rw [commandBaseSize] at hsize
    refine ⟨le_refl _, ?_, iff_of_false hnot ?_⟩
    · rw [Built.last, created]
      dsimp only
      omega
    · rw [Built.last, created]
      dsimp only
      omega
  · intro hseparate b hb
    rw [Separate, hbuilt] at hseparate
    rcases (hmem b).1 hb with hb | rfl
    · exact h.separate (List.pairwise_append.1 hseparate).1 b hb
    · exact decide_eq_true (h.lastFilled_of_separate hsize hseparate)
  · intro hwhole
    have hold : s.Whole := fun b hb => hwhole b ((hmem b).2 (.inl hb))
    rw [hbuilt, hcontents, List.map_append, List.flatten_append, ← h.images hold,
      List.map_singleton, List.flatten_singleton,
      Built.image_of_not_filled (s.created_fresh structSize regionSize).not_filled]
    rfl

end Creation

section Write

variable {l r : List Built} {b b' : Built} {off : Nat} {data : Bytes}

/-- The last command keeps its relation to the end of the file. -/
theorem Inv.chain_write (h : s.Inv) (hbuilt : s.built = l ++ b :: r)
    (hbuilt' : s'.built = l ++ b' :: r) (hwrites : b.Writes off data b')
    (hcontents : s'.chan.file.contents = writeAt s.chan.file.contents off data)
    (hafter : ∀ b ∈ s.built, b.afterFilled = true) :
    ChainFrom 0 s'.built ∧ ∀ b ∈ s'.built.getLast?,
      b.draft.commandStartOffset ≤ s'.chan.file.contents.length ∧
        s'.chan.file.contents.length ≤ b.last ∧
        (b.Filled ↔ s'.chan.file.contents.length = b.last) := by
  obtain ⟨hchain, hlast⟩ := h.chain hafter
  have hb : b.WellBuilt := h.wellBuilt b (by rw [hbuilt]; simp)
  have hend := hwrites.le_last hb
  refine ⟨?_, ?_⟩
  · apply hchain.congr
    · rw [hbuilt, hbuilt', List.map_append, List.map_append, List.map_cons, List.map_cons,
        hwrites.first_eq]
    · rw [hbuilt, hbuilt', List.map_append, List.map_append, List.map_cons, List.map_cons,
        hwrites.last_eq]
  rw [hbuilt] at hchain hlast
  rw [hbuilt', hcontents]
  rcases List.eq_nil_or_concat r with rfl | ⟨r, d, rfl⟩
  · -- the write is for the last command and may extend the file
    intro c hc
    rw [List.getLast?_concat] at hc
    obtain rfl := Option.some.inj hc
    obtain ⟨hstart, hle, hfilled⟩ := hlast b (by rw [List.getLast?_concat]; rfl)
    have hstart' : b'.draft.commandStartOffset = b.draft.commandStartOffset := by
      cases hwrites <;> rfl
    rw [hstart', hwrites.last_eq, hwrites.filled_iff hb, hfilled]
    by_cases hdata : data = []
    · rw [hdata, writeAt_nil]
      refine ⟨hstart, hle, ?_⟩
      exact ⟨fun h => h.resolve_right fun h => h.1 rfl, Or.inl⟩
    · rw [length_writeAt_eq_max hdata]
      refine ⟨by omega, by omega, ?_⟩
      refine ⟨?_, ?_⟩
      · rintro (heq | ⟨-, heq⟩)
        · omega
        · omega
      · intro hmax
        by_cases heq : s.chan.file.contents.length = b.last
        · exact .inl heq
        · exact .inr ⟨hdata, by omega⟩
  · -- the write ends before the last command, so the file is not extended
    rw [List.concat_eq_append] at hchain hlast ⊢
    rw [← List.cons_append, ← List.append_assoc] at hlast ⊢
    rw [List.getLast?_concat] at hlast ⊢
    have hd := hlast d rfl
    have hbefore : b.last ≤ d.first := ((chainFrom_append.1 hchain).2.2).le_first (by simp)
    have hinside : off + data.length ≤ s.chan.file.contents.length := by
      rw [Built.first] at hbefore
      omega
    rw [length_writeAt hinside]
    exact hlast

theorem Inv.adjacent_write (h : s.Inv) (hbuilt : s.built = l ++ b :: r)
    (hbuilt' : s'.built = l ++ b' :: r) (hwrites : b.Writes off data b') :
    s'.built.IsChain fun b c => c.afterFilled = true → b.Filled := by
  have hb : b.WellBuilt := h.wellBuilt b (by rw [hbuilt]; simp)
  have hadjacent := h.adjacent
  rw [hbuilt, List.isChain_append, List.isChain_cons] at hadjacent
  obtain ⟨hl, ⟨hnext, hr⟩, hbefore⟩ := hadjacent
  rw [hbuilt', List.isChain_append, List.isChain_cons]
  refine ⟨hl, ⟨?_, hr⟩, ?_⟩
  · intro c hc hafter
    exact hwrites.filled hb (hnext c hc hafter)
  · intro c hc d hd hafter
    obtain rfl := Option.some.inj hd
    rw [hwrites.afterFilled_eq] at hafter
    exact hbefore c hc b rfl hafter

theorem Inv.images_write (h : s.Inv) (hbuilt : s.built = l ++ b :: r)
    (hbuilt' : s'.built = l ++ b' :: r) (hwrites : b.Writes off data b')
    (hcontents : s'.chan.file.contents = writeAt s.chan.file.contents off data)
    (hwhole' : s'.Whole) : s'.chan.file.contents = (s'.built.map Built.image).flatten := by
  have hb : b.WellBuilt := h.wellBuilt b (by rw [hbuilt]; simp)
  rw [Whole, hbuilt'] at hwhole'
  simp only [List.forall_mem_append, List.forall_mem_cons, hwrites.afterFilled_eq] at hwhole'
  obtain ⟨hl, ⟨hafter, hb'⟩, hr⟩ := hwhole'
  have hor := hwrites.filled_or_fresh hb hb'
  have hwhole : s.Whole := by
    rw [Whole, hbuilt]
    simp only [List.forall_mem_append, List.forall_mem_cons]
    exact ⟨hl, ⟨hafter, hor⟩, hr⟩
  obtain ⟨hchain, -⟩ := h.chain (fun c hc => (hwhole c hc).1)
  -- the commands before it are filled, so its record begins behind their images
  have hfilled : ∀ c ∈ l, c.Filled := by
    intro c hc
    obtain ⟨l₁, l₂, rfl⟩ := List.append_of_mem hc
    cases l₂ with
    | nil =>
      refine h.filled_of_next (l := l₁) (r := r) ?_ hafter
      rw [hbuilt, List.append_assoc]
      rfl
    | cons d l₂ =>
      refine h.filled_of_next (l := l₁) (r := l₂ ++ b :: r) ?_ (hl d (by simp)).1
      rw [hbuilt, List.append_assoc]
      rfl
  rw [hbuilt] at hchain
  obtain ⟨hchainl, hfirst, -⟩ := chainFrom_append.1 hchain
  have hbefore : (l.map Built.image).flatten.length = b.first := by
    have hlength := hchainl.length_images
      (fun c hc => h.wellBuilt c (by rw [hbuilt]; simp [hc])) hfilled
    rw [Nat.zero_add] at hlength
    rw [hlength, hfirst]
  rw [hcontents, h.images hwhole, hbuilt, hbuilt', List.map_append, List.map_append, List.map_cons,
    List.map_cons, List.flatten_append, List.flatten_append, List.flatten_cons, List.flatten_cons,
    ← List.append_assoc, ← List.append_assoc]
  rcases hor with hfilledb | hfresh
  · exact hwrites.image_of_filled hb hfilledb hbefore _
  · -- nothing was created behind a fresh command
    cases r with
    | nil =>
      rw [List.map_nil, List.flatten_nil, List.append_nil, List.append_nil]
      exact hwrites.image_of_fresh hb hfresh hb' hbefore
    | cons d r =>
      have hd : d.afterFilled = true := (hr d List.mem_cons_self).1
      exact absurd (h.filled_of_next hbuilt hd) hfresh.not_filled

theorem Inv.write (h : s.Inv) (hbuilt : s.built = l ++ b :: r) (hbuilt' : s'.built = l ++ b' :: r)
    (hwrites : b.Writes off data b')
    (hcontents : s'.chan.file.contents = writeAt s.chan.file.contents off data)
    (hfits : off + data.length < 2 ^ 63) : s'.Inv := by
  have hb : b.WellBuilt := h.wellBuilt b (by rw [hbuilt]; simp)
  have hafter : (∀ b ∈ s'.built, b.afterFilled = true) ↔ ∀ b ∈ s.built, b.afterFilled = true := by
    rw [hbuilt, hbuilt']
    simp only [List.forall_mem_append, List.forall_mem_cons, hwrites.afterFilled_eq]
  refine ⟨?_, ?_, ?_, ?_, ?_, ?_, ?_⟩
  · have hwell := h.wellBuilt
    rw [hbuilt] at hwell
    rw [hbuilt']
    simp only [List.forall_mem_append, List.forall_mem_cons] at hwell ⊢
    exact ⟨hwell.1, hwrites.wellBuilt hb, hwell.2.2⟩
  · have hold := h.fits
    rw [hcontents]
    by_cases hdata : data = []
    · rw [hdata, writeAt_nil]
      exact hold
    · rw [length_writeAt_eq_max hdata]
      omega
  · intro hnil
    rw [hbuilt'] at hnil
    exact absurd hnil (by simp)
  · exact h.adjacent_write hbuilt hbuilt' hwrites
  · intro hall
    exact h.chain_write hbuilt hbuilt' hwrites hcontents (hafter.1 hall)
  · intro hseparate
    apply hafter.2
    apply h.separate
    rw [Separate, hbuilt'] at hseparate
    rw [Separate, hbuilt]
    rw [List.pairwise_append, List.pairwise_cons] at hseparate ⊢
    simp only [List.forall_mem_cons, hwrites.first_eq, hwrites.last_eq] at hseparate ⊢
    exact hseparate
  · exact h.images_write hbuilt hbuilt' hwrites hcontents

end Write

theorem Inv.step (h : s.Inv) {op : BuildOp} (hlegal : op.legal s)
    (hwhole : ∀ b ∈ s.built, b.Fits) (hstep : buildStep s op = some s') : s'.Inv := by
  rcases buildStep_cases hlegal hwhole hstep with
    ⟨structSize, regionSize, hsize, hbuilt, hcontents, hfits⟩ |
    ⟨l, b, r, off, data, b', hbuilt, hbuilt', hwrites, hcontents, hfits⟩
  · exact h.create hsize hbuilt hcontents hfits
  · exact h.write hbuilt hbuilt' hwrites hcontents hfits

theorem fits_of_set {bs : List Built} {i : Nat} {c c' : Built} (hc : bs[i]? = some c)
    (h : ∀ b ∈ bs.set i c', b.Fits) (hsame : c'.Fits → c.Fits) : ∀ b ∈ bs, b.Fits := by
  obtain ⟨l, r, rfl, hset⟩ := exists_split_of_getElem? hc
  rw [hset] at h
  simp only [List.forall_mem_append, List.forall_mem_cons] at h ⊢
  exact ⟨h.1, hsame h.2.1, h.2.2⟩

/-- The sizes of a command do not change. -/
theorem fits_of_step {op : BuildOp} (hstep : buildStep s op = some s')
    (hwhole : ∀ b ∈ s'.built, b.Fits) : ∀ b ∈ s.built, b.Fits := by
  cases op with
  | new structSize regionSize =>
    obtain ⟨r, -, hs'⟩ := Option.bind_eq_some_iff.1 hstep
    cases hs'
    exact fun b hb => hwhole b (List.mem_append_left _ hb)
  | attach i buffer =>
    obtain ⟨c, hc, hstep⟩ := Option.bind_eq_some_iff.1 hstep
    obtain ⟨r, -, hs'⟩ := Option.bind_eq_some_iff.1 hstep
    cases hs'
    exact fits_of_set hc hwhole fun h => h
  | send i struct =>
    obtain ⟨c, hc, hstep⟩ := Option.bind_eq_some_iff.1 hstep
    obtain ⟨r, -, hs'⟩ := Option.bind_eq_some_iff.1 hstep
    cases hs'
    exact fits_of_set hc hwhole fun h => h

/-- The invariant holds as long as the commands fit. -/
theorem inv_of_reaches (h : Reaches buildStep (fun s op => op.legal s) new s)
    (hwhole : ∀ b ∈ s.built, b.Fits) : s.Inv := by
  refine h.invariant (I := fun s => (∀ b ∈ s.built, b.Fits) → s.Inv) ?_ (fun _ => inv_new) hwhole
  intro s op s' hI hlegal hstep hwhole
  have hwhole := fits_of_step hstep hwhole
  exact (hI hwhole).step hlegal hwhole hstep

end LogBuild

/-! ## Sequential loads -/

section Loads

variable {chan : LogChannel} {offset : Int}

/-- Sequential loads read the records that follow each other up to the end of the file. -/
theorem sequentialLoads_records (before : Bytes) {cmds : List Bytes}
    (hcontents : chan.file.contents = before ++
      (cmds.map fun cmd => recordCommandMetadata cmd.length 0 ++ cmd).flatten)
    (hfits : chan.file.contents.length < 2 ^ 63)
    (hwhole : ∀ cmd ∈ cmds, cmd.length ≤ File.maxTransfer)
    (hoffset : chan.loadCommand offset = chan.loadCommand before.length) :
    chan.sequentialLoads offset (cmds.length + 1) =
      cmds.map (fun cmd => some (0, cmd)) ++ [none] := by
  induction cmds generalizing chan offset before with
  | nil =>
    rw [List.map_nil, List.flatten_nil, List.append_nil] at hcontents
    have hend := LogChannel.loadCommand_end (congrArg List.length hcontents)
    rw [List.length_nil, LogChannel.sequentialLoads, hoffset, hend.1]
    rfl
  | cons cmd cmds ih =>
    rw [List.map_cons, List.flatten_cons, ← List.append_assoc] at hcontents
    obtain ⟨hcmd, hcmds⟩ := List.forall_mem_cons.1 hwhole
    obtain ⟨hload, hread⟩ := LogChannel.loadCommand_record hcontents hfits (by decide) hcmd
    have hnext : (before ++ (recordCommandMetadata cmd.length 0 ++ cmd)).length =
        before.length + (metadataSize + cmd.length) := by
      rw [List.length_append, List.length_append, length_recordCommandMetadata]
    rw [List.length_cons, LogChannel.sequentialLoads, hoffset, hload, List.map_cons,
      List.cons_append]
    refine congrArg _ (ih (before ++ (recordCommandMetadata cmd.length 0 ++ cmd)) ?_ ?_ hcmds ?_)
    · rw [LogChannel.contents_loadCommand]
      exact hcontents
    · rw [LogChannel.contents_loadCommand]
      exact hfits
    · rw [hnext]
      exact LogChannel.loadCommand_of_neg (by decide) hread

/-- Sequential loads return nothing longer than what one `read` moves. -/
theorem length_le_of_sequentialLoads {n flags : Nat} {cmd : Bytes}
    (h : some (flags, cmd) ∈ chan.sequentialLoads offset n) : cmd.length ≤ File.maxTransfer := by
  induction n generalizing chan offset with
  | zero => cases h
  | succ n ih =>
    rw [LogChannel.sequentialLoads] at h
    rcases List.mem_cons.1 h with h | h
    · exact LogChannel.length_le_of_loadCommand h.symm
    · exact ih h

/-- Commands that sequential loads return take their room in the file. -/
theorem le_length_of_sequentialLoads (off : Nat) {cmds : List Bytes} (hne : cmds ≠ [])
    (hloads : chan.sequentialLoads offset (cmds.length + 1) =
      cmds.map (fun cmd => some (0, cmd)) ++ [none])
    (hfits : chan.file.contents.length < 2 ^ 63)
    (hoffset : chan.loadCommand offset = chan.loadCommand off) :
    off + (cmds.map fun cmd => metadataSize + cmd.length).sum ≤ chan.file.contents.length := by
  induction cmds generalizing chan offset off with
  | nil => exact absurd rfl hne
  | cons cmd cmds ih =>
    rw [List.length_cons, LogChannel.sequentialLoads, hoffset, List.map_cons, List.cons_append]
      at hloads
    obtain ⟨hload, hrest⟩ := List.cons.inj hloads
    obtain ⟨hle, hread⟩ := LogChannel.le_length_of_loadCommand hload hfits
    rw [List.map_cons, List.sum_cons]
    rcases eq_or_ne cmds [] with rfl | hne
    · exact hle
    · have hnext := ih _ hne hrest (by rwa [LogChannel.contents_loadCommand])
        (LogChannel.loadCommand_of_neg (by decide) hread)
      rw [LogChannel.contents_loadCommand] at hnext
      omega

end Loads

/-! ## When the commands load back -/

/-- The command that a load of a filled and sent record returns. -/
theorem Built.isLoaded_of_filled {b : Built} {struct : Bytes} (hb : b.WellBuilt)
    (hfilled : b.Filled) (hsent : b.sent = some struct) : b.IsLoaded (struct ++ b.region) := by
  have hstruct := hb.sent struct hsent
  have hattached := Built.attachedSize_of_filled hfilled hb
  refine ⟨?_, ?_, ?_⟩
  · rw [List.length_append, hstruct, Built.length_region, hattached]
  · rw [hsent, ← hstruct, slice_zero_append]
  · intro p hp
    rw [hb.ids p hp, ← hstruct]
    by_cases hempty : p.2 = []
    · rw [hempty]
      exact List.take_zero
    · -- a buffer that is not empty is the whole region
      have hlength := Built.length_of_filled hp hempty hfilled hb
      have hslice := slice_append_right struct b.region 0 p.2.length
      rw [Nat.add_zero] at hslice
      rw [hslice, Built.region_eq_of_length hp hlength, slice_zero_length]

namespace LogBuild

variable {s : LogBuild}

/-- Filled commands, each created when the one before was filled, load back. -/
theorem Inv.loadsBack (h : s.Inv) (hsent : ∀ b ∈ s.built, b.sent.isSome = true)
    (hwhole : ∀ b ∈ s.built, b.Fits)
    (hfilled : ∀ b ∈ s.built, b.Filled ∧ b.afterFilled = true) : s.LoadsBack := by
  have himages := h.images fun b hb => ⟨(hfilled b hb).2, .inl (hfilled b hb).1⟩
  refine ⟨s.built.map fun b => b.sent.getD [] ++ b.region, ?_, ?_⟩
  · have hrecords : s.built.map Built.image =
        (s.built.map fun b => b.sent.getD [] ++ b.region).map fun cmd =>
          recordCommandMetadata cmd.length 0 ++ cmd := by
      rw [List.map_map]
      apply List.map_congr_left
      intro b hb
      obtain ⟨struct, hstruct⟩ := Option.isSome_iff_exists.1 (hsent b hb)
      have hlength :=
        (Built.isLoaded_of_filled (h.wellBuilt b hb) (hfilled b hb).1 hstruct).1
      rw [Built.image_of_filled (hfilled b hb).1, hstruct, Function.comp_apply]
      simp only [Option.getD_some, hstruct, hlength]
    rw [hrecords] at himages
    have hzero : s.chan.loadCommand 0 = s.chan.loadCommand ([] : Bytes).length := rfl
    have hlengths : ∀ cmd ∈ s.built.map fun b => b.sent.getD [] ++ b.region,
        cmd.length ≤ File.maxTransfer := by
      rintro cmd hcmd
      obtain ⟨b, hb, rfl⟩ := List.mem_map.1 hcmd
      obtain ⟨struct, hstruct⟩ := Option.isSome_iff_exists.1 (hsent b hb)
      rw [hstruct, Option.getD_some,
        (Built.isLoaded_of_filled (h.wellBuilt b hb) (hfilled b hb).1 hstruct).1]
      exact hwhole b hb
    have hloads := sequentialLoads_records [] himages h.fits hlengths hzero
    rwa [List.length_map] at hloads
  · rw [List.forall₂_map_right_iff, List.forall₂_same]
    intro b hb
    obtain ⟨struct, hstruct⟩ := Option.isSome_iff_exists.1 (hsent b hb)
    rw [hstruct]
    exact Built.isLoaded_of_filled (h.wellBuilt b hb) (hfilled b hb).1 hstruct

theorem LoadsBack.first_isSome (h : s.LoadsBack) (hne : s.built ≠ []) :
    (s.chan.loadCommand 0).1.isSome = true := by
  obtain ⟨cmds, hloads, hloaded⟩ := h
  cases cmds with
  | nil => exact absurd (List.forall₂_nil_right_iff.1 hloaded) hne
  | cons cmd cmds =>
    rw [(List.cons.inj hloads).1]
    rfl

theorem LoadsBack.fits (h : s.LoadsBack) : ∀ b ∈ s.built, b.Fits := by
  obtain ⟨cmds, hloads, hloaded⟩ := h
  have hlengths : ∀ cmd ∈ cmds, cmd.length ≤ File.maxTransfer := by
    intro cmd hcmd
    have hmem : some (0, cmd) ∈ s.chan.sequentialLoads 0 (s.built.length + 1) := by
      rw [hloads]
      exact List.mem_append_left _ (List.mem_map.2 ⟨cmd, hcmd, rfl⟩)
    exact length_le_of_sequentialLoads hmem
  clear hloads
  generalize s.built = bs at hloaded
  induction hloaded with
  | nil => exact fun _ hb => absurd hb List.not_mem_nil
  | cons hb _ ih =>
    rw [List.forall_mem_cons] at hlengths ⊢
    exact ⟨by rw [Built.Fits, ← hb.1]; exact hlengths.1, ih hlengths.2⟩

theorem chain_length {n : Nat} {bs : List Built} {cmds : List Bytes} (hchain : ChainFrom n bs)
    (hwell : ∀ b ∈ bs, b.WellBuilt) (hcmds : List.Forall₂ Built.IsLoaded bs cmds) :
    n + (cmds.map fun cmd => metadataSize + cmd.length).sum = chainEnd n bs := by
  induction hcmds generalizing n with
  | nil => rfl
  | @cons b cmd bs cmds hb _ ih =>
    have hrest := ih hchain.2 fun c hc => hwell c (List.mem_cons_of_mem b hc)
    have hstart := (hwell b List.mem_cons_self).start
    have hroom : b.last = n + (metadataSize + cmd.length) := by
      have hfirst := hchain.1
      rw [Built.first] at hfirst
      rw [Built.last, hb.1]
      omega
    rw [chainEnd_cons, ← hrest, hroom, List.map_cons, List.sum_cons, Nat.add_assoc n]

/-- Commands in separate records that load back are filled. -/
theorem Inv.filled_of_loadsBack (h : s.Inv) (hseparate : s.Separate) (hloads : s.LoadsBack) :
    ∀ b ∈ s.built, b.Filled ∧ b.afterFilled = true := by
  have hafter := h.separate hseparate
  obtain ⟨hchain, hlast⟩ := h.chain hafter
  obtain ⟨cmds, hcmds, hloaded⟩ := hloads
  have hlastFilled : LastFilled s.built := by
    intro b hb
    obtain ⟨-, hle, hfilled⟩ := hlast b hb
    apply hfilled.2
    -- the loads have found room for all the records
    rw [hloaded.length_eq] at hcmds
    have hne : cmds ≠ [] := by
      rintro rfl
      have hnil := List.eq_nil_of_length_eq_zero hloaded.length_eq
      rw [hnil] at hb
      cases hb
    have hroom := le_length_of_sequentialLoads 0 hne hcmds h.fits rfl
    rw [chain_length hchain h.wellBuilt hloaded, chainEnd, hb] at hroom
    exact Nat.le_antisymm hle hroom
  exact fun b hb => ⟨h.all_filled hafter hlastFilled b hb, hafter b hb⟩

end LogBuild

/-- The commands built on the log by any interleaved operations are apart and load back as sent if
and only if the data region of each was filled by one buffer, each was created when the one before it
was filled, and none is longer than what one `read` moves. -/
theorem logBuild_loadsBack_iff {s : LogBuild}
    (h : Reaches buildStep (fun s op => op.legal s) LogBuild.new s)
    (hsent : ∀ b ∈ s.built, b.sent.isSome = true) :
    s.Separate ∧ s.LoadsBack ↔
      ∀ b ∈ s.built, (b.Filled ∧ b.afterFilled = true) ∧
        b.structSize + b.regionSize ≤ File.maxTransfer := by
  constructor
  · rintro ⟨hseparate, hloads⟩ b hb
    have hs := LogBuild.inv_of_reaches h hloads.fits
    exact ⟨hs.filled_of_loadsBack hseparate hloads b hb, hloads.fits b hb⟩
  · intro hfilled
    have hwhole : ∀ b ∈ s.built, b.Fits := fun b hb => (hfilled b hb).2
    have hs := LogBuild.inv_of_reaches h hwhole
    refine ⟨?_, hs.loadsBack hsent hwhole fun b hb => (hfilled b hb).1⟩
    have hchain := (hs.chain fun b hb => (hfilled b hb).1.2).1
    exact hchain.pairwise.imp Or.inl

/-- The struct of a command without arguments. -/
def plainStruct (d : Log.Draft) (regionSize : Nat) : Bytes :=
  (CommandBase.new commandBaseSize regionSize d.reservedArea d.length_reservedArea).encode

set_option maxRecDepth 8000 in
/-- The case of two commands, the second one created before the first is sent. -/
theorem logBuild_loadsBack_two :
    ∃ s : LogBuild,
      runGuarded buildStep (fun s op => op.legal s) .new
        [.new 136 2, .attach 0 [1, 2], .new 136 0, .send 1 (plainStruct ⟨170, 306⟩ 0),
          .send 0 (plainStruct ⟨16, 152⟩ 2)] = some s ∧
      s.built.length = 2 ∧ s.Separate ∧ s.LoadsBack := by
  refine ⟨_, rfl, rfl, ?_⟩
  refine (logBuild_loadsBack_iff (Reaches.of_runGuarded
    [.new 136 2, .attach 0 [1, 2], .new 136 0, .send 1 (plainStruct ⟨170, 306⟩ 0),
      .send 0 (plainStruct ⟨16, 152⟩ 2)] rfl) ?_).2 ?_
  · decide
  · decide

set_option maxRecDepth 8000 in
/-- Two buffers of one byte each are attached to a command whose data region has two bytes. The
second one is written over the first, the file ends before the record does, and the command is not
loaded. -/
theorem logBuild_two_buffers_not_loaded :
    ∃ s : LogBuild, Reaches buildStep (fun s op => op.legal s) LogBuild.new s ∧
      (∀ b ∈ s.built, b.sent.isSome = true) ∧
      (s.built.map Built.buffers = [[(136, [1]), (136, [2])]]) ∧
      s.chan.file.contents[152]? = some 2 ∧
      s.chan.sequentialLoads 0 1 = [none] ∧ ¬ s.LoadsBack := by
  refine ⟨_, Reaches.of_runGuarded
    [.new 136 2, .attach 0 [1], .attach 0 [2], .send 0 (plainStruct ⟨16, 152⟩ 2)] rfl,
    by decide, rfl, rfl, by decide, ?_⟩
  intro hloads
  exact absurd (hloads.first_isSome (List.cons_ne_nil _ _)) (by decide)

end Ava.Channel
