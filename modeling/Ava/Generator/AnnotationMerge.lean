import Ava.Generator.AnnotationBlocks

/-!
# Merging the annotations of branches

Merging fails for two kinds of keys. `unsupported` is combinable, with the default `False`, but it
has no parser, so that what is set is a string, which cannot be added to `False`: it fails if only
the first branch sets it. `ava_field` declares a variable that is taken for an annotation without a
default: it fails if only one branch has a block for a field.

`leaves_extractAt` says what reading a block leaves at a key: it fails only where branches cannot be
merged, it leaves a value where some statement sets one, and a combinable annotation has the
elements that any statement gives to it.
-/

set_option autoImplicit false

namespace Ava.Generator

open Ava.Lib Ava.Lib.CText

/-! ## Values that fit their names -/

/-- The name has a default, or is that of a field block. -/
def AnnotationName.HasDefault (name : AnnotationName) : Prop :=
  (∃ d, defaultAnnotations name = some d) ∨ ∃ field, name = .fieldBlock field

/-- The kind of value that a declaration gives to an annotation. -/
def AnnotationName.Fits : AnnotationName → AnnotationValue → Prop
  | .dependsOn, v => ∃ s, v = .names s
  | .objectDependsOn, v => ∃ s, v = .exprs s
  | .unsupported, v => ∃ pieces, v = .text pieces
  | .typeCast, _ => True
  | _, v => ∃ x, v.asText = some x

/-- What is at a key, if anything, is of the right kind. -/
def FitsAt (k : AnnotationKey) (old : Option AnnotationValue) : Prop :=
  ∀ v, old = some v → k.tail.Fits v

/-- The elements of a combinable annotation: names, or texts. -/
def AnnotationValue.elements : AnnotationValue → Finset (String ⊕ Code)
  | .names s => s.image Sum.inl
  | .exprs s => s.image Sum.inr
  | .text pieces => pieces.toFinset.image Sum.inr
  | _ => ∅

def elementsOf (old : Option AnnotationValue) : Finset (String ⊕ Code) :=
  old.elim ∅ AnnotationValue.elements

theorem fitsAt_none (k : AnnotationKey) : FitsAt k none := by
  intro v hv
  cases hv

theorem fitsAt_some {k : AnnotationKey} {v : AnnotationValue} :
    FitsAt k (some v) ↔ k.tail.Fits v := by
  constructor
  · exact fun h => h v rfl
  · intro h w hw
    cases hw
    exact h

section Values

variable {name : AnnotationName} {v w d : AnnotationValue}

theorem asBool_eq_ok {c : Code} (h : AnnotationText.asBool c = .ok v) : ∃ b, v = .flag b := by
  unfold AnnotationText.asBool at h
  split at h
  · split_ifs at h
    cases h
    exact ⟨_, rfl⟩
  · cases h

variable {text : AnnotationText}

theorem asStringSet_eq_ok (h : text.asStringSet = .ok v) : ∃ s, v = .names s := by
  cases text with
  | literal names =>
    cases h
    exact ⟨_, rfl⟩
  | code c => cases h
  | declared type => cases h

theorem fits_of_parsed {c : Code} (h : annotationParser name text c = .ok v) : name.Fits v := by
  cases name
  case dependsOn => exact asStringSet_eq_ok h
  case typeCast => exact trivial
  case objectRecord | input | output | noCopy | allocates | deallocates | userdata
    | generateTimingCode =>
      obtain ⟨b, rfl⟩ := asBool_eq_ok h
      exact ⟨_, rfl⟩
  all_goals
    cases h
    exact ⟨_, rfl⟩

theorem fits_of_declared (h : declaredValue name text = .ok v) : name.Fits v := by
  cases text with
  | code c => exact fits_of_parsed h
  | literal names => exact fits_of_parsed h
  | declared type =>
    change (if name = .typeCast then _ else _) = _ at h
    split_ifs at h with hname
    rw [hname]
    exact trivial

/-- What is merged as an expression has a text. -/
theorem fits_iff_asText (hname : name.combinable = false) (hcast : name ≠ .typeCast) :
    name.Fits v ↔ ∃ x, v.asText = some x := by
  cases name <;> first | rfl | exact absurd rfl hcast | cases hname

theorem fits_default (hd : defaultAnnotations name = some d) (hname : name ≠ .unsupported) :
    name.Fits d := by
  cases name <;> first | exact absurd rfl hname | cases hd
  all_goals first | exact trivial | exact ⟨_, rfl⟩

theorem ne_unsupported (hname : name.combinable = false) : name ≠ .unsupported := by
  rintro rfl
  cases hname

/-- The combinable names with a default. -/
theorem combinable_cases (hname : name.combinable = true)
    (hd : defaultAnnotations name = some d) :
    (name = .dependsOn ∧ d = .names ∅) ∨ (name = .objectDependsOn ∧ d = .exprs ∅) ∨
      (name = .unsupported ∧ d = .flag false) := by
  cases name <;> cases hname <;> cases hd <;> simp

theorem AnnotationName.HasDefault.exists_default (h : name.HasDefault)
    (hname : name.combinable = true) : ∃ d, defaultAnnotations name = some d := by
  refine h.resolve_right ?_
  rintro ⟨field, rfl⟩
  cases hname

theorem combine_fits (hname : name.combinable = true) (hd : defaultAnnotations name = some d)
    (hv : name.Fits v) (hw : name.Fits w) :
    ∃ u, v.combine w = .ok u ∧ name.Fits u ∧ u.elements = v.elements ∪ w.elements := by
  rcases combinable_cases hname hd with ⟨rfl, -⟩ | ⟨rfl, -⟩ | ⟨rfl, -⟩
  all_goals
    obtain ⟨s, rfl⟩ := hv
    obtain ⟨t, rfl⟩ := hw
    refine ⟨_, rfl, ⟨_, rfl⟩, ?_⟩
    simp [AnnotationValue.elements, Finset.image_union]

/-- The default adds nothing to what comes after it. -/
theorem combine_default (hname : name.combinable = true) (hd : defaultAnnotations name = some d)
    (hv : name.Fits v ∨ v = d) : d.combine v = .ok v := by
  rcases combinable_cases hname hd with ⟨rfl, rfl⟩ | ⟨rfl, rfl⟩ | ⟨rfl, rfl⟩
  · obtain ⟨s, rfl⟩ : ∃ s, v = .names s := hv.elim id fun h => ⟨∅, h⟩
    rw [AnnotationValue.combine, Finset.empty_union]
  · obtain ⟨s, rfl⟩ : ∃ s, v = .exprs s := hv.elim id fun h => ⟨∅, h⟩
    rw [AnnotationValue.combine, Finset.empty_union]
  · rfl

theorem elements_default (hname : name.combinable = true)
    (hd : defaultAnnotations name = some d) : d.elements = ∅ := by
  rcases combinable_cases hname hd with ⟨rfl, rfl⟩ | ⟨rfl, rfl⟩ | ⟨rfl, rfl⟩ <;> rfl

end Values

/-! ## Setting and merging fitting values -/

section Keys

variable {k : AnnotationKey} {v d : AnnotationValue} {a b old : Option AnnotationValue}

theorem getValue_none (hd : defaultAnnotations k.tail = some d) : getValue k none = .ok d := by
  rw [getValue, hd]

theorem setValue_of_combinable (h : k.tail.combinable = true) (v : AnnotationValue)
    (old : Option AnnotationValue) :
    setValue k v old = (getValue k old).bind fun t => t.combine v := if_pos h

theorem setValue_none (h : k.tail.combinable = false) (v : AnnotationValue) :
    setValue k v none = .ok v := by
  rw [setValue, h]
  rfl

/-- Setting a fitting value succeeds, unless there is one that cannot be combined with it. -/
theorem setValue_fits (hname : k.tail.HasDefault) (hv : k.tail.Fits v) (hold : FitsAt k old)
    (honce : k.tail.combinable = false → old = none) :
    ∃ w, setValue k v old = .ok w ∧ k.tail.Fits w ∧ w.elements = elementsOf old ∪ v.elements ∧
      (old = none → w = v) := by
  cases hc : k.tail.combinable with
  | false =>
    rw [honce hc, setValue_none hc]
    exact ⟨v, rfl, hv, (Finset.empty_union _).symm, fun _ => rfl⟩
  | true =>
    obtain ⟨d, hd⟩ := hname.exists_default hc
    rw [setValue_of_combinable hc]
    cases old with
    | none =>
      -- the value is combined with the default
      rw [getValue_none hd]
      refine ⟨v, combine_default hc hd (.inl hv), hv, ?_, fun _ => rfl⟩
      exact (Finset.empty_union _).symm
    | some t =>
      obtain ⟨w, hw, hfits, helements⟩ := combine_fits hc hd (fitsAt_some.1 hold) hv
      exact ⟨w, hw, hfits, helements, nofun⟩

/-! ## Merging -/

variable (predicate : Code)

/-- The branches of an `if` statement can be merged at a key, given whether they set it. -/
def Mergeable (k : AnnotationKey) (inThen inElse : Prop) : Prop :=
  (k.tail = .unsupported → inThen → inElse) ∧
    ∀ field, k.tail = .fieldBlock field → (inThen ↔ inElse)

theorem getValue_eq (hd : defaultAnnotations k.tail = some d) (a : Option AnnotationValue) :
    getValue k a = .ok (a.getD d) := by
  cases a with
  | none => exact getValue_none hd
  | some v => rfl

theorem FitsAt.getD (ha : FitsAt k a) (hd : defaultAnnotations k.tail = some d)
    (hname : k.tail ≠ .unsupported) : k.tail.Fits (a.getD d) := by
  cases a with
  | none => exact fits_default hd hname
  | some v => exact fitsAt_some.1 ha

theorem mergeValue_combinable (hc : k.tail.combinable = true)
    (hd : defaultAnnotations k.tail = some d) (ha : FitsAt k a) :
    mergeValue predicate k a b none = (a.getD d).combine (b.getD d) := by
  have hcast : k.tail ≠ .typeCast := by
    intro h
    rw [h] at hc
    cases hc
  -- the first assignment is to a key that is not there yet
  have hfirst : setValue k (a.getD d) none = .ok (a.getD d) := by
    rw [setValue_of_combinable hc, getValue_none hd]
    refine combine_default hc hd ?_
    cases a with
    | none => exact .inr rfl
    | some v => exact .inl (fitsAt_some.1 ha)
  rw [mergeValue, getValue_eq hd, getValue_eq hd]
  change (if _ then _ else if _ then _ else _) = _
  rw [if_neg hcast, if_pos hc, hfirst]
  exact setValue_of_combinable hc _ _

theorem mergeValue_typeCast (h : k.tail = .typeCast) :
    mergeValue predicate k a b none =
      .ok (.conditional predicate (a.getD .none) (b.getD .none)) := by
  have hd : defaultAnnotations k.tail = some .none := by rw [h]; rfl
  have hc : k.tail.combinable = false := by rw [h]; rfl
  rw [mergeValue, getValue_eq hd, getValue_eq hd]
  change (if _ then _ else _) = _
  rw [if_pos h]
  exact setValue_none hc _

theorem mergeValue_asText (hc : k.tail.combinable = false) (hcast : k.tail ≠ .typeCast)
    {w : AnnotationValue} {x y : Code × Expr} (hv : getValue k a = .ok v)
    (hw : getValue k b = .ok w) (hx : v.asText = some x) (hy : w.asText = some y) :
    mergeValue predicate k a b none = .ok (.expr (ifThenElseStr (.new predicate) x y)) := by
  simp only [mergeValue, hv, hw, Except.bind, if_neg hcast, hc, Bool.false_eq_true, if_false, hx,
    hy]
  exact setValue_none hc _

theorem mergeable_iff (hd : defaultAnnotations k.tail = some d) {inThen inElse : Prop} :
    Mergeable k inThen inElse ↔ (k.tail = .unsupported → inThen → inElse) := by
  refine and_iff_left fun field hfield => ?_
  rw [hfield] at hd
  cases hd

theorem mergeable_of_both {inThen inElse : Prop} (hthen : inThen) (helse : inElse) :
    Mergeable k inThen inElse := ⟨fun _ _ => helse, fun _ _ => iff_of_true hthen helse⟩

/-- Merging a combinable annotation fails for `unsupported` only. -/
theorem mergeValue_combinable_cases (hc : k.tail.combinable = true)
    (hd : defaultAnnotations k.tail = some d) (ha : FitsAt k a) (hb : FitsAt k b)
    (hset : a.isSome = true ∨ b.isSome = true) :
    (Mergeable k (a.isSome = true) (b.isSome = true) ∧
      ∃ w, mergeValue predicate k a b none = .ok w ∧ k.tail.Fits w ∧
        w.elements = elementsOf a ∪ elementsOf b) ∨
    (¬ Mergeable k (a.isSome = true) (b.isSome = true) ∧
      ∃ e, mergeValue predicate k a b none = .error e) := by
  rw [mergeValue_combinable predicate hc hd ha]
  rcases a with - | v <;> rcases b with - | w
  · simp at hset
  · have hw := fitsAt_some.1 hb
    refine .inl ⟨(mergeable_iff hd).2 fun _ h => (by cases h), w, ?_, hw, ?_⟩
    · exact combine_default hc hd (.inl hw)
    · exact (Finset.empty_union _).symm
  · have hv := fitsAt_some.1 ha
    by_cases hname : k.tail = .unsupported
    · -- a string and the default `False`
      refine .inr ⟨fun h => by simpa using h.1 hname rfl, .typeError, ?_⟩
      rw [hname] at hv hd
      obtain ⟨pieces, rfl⟩ := hv
      cases hd
      rfl
    · obtain ⟨u, hu, hfits, helements⟩ := combine_fits hc hd hv (fits_default hd hname)
      refine .inl ⟨(mergeable_iff hd).2 fun h => absurd h hname, u, hu, hfits, ?_⟩
      rw [helements, elements_default hc hd]
      rfl
  · obtain ⟨u, hu, hfits, helements⟩ :=
      combine_fits hc hd (fitsAt_some.1 ha) (fitsAt_some.1 hb)
    exact .inl ⟨mergeable_of_both rfl rfl, u, hu, hfits, helements⟩

/-- Merging any other annotation fails only for a field block that one branch does not have. -/
theorem mergeValue_single_cases (hc : k.tail.combinable = false) (hname : k.tail.HasDefault)
    (ha : FitsAt k a) (hb : FitsAt k b) (hset : a.isSome = true ∨ b.isSome = true) :
    (Mergeable k (a.isSome = true) (b.isSome = true) ∧
      ∃ w, mergeValue predicate k a b none = .ok w ∧ k.tail.Fits w) ∨
    (¬ Mergeable k (a.isSome = true) (b.isSome = true) ∧
      ∃ e, mergeValue predicate k a b none = .error e) := by
  have hunsupported := ne_unsupported hc
  by_cases hcast : k.tail = .typeCast
  · have hd : defaultAnnotations k.tail = some .none := by rw [hcast]; rfl
    refine .inl ⟨(mergeable_iff hd).2 fun h => absurd h hunsupported, _,
      mergeValue_typeCast predicate hcast, ?_⟩
    rw [hcast]
    exact trivial
  -- two values with texts become an expression
  have hmerged : ∀ v w, getValue k a = .ok v → getValue k b = .ok w → k.tail.Fits v →
      k.tail.Fits w → ∃ u, mergeValue predicate k a b none = .ok u ∧ k.tail.Fits u := by
    intro v w hv hw hfv hfw
    obtain ⟨x, hx⟩ := (fits_iff_asText hc hcast).1 hfv
    obtain ⟨y, hy⟩ := (fits_iff_asText hc hcast).1 hfw
    exact ⟨_, mergeValue_asText predicate hc hcast hv hw hx hy,
      (fits_iff_asText hc hcast).2 ⟨_, rfl⟩⟩
  rcases hname with ⟨d, hd⟩ | ⟨field, hfield⟩
  · exact .inl ⟨(mergeable_iff hd).2 fun h => absurd h hunsupported,
      hmerged _ _ (getValue_eq hd a) (getValue_eq hd b) (ha.getD hd hunsupported)
        (hb.getD hd hunsupported)⟩
  · -- there is no default to merge with
    have hnone : getValue k none = .error .keyError := by
      rw [getValue, hfield]
      rfl
    rcases a with - | v <;> rcases b with - | w
    · simp at hset
    · refine .inr ⟨fun h => by simpa using h.2 field hfield, .keyError, ?_⟩
      rw [mergeValue, hnone]
      rfl
    · refine .inr ⟨fun h => by simpa using h.2 field hfield, .keyError, ?_⟩
      rw [mergeValue, hnone]
      change (if _ then _ else if _ then _ else _) = _
      rw [if_neg hcast, hc]
      rfl
    · exact .inl ⟨mergeable_of_both rfl rfl,
        hmerged v w rfl rfl (fitsAt_some.1 ha) (fitsAt_some.1 hb)⟩

end Keys

/-! ## What a computation leaves at a key -/

/-- What a computation leaves at a key where there was `old`: it succeeds if `good`; then the value
fits, there is one if there was or the computation `sets` one, and it is the old one if not. A
combinable annotation gets the new `elements`. -/
structure Leaves (k : AnnotationKey) (old : Option AnnotationValue)
    (r : Except AnnotationError (Option AnnotationValue)) (good sets : Prop)
    (elements : Finset (String ⊕ Code)) : Prop where
  ok_iff : (∃ o, r = .ok o) ↔ good
  fits : ∀ o, r = .ok o → FitsAt k o
  isSome_iff : ∀ o, r = .ok o → (o.isSome = true ↔ old.isSome = true ∨ sets)
  keeps : ∀ o, r = .ok o → ¬ sets → o = old
  union : ∀ o, r = .ok o → k.tail.combinable = true → elementsOf o = elementsOf old ∪ elements

section Leaves

variable {k : AnnotationKey} {old o : Option AnnotationValue}
  {r : Except AnnotationError (Option AnnotationValue)} {good sets : Prop}
  {elements : Finset (String ⊕ Code)}

theorem leaves_ok (hgood : good) (hfits : FitsAt k o)
    (hsome : o.isSome = true ↔ old.isSome = true ∨ sets) (hkeeps : ¬ sets → o = old)
    (hunion : k.tail.combinable = true → elementsOf o = elementsOf old ∪ elements) :
    Leaves k old (.ok o) good sets elements where
  ok_iff := iff_of_true ⟨o, rfl⟩ hgood
  fits := by
    rintro _ ⟨⟩
    exact hfits
  isSome_iff := by
    rintro _ ⟨⟩
    exact hsome
  keeps := by
    rintro _ ⟨⟩
    exact hkeeps
  union := by
    rintro _ ⟨⟩
    exact hunion

theorem leaves_error (e : AnnotationError) (hgood : ¬ good) :
    Leaves k old (.error e) good sets elements where
  ok_iff := iff_of_false (fun ⟨_, h⟩ => by cases h) hgood
  fits := nofun
  isSome_iff := nofun
  keeps := nofun
  union := nofun

theorem Leaves.not_good {e : AnnotationError} (h : Leaves k old (.error e) good sets elements) :
    ¬ good := by
  intro hgood
  obtain ⟨o, ho⟩ := h.ok_iff.2 hgood
  cases ho

theorem leaves_old (hold : FitsAt k old) : Leaves k old (.ok old) True False ∅ := by
  refine leaves_ok trivial hold (by simp) (fun _ => rfl) fun _ => ?_
  exact (Finset.union_empty _).symm

/-- Two computations in a row. The second one may rely on what the first one leaves. -/
theorem Leaves.bind (h : Leaves k old r good sets elements)
    {next : Option AnnotationValue → Except AnnotationError (Option AnnotationValue)}
    {good' sets' : Prop} {elements' : Finset (String ⊕ Code)}
    (hnext : ∀ o, r = .ok o → FitsAt k o → Leaves k o (next o) good' sets' elements') :
    Leaves k old (r.bind next) (good ∧ good') (sets ∨ sets') (elements ∪ elements') := by
  cases r with
  | error e => exact leaves_error e fun hgood => h.not_good hgood.1
  | ok o =>
    have hgood : good := h.ok_iff.1 ⟨o, rfl⟩
    have ho := hnext o rfl (h.fits o rfl)
    change Leaves k old (next o) _ _ _
    refine ⟨ho.ok_iff.trans (by simp [hgood]), ho.fits, fun u hu => ?_, fun u hu hnot => ?_,
      fun u hu hc => ?_⟩
    · rw [ho.isSome_iff u hu, h.isSome_iff o rfl, or_assoc]
    · rw [not_or] at hnot
      rw [ho.keeps u hu hnot.2, h.keeps o rfl hnot.1]
    · rw [ho.union u hu hc, h.union o rfl hc, Finset.union_assoc]

theorem Leaves.congr (h : Leaves k old r good sets elements) {good' sets' : Prop}
    {elements' : Finset (String ⊕ Code)} (hgood : good ↔ good') (hsets : sets ↔ sets')
    (helements : elements = elements') : Leaves k old r good' sets' elements' := by
  rw [← hgood, ← hsets, ← helements]
  exact h

theorem Leaves.union_none (h : Leaves k none r good sets elements) (ho : r = .ok o)
    (hc : k.tail.combinable = true) : elementsOf o = elements :=
  (h.union o ho hc).trans (Finset.empty_union _)

/-- Setting what a computation leaves at a fresh key. -/
theorem Leaves.update (h : Leaves k none r good sets elements)
    (hname : sets → k.tail.HasDefault) (hold : FitsAt k old)
    (honce : k.tail.combinable = false → sets → old = none) :
    Leaves k old (r.bind fun v => AnnotationSet.updateAt k v old) good sets elements := by
  cases r with
  | error e => exact leaves_error e h.not_good
  | ok v =>
    have hgood : good := h.ok_iff.1 ⟨v, rfl⟩
    have hsome := h.isSome_iff v rfl
    have hunion := h.union_none (o := v) rfl
    cases v with
    | none =>
      have hsets : ¬ sets := fun hs => by simpa using hsome.2 (.inr hs)
      refine leaves_ok hgood hold (by simp [hsets]) (fun _ => rfl) fun hc => ?_
      rw [← hunion hc]
      exact (Finset.union_empty _).symm
    | some v =>
      have hsets : sets := by simpa using hsome.1 rfl
      obtain ⟨w, hw, hfits, helements, -⟩ := setValue_fits (hname hsets)
        (fitsAt_some.1 (h.fits _ rfl)) hold fun hc => honce hc hsets
      change Leaves k old ((setValue k v old).map some) _ _ _
      rw [hw]
      refine leaves_ok hgood (fitsAt_some.2 hfits) (by simp [hsets])
        (fun hnot => absurd hsets hnot) fun hc => ?_
      change w.elements = _
      rw [helements, ← hunion hc]
      rfl

theorem leaves_mergeAt (predicate : Code) {a b : Option AnnotationValue} (ha : FitsAt k a)
    (hb : FitsAt k b) (hname : a.isSome = true ∨ b.isSome = true → k.tail.HasDefault) :
    Leaves k none (AnnotationSet.mergeAt predicate k a b)
      (Mergeable k (a.isSome = true) (b.isSome = true)) (a.isSome = true ∨ b.isSome = true)
      (elementsOf a ∪ elementsOf b) := by
  by_cases hset : a.isSome = true ∨ b.isSome = true
  · rw [AnnotationSet.mergeAt, if_pos (by simpa using hset)]
    cases hc : k.tail.combinable with
    | true =>
      obtain ⟨d, hd⟩ := (hname hset).exists_default hc
      rcases mergeValue_combinable_cases predicate hc hd ha hb hset with
        ⟨hgood, w, hw, hfits, helements⟩ | ⟨hgood, e, he⟩
      · rw [hw]
        refine leaves_ok hgood (fitsAt_some.2 hfits) (by simp [hset])
          (fun hnot => absurd hset hnot) fun _ => ?_
        exact helements.trans (Finset.empty_union _).symm
      · rw [he]
        exact leaves_error e hgood
    | false =>
      rcases mergeValue_single_cases predicate hc (hname hset) ha hb hset with
        ⟨hgood, w, hw, hfits⟩ | ⟨hgood, e, he⟩
      · rw [hw]
        refine leaves_ok hgood (fitsAt_some.2 hfits) (by simp [hset])
          (fun hnot => absurd hset hnot) fun hc' => ?_
        rw [hc] at hc'
        cases hc'
      · rw [he]
        exact leaves_error e hgood
  · rw [AnnotationSet.mergeAt, if_neg (by simpa using hset)]
    rw [not_or, Option.not_isSome_iff_eq_none, Option.not_isSome_iff_eq_none] at hset
    rw [hset.1, hset.2]
    refine leaves_ok ⟨fun _ h => h, fun _ _ => Iff.rfl⟩ (fitsAt_none k) (by simp) (fun _ => rfl) ?_
    exact fun _ => rfl

end Leaves

/-! ## Blocks -/

/-- The value that a declaration gives to a key. -/
def declaredAt (name : AnnotationName) (text : AnnotationText) (k : AnnotationKey) :
    Option AnnotationValue :=
  if k = ⟨[], name⟩ then (declaredValue name text).toOption else none

/-- What the parameters of a statement add to a key. -/
def refsAt (refs : Finset String) (k : AnnotationKey) : Finset (String ⊕ Code) :=
  if k = dependsOnKey then refs.image Sum.inl else ∅

namespace Block

/-- Some statement of the block sets the key; an `if` statement sets what its branches set. -/
def Sets : Block → AnnotationKey → Prop
  | .nil, _ => False
  | .annotate name _ _ rest, k => k = dependsOnKey ∨ k = ⟨[], name⟩ ∨ rest.Sets k
  | .scope kind body _ rest, k =>
    k = dependsOnKey ∨ (∃ l, AnnotationSet.above kind.component k = some l ∧ body.Sets l) ∨
      rest.Sets k
  | .branch _ thenBranch elseBranch _ rest, k =>
    k = dependsOnKey ∨ (thenBranch.Sets k ∨ elseBranch.Sets k) ∨ rest.Sets k

/-- Every declaration has a value, and every annotation a default. -/
def Proper : Block → Prop
  | .nil => True
  | .annotate name text _ rest =>
    (∃ v, declaredValue name text = .ok v) ∧ name.HasDefault ∧ rest.Proper
  | .scope _ body _ rest => body.Proper ∧ rest.Proper
  | .branch _ thenBranch elseBranch _ rest =>
    thenBranch.Proper ∧ elseBranch.Proper ∧ rest.Proper

/-- Each annotation that cannot be combined is set by at most one statement of each block. -/
def Once : Block → Prop
  | .nil => True
  | .annotate name _ _ rest => (name.combinable = false → ¬ rest.Sets ⟨[], name⟩) ∧ rest.Once
  | .scope kind body _ rest =>
    (∀ l, l.tail.combinable = false → body.Sets l →
      ¬ rest.Sets (AnnotationSet.below kind.component l)) ∧ body.Once ∧ rest.Once
  | .branch _ thenBranch elseBranch _ rest =>
    (∀ k, k.tail.combinable = false → thenBranch.Sets k ∨ elseBranch.Sets k → ¬ rest.Sets k) ∧
      thenBranch.Once ∧ elseBranch.Once ∧ rest.Once

/-- The branches of every `if` statement can be merged at the key. -/
def BalancedAt : Block → AnnotationKey → Prop
  | .nil, _ => True
  | .annotate _ _ _ rest, k => rest.BalancedAt k
  | .scope kind body _ rest, k =>
    (∀ l, AnnotationSet.above kind.component k = some l → body.BalancedAt l) ∧ rest.BalancedAt k
  | .branch _ thenBranch elseBranch _ rest, k =>
    ((thenBranch.BalancedAt k ∧ elseBranch.BalancedAt k) ∧
      Mergeable k (thenBranch.Sets k) (elseBranch.Sets k)) ∧ rest.BalancedAt k

/-- In every `if` statement, the second branch has `unsupported` wherever the first one does, and
both have blocks for the same fields. -/
def Balanced (b : Block) : Prop := ∀ k, b.BalancedAt k

/-- The elements that all statements of the block together give to a combinable annotation, on
whatever path they are. -/
def union : Block → AnnotationKey → Finset (String ⊕ Code)
  | .nil, _ => ∅
  | .annotate name text refs rest, k =>
    refsAt refs k ∪ (elementsOf (declaredAt name text k) ∪ rest.union k)
  | .scope kind body refs rest, k =>
    refsAt refs k ∪
      ((AnnotationSet.above kind.component k).elim ∅ body.union ∪ rest.union k)
  | .branch _ thenBranch elseBranch refs rest, k =>
    refsAt refs k ∪ ((thenBranch.union k ∪ elseBranch.union k) ∪ rest.union k)

end Block

section Reading

variable {k : AnnotationKey} {old : Option AnnotationValue}

theorem above_tail {c : Component} {l : AnnotationKey} (h : AnnotationSet.above c k = some l) :
    l.tail = k.tail := by
  rw [AnnotationSet.above_eq_some.1 h]
  rfl

theorem Block.Proper.hasDefault {b : Block} (h : b.Proper) (hsets : b.Sets k) :
    k.tail.HasDefault := by
  have hdependsOn : k = dependsOnKey → k.tail.HasDefault := by
    rintro rfl
    exact .inl ⟨_, rfl⟩
  induction b generalizing k with
  | nil => exact hsets.elim
  | annotate name text refs rest ih =>
    rcases hsets with hk | rfl | hsets
    · exact hdependsOn hk
    · exact h.2.1
    · exact ih h.2.2 hsets hdependsOn
  | scope kind body refs rest ihbody ih =>
    rcases hsets with hk | ⟨l, hl, hsets⟩ | hsets
    · exact hdependsOn hk
    · rw [← above_tail hl]
      refine ihbody h.1 hsets ?_
      rintro rfl
      exact .inl ⟨_, rfl⟩
    · exact ih h.2 hsets hdependsOn
  | branch predicate thenBranch elseBranch refs rest ihthen ihelse ih =>
    rcases hsets with hk | (hsets | hsets) | hsets
    · exact hdependsOn hk
    · exact ihthen h.1 hsets hdependsOn
    · exact ihelse h.2.1 hsets hdependsOn
    · exact ih h.2.2 hsets hdependsOn

theorem leaves_addRefsAt (refs : Finset String) (hold : FitsAt k old) :
    Leaves k old (addRefsAt refs k old) True (k = dependsOnKey) (refsAt refs k) := by
  rw [addRefsAt, refsAt]
  split_ifs with hk
  · subst hk
    obtain ⟨s, hs, helements⟩ : ∃ s, getValue dependsOnKey old = .ok (.names s) ∧
        elementsOf old = s.image Sum.inl := by
      cases old with
      | none => exact ⟨∅, rfl, rfl⟩
      | some v =>
        obtain ⟨s, rfl⟩ := fitsAt_some.1 hold
        exact ⟨s, rfl, rfl⟩
    obtain ⟨w, hw, hfits, hunion, -⟩ := setValue_fits (k := dependsOnKey)
      (v := .names (refs ∪ s)) (.inl ⟨_, rfl⟩) ⟨_, rfl⟩ hold nofun
    have hvalue : addRefsValue refs old = .ok w := by
      rw [addRefsValue, hs]
      exact hw
    rw [hvalue]
    refine leaves_ok trivial (fitsAt_some.2 hfits) (by simp) (fun h => absurd rfl h) fun _ => ?_
    change w.elements = _
    rw [hunion, helements, AnnotationValue.elements, Finset.image_union, Finset.union_comm,
      Finset.union_assoc, Finset.union_self, Finset.union_comm]
  · exact (leaves_old hold).congr Iff.rfl (by simp [hk]) rfl

theorem leaves_declaredAt {name : AnnotationName} {text : AnnotationText} {v : AnnotationValue}
    (hv : declaredValue name text = .ok v) (k : AnnotationKey) :
    Leaves k none (.ok (declaredAt name text k)) True (k = ⟨[], name⟩)
      (elementsOf (declaredAt name text k)) := by
  rw [declaredAt, hv]
  split_ifs with hk
  · subst hk
    refine leaves_ok trivial (fitsAt_some.2 (fits_of_declared hv)) (by simp [Except.toOption])
      (fun h => absurd rfl h) fun _ => ?_
    exact (Finset.empty_union _).symm
  · exact (leaves_old (fitsAt_none k)).congr Iff.rfl (by simp [hk]) rfl

/-- The annotations of a block that is pushed down. -/
theorem leaves_pushedAt {c : Component}
    {inner : AnnotationKey → Except AnnotationError (Option AnnotationValue)}
    {good sets : AnnotationKey → Prop} {elements : AnnotationKey → Finset (String ⊕ Code)}
    (hinner : ∀ l, Leaves l none (inner l) (good l) (sets l) (elements l))
    (hname : ∀ l, sets l → l.tail.HasDefault) (k : AnnotationKey) :
    Leaves k none (pushedAt c k inner) (∀ l, AnnotationSet.above c k = some l → good l)
      (∃ l, AnnotationSet.above c k = some l ∧ sets l)
      ((AnnotationSet.above c k).elim ∅ elements) := by
  rw [pushedAt]
  cases hk : AnnotationSet.above c k with
  | none => exact (leaves_old (fitsAt_none k)).congr (by simp) (by simp) rfl
  | some l =>
    have hl := (hinner l).update (hname l) (fitsAt_none l) fun _ _ => rfl
    have hk' : Leaves k none ((inner l).bind fun v => AnnotationSet.updateAt k v none)
        (good l) (sets l) (elements l) := by
      -- only the name of a key counts
      rw [AnnotationSet.above_eq_some.1 hk]
      exact ⟨hl.ok_iff, hl.fits, hl.isSome_iff, hl.keeps, hl.union⟩
    exact hk'.congr (by simp) (by simp) rfl

/-- The annotations of the branches of an `if` statement. -/
theorem leaves_branchAt (predicate : Code)
    {first second : Except AnnotationError (Option AnnotationValue)} {good sets good' sets' : Prop}
    {elements elements' : Finset (String ⊕ Code)}
    (hfirst : Leaves k none first good sets elements)
    (hsecond : Leaves k none second good' sets' elements')
    (hname : sets ∨ sets' → k.tail.HasDefault) :
    Leaves k none (first.bind fun a => second.bind fun b => AnnotationSet.mergeAt predicate k a b)
      ((good ∧ good') ∧ Mergeable k sets sets') (sets ∨ sets') (elements ∪ elements') := by
  cases first with
  | error e => exact leaves_error e fun hgood => hfirst.not_good hgood.1.1
  | ok a =>
    cases second with
    | error e => exact leaves_error e fun hgood => hsecond.not_good hgood.1.2
    | ok b =>
      have hgood : good ∧ good' := ⟨hfirst.ok_iff.1 ⟨a, rfl⟩, hsecond.ok_iff.1 ⟨b, rfl⟩⟩
      have ha : a.isSome = true ↔ sets := by simpa using hfirst.isSome_iff a rfl
      have hb : b.isSome = true ↔ sets' := by simpa using hsecond.isSome_iff b rfl
      have hmerge := leaves_mergeAt predicate (hfirst.fits a rfl) (hsecond.fits b rfl)
        (by rwa [ha, hb])
      rw [ha, hb] at hmerge
      refine ⟨hmerge.ok_iff.trans (by simp [hgood]), hmerge.fits, hmerge.isSome_iff,
        hmerge.keeps, fun o ho hc => ?_⟩
      rw [hmerge.union o ho hc, hfirst.union_none rfl hc, hsecond.union_none rfl hc]

/-- One statement, and the rest of the block. -/
theorem leaves_statement (refs : Finset String)
    {r : Except AnnotationError (Option AnnotationValue)}
    {next : Option AnnotationValue → Except AnnotationError (Option AnnotationValue)}
    {good sets good' sets' : Prop} {elements elements' : Finset (String ⊕ Code)}
    (hold : FitsAt k old) (hr : Leaves k none r good sets elements)
    (hname : sets → k.tail.HasDefault)
    (hnext : ∀ o, FitsAt k o → (k.tail.combinable = false → sets' → o = none) →
      Leaves k o (next o) good' sets' elements')
    (hdisjoint : k.tail.combinable = false → sets → ¬ sets')
    (honce : k.tail.combinable = false → k = dependsOnKey ∨ sets ∨ sets' → old = none) :
    Leaves k old ((addRefsAt refs k old).bind fun o =>
        r.bind fun v => (AnnotationSet.updateAt k v o).bind next)
      (good ∧ good') (k = dependsOnKey ∨ sets ∨ sets')
      (refsAt refs k ∪ (elements ∪ elements')) := by
  have hrefs := leaves_addRefsAt refs hold
  -- `depends_on` is combinable, so the parameters do not count for the other kind of key
  have hkept : ∀ o, addRefsAt refs k old = .ok o → k.tail.combinable = false → o = old := by
    intro o ho hc
    refine hrefs.keeps o ho ?_
    rintro rfl
    cases hc
  have hrest : ∀ o, addRefsAt refs k old = .ok o → FitsAt k o →
      Leaves k o (r.bind fun v => (AnnotationSet.updateAt k v o).bind next) (good ∧ good')
        (sets ∨ sets') (elements ∪ elements') := by
    intro o ho hfits
    have hassoc : (r.bind fun v => (AnnotationSet.updateAt k v o).bind next) =
        (r.bind fun v => AnnotationSet.updateAt k v o).bind next := by
      cases r <;> rfl
    rw [hassoc]
    have hset := hr.update hname hfits fun hc hsets => by
      rw [hkept o ho hc, honce hc (.inr (.inl hsets))]
    -- if the rest sets the key, then this statement does not
    refine hset.bind fun u hu hfits' => hnext u hfits' fun hc hsets' => ?_
    rw [hset.keeps u hu fun hsets => hdisjoint hc hsets hsets', hkept o ho hc,
      honce hc (.inr (.inr hsets'))]
  exact (hrefs.bind hrest).congr (and_iff_right trivial) Iff.rfl rfl

/-- A declaration is a statement like the others. -/
theorem extractAt_annotate {name : AnnotationName} {text : AnnotationText} {v : AnnotationValue}
    (hv : declaredValue name text = .ok v) (refs : Finset String) (rest : Block) :
    extractAt k old (.annotate name text refs rest) =
      (addRefsAt refs k old).bind fun o => (Except.ok (declaredAt name text k)).bind fun v =>
        (AnnotationSet.updateAt k v o).bind fun o => extractAt k o rest := by
  rw [extractAt, hv, declaredAt, hv]
  congr 1
  funext o
  change (declareAt name v k o).bind _ = (AnnotationSet.updateAt k _ o).bind _
  rw [declareAt]
  split_ifs <;> rfl

/-- What reading a block leaves at a key. -/
theorem leaves_extractAt {b : Block} (hproper : b.Proper) (hblock : b.Once) (hold : FitsAt k old)
    (honce : k.tail.combinable = false → b.Sets k → old = none) :
    Leaves k old (extractAt k old b) (b.BalancedAt k) (b.Sets k) (b.union k) := by
  induction b generalizing k old with
  | nil => exact leaves_old hold
  | annotate name text refs rest ih =>
    obtain ⟨⟨v, hv⟩, hname, hproper⟩ := hproper
    have hstatement := leaves_statement refs hold (leaves_declaredAt hv k)
      (fun hk => hk ▸ hname) (fun o => ih hproper hblock.2)
      (by rintro hc rfl; exact hblock.1 hc) honce
    rw [extractAt_annotate hv]
    exact hstatement.congr (and_iff_right trivial) Iff.rfl rfl
  | scope kind body refs rest ihbody ih =>
    refine leaves_statement refs hold ?_ ?_ (fun o => ih hproper.2 hblock.2.2) ?_ honce
    · exact leaves_pushedAt (fun l => ihbody hproper.1 hblock.2.1 (fitsAt_none l) fun _ _ => rfl)
        (fun l => hproper.1.hasDefault) k
    · rintro ⟨l, hl, hsets⟩
      rw [← above_tail hl]
      exact hproper.1.hasDefault hsets
    · rintro hc ⟨l, hl, hsets⟩
      rw [AnnotationSet.above_eq_some.1 hl]
      rw [← above_tail hl] at hc
      exact hblock.1 l hc hsets
  | branch predicate thenBranch elseBranch refs rest ihthen ihelse ih =>
    obtain ⟨hthen, helse, hrest⟩ := hproper
    have hname : thenBranch.Sets k ∨ elseBranch.Sets k → k.tail.HasDefault :=
      fun h => h.elim hthen.hasDefault helse.hasDefault
    refine leaves_statement refs hold ?_ hname (fun o => ih hrest hblock.2.2.2) (hblock.1 k) honce
    exact leaves_branchAt predicate (ihthen hthen hblock.2.1 (fitsAt_none k) fun _ _ => rfl)
      (ihelse helse hblock.2.2.1 (fitsAt_none k) fun _ _ => rfl) hname

end Reading

end Ava.Generator
