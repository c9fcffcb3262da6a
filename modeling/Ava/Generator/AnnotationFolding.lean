import Ava.Generator.AnnotationMerge
import Ava.Generator.ExprMeaning
import Mathlib.Data.List.DropRight

/-!
# Annotations that are the same on every path

Merging does not always put a conditional expression together. It takes one of the branches if the
predicate is a constant or if both branches have the same text, and it takes the predicate itself if
the branches are 1 and 0. `Block.uniform` is what the statements of a block give to an annotation if
that is the same text on every path, and `Block.merged` is what reading the block leaves;
`tracks_merged` says that a constant is left only where it is given on every path.
-/

set_option autoImplicit false

namespace Ava.Generator

open Ava.Lib Ava.Lib.CText

/-! ## Texts of values -/

theorem strip_strip (code : Code) : strip (strip code) = strip code := by
  have hhead : (strip code).dropWhile isSpace = strip code := by
    rw [List.dropWhile_eq_self_iff]
    intro hl
    have hstart : strip code <+: code.dropWhile isSpace := List.rdropWhile_prefix _ _
    rw [hstart.getElem hl]
    exact List.dropWhile_eq_self_iff.1 (List.dropWhile_idempotent _ _) _
  calc strip (strip code)
      _ = ((strip code).dropWhile isSpace).rdropWhile isSpace := rfl
      _ = (strip code).rdropWhile isSpace := by rw [hhead]
      _ = strip code := List.rdropWhile_idempotent _ _

/-- `str` and `Expr` of a value that is merged as an expression. -/
def AnnotationValue.texts (v : AnnotationValue) : Code × Expr := v.asText.getD ([], .new [])

/-- The text of the value is a word or number for this truth value. -/
def AnnotationValue.Says (v : AnnotationValue) (r : Bool) : Prop :=
  constantValue (strip v.texts.1) = some (.int (ofBool r))

section Texts

variable {v w : AnnotationValue} {r : Bool}

/-- `str` and `Expr` are taken for the same constant. -/
theorem constantValue_texts (v : AnnotationValue) :
    constantValue (strip v.texts.2.code) = constantValue (strip v.texts.1) := by
  cases v with
  | flag b => cases b <;> rfl
  | number digits => exact congrArg constantValue (strip_strip _)
  | text pieces => exact congrArg constantValue (strip_strip _)
  | _ => rfl

theorem strip_of_constant {c : Code} {a : Constant} (h : constantValue c = some a) :
    strip c = c := by
  unfold constantValue at h
  split at h
  · rfl
  · cases h

theorem says_of_constant (h : constantValue v.texts.2.code = some (.int (ofBool r))) :
    v.Says r := by
  rw [AnnotationValue.Says, ← constantValue_texts, strip_of_constant h, h]

theorem says_of_isTrue (h : v.texts.2.isTrue = true) : v.Says true :=
  says_of_constant (of_decide_eq_true h)

theorem says_of_isFalse (h : v.texts.2.isFalse = true) : v.Says false :=
  says_of_constant (of_decide_eq_true h)

theorem AnnotationValue.Says.of_expr (h : (AnnotationValue.expr v.texts.2).Says r) : v.Says r := by
  rw [AnnotationValue.Says, ← constantValue_texts]
  exact h

theorem AnnotationValue.Says.not_false (h : v.Says true) : ¬ v.Says false := by
  intro hfalse
  cases h.symm.trans hfalse

theorem AnnotationValue.Says.of_text_eq (h : v.Says r) (htext : v.texts.1 = w.texts.1) :
    w.Says r := by
  rw [AnnotationValue.Says, ← htext]
  exact h

end Texts

/-! ## What is left, and what is given on every path -/

/-- What merging leaves, given what the branches have. -/
def mergedWith (predicate : Code) (d : AnnotationValue) (a b : Option AnnotationValue) :
    Option AnnotationValue :=
  if a.isSome || b.isSome then
    some (.expr (ifThenElseStr (.new predicate) (a.getD d).texts (b.getD d).texts))
  else none

/-- One of the branches, if it is not by chance which one. -/
def uniformChoice (c : Expr) : Option (Code × Expr) → Option (Code × Expr) → Option Expr
  | some x, some y =>
    if c.isTrue || decide (x.1 = y.1) then some x.2 else if c.isFalse then some y.2 else none
  | some x, none => if c.isTrue then some x.2 else none
  | none, some y => if c.isFalse then some y.2 else none
  | none, none => none

/-- What an `if` statement gives on every path, if anything. A block that sets nothing gives
`some none`. -/
def uniformWith (predicate : Code) (d : AnnotationValue) :
    Option (Option AnnotationValue) → Option (Option AnnotationValue) →
      Option (Option AnnotationValue)
  | some none, some none => some none
  | s, t =>
    (uniformChoice (.new predicate) (s.map fun v => (v.getD d).texts)
      (t.map fun v => (v.getD d).texts)).map fun e => some (.expr e)

/-- A statement, and the rest of the block. -/
def uniformFirst : Option (Option AnnotationValue) → Option (Option AnnotationValue) →
    Option (Option AnnotationValue)
  | some none, t => t
  | s, _ => s

namespace Block

variable (d : AnnotationValue)

/-- What reading a block leaves for an annotation that is merged as an expression. -/
def merged : Block → AnnotationKey → Option AnnotationValue
  | .nil, _ => none
  | .annotate name text _ rest, k => (declaredAt name text k).or (rest.merged k)
  | .scope kind body _ rest, k =>
    ((AnnotationSet.above kind.component k).bind body.merged).or (rest.merged k)
  | .branch predicate thenBranch elseBranch _ rest, k =>
    (mergedWith predicate d (thenBranch.merged k) (elseBranch.merged k)).or (rest.merged k)

/-- What the statements of a block give to an annotation, if that is the same text whatever the
predicates are. -/
def uniform : Block → AnnotationKey → Option (Option AnnotationValue)
  | .nil, _ => some none
  | .annotate name text _ rest, k => uniformFirst (some (declaredAt name text k)) (rest.uniform k)
  | .scope kind body _ rest, k =>
    uniformFirst ((AnnotationSet.above kind.component k).elim (some none) body.uniform)
      (rest.uniform k)
  | .branch predicate thenBranch elseBranch _ rest, k =>
    uniformFirst (uniformWith predicate d (thenBranch.uniform k) (elseBranch.uniform k))
      (rest.uniform k)

end Block

/-- What is given on every path, and what is left: both are nothing, or none of them is, and they
are the same if one of them is a constant. -/
structure Tracks (d : AnnotationValue) (s : Option (Option AnnotationValue))
    (o : Option AnnotationValue) : Prop where
  none_iff : s = some none ↔ o = none
  eq_of_says : ∀ v r, s = some v → (v.getD d).Says r → o = v
  of_says : ∀ r, (o.getD d).Says r → s = some o

section Tracks

variable {d : AnnotationValue} {s t : Option (Option AnnotationValue)}
  {o p : Option AnnotationValue}

theorem tracks_some (d : AnnotationValue) (o : Option AnnotationValue) : Tracks d (some o) o := by
  refine ⟨Option.some_inj, ?_, fun r _ => rfl⟩
  rintro v r ⟨⟩ -
  rfl

theorem Tracks.exists_some (h : Tracks d s o) (hs : s ≠ some none) : ∃ v, o = some v := by
  cases o with
  | none => exact absurd (h.none_iff.2 rfl) hs
  | some v => exact ⟨v, rfl⟩

theorem Tracks.first (h : Tracks d s o) (h' : Tracks d t p) :
    Tracks d (uniformFirst s t) (o.or p) := by
  by_cases hs : s = some none
  · rw [h.none_iff.1 hs, hs, Option.none_or]
    exact h'
  · obtain ⟨v, rfl⟩ := h.exists_some hs
    have hfirst : uniformFirst s t = s := by
      rcases s with - | - | w
      · rfl
      · exact absurd rfl hs
      · rfl
    rw [hfirst, Option.some_or]
    exact h

theorem isTrue_eq_false {c : Expr} (h : c.isFalse = true) : c.isTrue = false := by
  rw [Expr.isFalse, decide_eq_true_eq] at h
  rw [Expr.isTrue, h]
  rfl

/-- The texts that are chosen from are those of what is left, if the choice is a constant. -/
theorem Tracks.eq_choice {c e : Expr} {r : Bool} (h : Tracks d s o) (h' : Tracks d t p)
    (he : (AnnotationValue.expr e).Says r)
    (hchoice : uniformChoice c (s.map fun v => (v.getD d).texts)
      (t.map fun v => (v.getD d).texts) = some e) :
    ifThenElseStr c (o.getD d).texts (p.getD d).texts = e := by
  have hsaid : ∀ v : Option AnnotationValue, (v.getD d).texts.2 = e → (v.getD d).Says r := by
    rintro v rfl
    exact he.of_expr
  -- the other branch has another text, or it would be given on every path as well
  have hother : ∀ w, t = some w → (w.getD d).texts.2 = e → c.isFalse = true →
      (∀ v, s = some v → (v.getD d).texts.1 ≠ (w.getD d).texts.1) →
      ifThenElseStr c (o.getD d).texts (p.getD d).texts = e := by
    rintro w hw hwe hfalse hne
    obtain rfl := h'.eq_of_says w r hw (hsaid w hwe)
    rw [ifThenElseStr, isTrue_eq_false hfalse, Bool.false_or, if_neg, if_pos hfalse, hwe]
    rw [decide_eq_true_eq]
    intro hsame
    exact hne o (h.of_says r ((hsaid p hwe).of_text_eq hsame.symm)) hsame
  rcases s with - | v <;> rcases t with - | w <;> dsimp only [Option.map, uniformChoice] at hchoice
  · cases hchoice
  · split_ifs at hchoice with hfalse
    exact hother w rfl (Option.some.inj hchoice) hfalse fun v hv => by cases hv
  · split_ifs at hchoice with htrue
    obtain rfl := h.eq_of_says v r rfl (hsaid v (Option.some.inj hchoice))
    rw [ifThenElseStr, htrue]
    exact Option.some.inj hchoice
  · split_ifs at hchoice with hfirst hfalse
    · have hv := hsaid v (Option.some.inj hchoice)
      obtain rfl := h.eq_of_says v r rfl hv
      rcases Bool.or_eq_true_iff.1 hfirst with htrue | hsame
      · rw [ifThenElseStr, htrue]
        exact Option.some.inj hchoice
      · have hw := hv.of_text_eq (of_decide_eq_true hsame)
        obtain rfl := h'.eq_of_says w r rfl hw
        rw [ifThenElseStr, if_pos hfirst]
        exact Option.some.inj hchoice
    · refine hother w rfl (Option.some.inj hchoice) hfalse ?_
      rintro _ ⟨⟩ hsame
      exact hfirst (by simp [hsame])

/-- A constant is not put together by merging. -/
theorem Tracks.choice_eq {predicate : Code} {r : Bool} (h : Tracks d s o) (h' : Tracks d t p)
    (hsaid : (AnnotationValue.expr
      (ifThenElseStr (.new predicate) (o.getD d).texts (p.getD d).texts)).Says r) :
    uniformChoice (.new predicate) (s.map fun v => (v.getD d).texts)
      (t.map fun v => (v.getD d).texts) =
      some (ifThenElseStr (.new predicate) (o.getD d).texts (p.getD d).texts) := by
  rw [ifThenElseStr] at hsaid ⊢
  split_ifs at hsaid ⊢ with hfirst hfalse hfold
  · have ho := hsaid.of_expr
    rw [h.of_says r ho]
    rcases Bool.or_eq_true_iff.1 hfirst with htrue | hsame
    · cases t with
      | none => simp [uniformChoice, htrue]
      | some w => simp [uniformChoice, htrue]
    · rw [h'.of_says r (ho.of_text_eq (of_decide_eq_true hsame))]
      simp [uniformChoice, hfirst]
  · have hp := hsaid.of_expr
    rw [h'.of_says r hp]
    cases s with
    | none => simp [uniformChoice, hfalse]
    | some v =>
      have hne : ((Expr.new predicate).isTrue ||
          decide ((v.getD d).texts.1 = (p.getD d).texts.1)) ≠ true := by
        intro hsame
        rw [isTrue_eq_false hfalse, Bool.false_or, decide_eq_true_eq] at hsame
        -- then the first branch is that constant too, and has the same text
        obtain rfl := h.eq_of_says v r rfl (hp.of_text_eq hsame.symm)
        exact hfirst (by simp [hsame])
      simp only [Option.map_some, uniformChoice, if_neg hne, if_pos hfalse]
  · -- the predicate is not a constant
    have hcode : constantValue (Expr.new predicate).code = some (.int (ofBool r)) :=
      (congrArg constantValue (strip_strip predicate)).symm.trans hsaid
    cases r with
    | false => exact absurd (decide_eq_true hcode) hfalse
    | true => exact absurd (by simp [Expr.isTrue, hcode, ofBool]) hfirst
  · -- neither is a conditional expression
    have hmem : Item.enclosed .choice
        ([.token .space] ++ (o.getD d).texts.2.group.code ++ [.token .space]) ∈
        conditional (Expr.new predicate).group.code (o.getD d).texts.2.group.code
          (p.getD d).texts.2.group.code := by simp [conditional]
    have hnone := constantValue_eq_none (mem_strip (mem_strip hmem rfl) rfl) fun _ h => by cases h
    change constantValue (strip (Expr.newIn _ _).code) = _ at hsaid
    rw [newIn_code] at hsaid
    cases hnone.symm.trans hsaid

theorem Tracks.merge (predicate : Code) (h : Tracks d s o) (h' : Tracks d t p) :
    Tracks d (uniformWith predicate d s t) (mergedWith predicate d o p) := by
  by_cases hboth : s = some none ∧ t = some none
  · rw [h.none_iff.1 hboth.1, h'.none_iff.1 hboth.2, hboth.1, hboth.2]
    exact tracks_some d none
  · have huniform : uniformWith predicate d s t =
        (uniformChoice (.new predicate) (s.map fun v => (v.getD d).texts)
          (t.map fun v => (v.getD d).texts)).map fun e => some (.expr e) := by
      rw [uniformWith]
      rintro rfl rfl
      exact hboth ⟨rfl, rfl⟩
    have hsome : (o.isSome || p.isSome) = true := by
      rw [Bool.or_eq_true, Option.isSome_iff_exists, Option.isSome_iff_exists]
      by_cases hs : s = some none
      · exact .inr (h'.exists_some fun ht => hboth ⟨hs, ht⟩)
      · exact .inl (h.exists_some hs)
    rw [huniform, mergedWith, if_pos hsome]
    refine ⟨iff_of_false (fun hnone => ?_) (fun hnone => by cases hnone), ?_, fun r hr => ?_⟩
    · obtain ⟨e, -, he⟩ := Option.map_eq_some_iff.1 hnone
      cases he
    · intro v r hv hr
      obtain ⟨e, he, rfl⟩ := Option.map_eq_some_iff.1 hv
      rw [h.eq_choice h' hr he]
    · rw [h.choice_eq h' hr]
      rfl

end Tracks

/-- Reading a block leaves a constant only where it is given on every path. -/
theorem tracks_merged (d : AnnotationValue) (b : Block) (k : AnnotationKey) :
    Tracks d (b.uniform d k) (b.merged d k) := by
  induction b generalizing k with
  | nil => exact tracks_some d none
  | annotate name text refs rest ih => exact (tracks_some d _).first (ih k)
  | scope kind body refs rest ihbody ih =>
    refine Tracks.first ?_ (ih k)
    cases AnnotationSet.above kind.component k with
    | none => exact tracks_some d none
    | some l => exact ihbody l
  | branch predicate thenBranch elseBranch refs rest ihthen ihelse ih =>
    exact ((ihthen k).merge predicate (ihelse k)).first (ih k)

end Ava.Generator
