import Ava.Generator.AnnotationFolding

/-!
# What annotation blocks mean

The predicates of a block choose a path through its `if` statements. An annotation of the merged set
should evaluate to what is set on that path, or to its default; the combinable annotations should
have what is set on any path.

`conditional_annotations_iff` says that this is so exactly for the blocks whose branches can be
merged, and in which a predicate that is taken in place of the branches 1 and 0 is 0 or 1 itself.
-/

set_option autoImplicit false

namespace Ava.Generator

open Ava.Lib Ava.Lib.CText

/-! ## Constants -/

/-- Words for truth values have those values in C. -/
def Environment.Truthful (env : Environment) : Prop :=
  ∀ value spelling, env.word value spelling = ofBool value

section Constants

variable {env : Environment}

theorem le_foldl_digits (digits : List (Fin 10)) (n : Nat) :
    n ≤ digits.foldl (fun n d => 10 * n + d.val) n := by
  induction digits generalizing n with
  | nil => exact le_rfl
  | cons d digits ih =>
    have hd := ih (10 * n + d)
    rw [List.foldl_cons]
    omega

/-- Numbers up to 1 are spelled the same way in octal. -/
theorem foldl_octal {digits : List (Fin 10)} {n : Nat}
    (h : digits.foldl (fun n d => 10 * n + d.val) n ≤ 1) :
    (∀ e ∈ digits, e < 8) ∧
      digits.foldl (fun n d => 8 * n + d.val) n = digits.foldl (fun n d => 10 * n + d.val) n := by
  induction digits generalizing n with
  | nil => exact ⟨by simp, rfl⟩
  | cons d digits ih =>
    rw [List.foldl_cons] at h
    -- only zeros can come before the last digit
    have hle := le_foldl_digits digits (10 * n + d)
    have hn : n = 0 := by omega
    have hd : d.val < 8 := by omega
    obtain ⟨hsmall, heq⟩ := ih h
    subst hn
    refine ⟨?_, heq⟩
    intro e he
    rcases List.mem_cons.1 he with rfl | he
    · exact hd
    · exact hsmall e he

theorem ofDigits_eq (base : Nat) (digits : List (Fin 10)) :
    ofDigits base digits = digits.foldl (fun n d => base * n + d.val) 0 := by
  change (digits.flatMap fun d => [d.val]).foldl _ _ = _
  rw [← List.map_eq_flatMap, List.foldl_map]

theorem ofDigits_zero_cons (base : Nat) (digits : List (Fin 10)) :
    ofDigits base (0 :: digits) = ofDigits base digits := by
  simp [ofDigits_eq]

theorem literal_eq_of_le_one {digits : List (Fin 10)} (hdigits : digits ≠ [])
    (h : ofDigits 10 digits ≤ 1) : literal digits = some (ofDigits 10 digits) := by
  cases digits with
  | nil => exact absurd rfl hdigits
  | cons d digits =>
    rw [literal]
    split_ifs with hd hsmall
    · rfl
    · rw [not_not.1 hd, ofDigits_zero_cons, ofDigits_eq] at h
      rw [not_not.1 hd, ofDigits_zero_cons, ofDigits_eq, ofDigits_eq]
      exact congrArg some (foldl_octal h).2
    · rw [not_not.1 hd, ofDigits_zero_cons, ofDigits_eq] at h
      exact absurd (foldl_octal h).1 hsmall

/-- C and Python agree on 0 and 1. -/
theorem valueOf_of_constant (henv : env.Truthful) {c : Code} {r : Bool}
    (h : constantValue c = some (.int (ofBool r))) : valueOf env.meaning c = some (ofBool r) := by
  unfold constantValue at h
  split at h
  · rename_i a
    rw [valueOf_atom]
    change env.atom a = _
    cases a with
    | number sign digits =>
      rw [Atom.constant] at h
      split_ifs at h with hdigits
      have hsign : sign.apply (ofDigits 10 digits) = ofBool r := by simpa using h
      have hle : ofDigits 10 digits ≤ 1 := by
        cases sign <;> cases r <;> simp [Sign.apply, ofBool] at hsign <;> omega
      rw [Environment.atom, literal_eq_of_le_one hdigits hle, Option.map_some, hsign]
    | word value spelling =>
      rw [Environment.atom, henv]
      simpa [Atom.constant] using h
    | known name => cases h
    | other spelling => cases h
  · cases h

theorem value_of_isTrue (henv : env.Truthful) {e : Expr} (h : e.isTrue = true) :
    e.value env = some 1 := valueOf_of_constant (r := true) henv (of_decide_eq_true h)

theorem value_of_isFalse (henv : env.Truthful) {e : Expr} (h : e.isFalse = true) :
    e.value env = some 0 := valueOf_of_constant (r := false) henv (of_decide_eq_true h)

end Constants

/-! ## Values in C -/

/-- The value of an annotation as a C expression. -/
def AnnotationValue.value (env : Environment) (v : AnnotationValue) : Option Int :=
  v.asText.bind fun x => x.2.value env

section Values

variable {env : Environment}

/-- `str` and `Expr` of a value mean the same. -/
theorem value_texts (henv : env.Truthful) {v : AnnotationValue} {m : Int}
    (h : v.value env = some m) :
    valueOf env.meaning v.texts.1 = some m ∧ v.texts.2.value env = some m := by
  cases v with
  | flag b =>
    have hm : some (ofBool b) = some m := (value_ofBool b).symm.trans h
    exact ⟨(valueOf_atom (congrArg some (henv b _))).trans hm, h⟩
  | number digits => exact ⟨(value_new _).symm.trans h, h⟩
  | text pieces => exact ⟨(value_new _).symm.trans h, h⟩
  | expr e => exact ⟨h, h⟩
  | names s => cases h
  | exprs s => cases h
  | none => cases h
  | ctype spelling => cases h
  | conditional predicate thenBranch elseBranch => cases h

/-- A merged annotation has the value of the branch that the predicate chooses, unless the branches
are 1 and 0. -/
theorem value_ifThenElseStr (henv : env.Truthful) {predicate : Code} {z : Int}
    (hpredicate : valueOf env.meaning predicate = some z) {x y : Code × Expr} {v w : Int}
    (hx : valueOf env.meaning x.1 = some v ∧ x.2.value env = some v)
    (hy : valueOf env.meaning y.1 = some w ∧ y.2.value env = some w) :
    (ifThenElseStr (.new predicate) x y).value env =
      some (if x.2.isTrue && y.2.isFalse then z else chosen z v w) := by
  have hc : (Expr.new predicate).value env = some z := (value_new predicate).trans hpredicate
  have hbranches : (x.2.isTrue && y.2.isFalse) = true → v = 1 ∧ w = 0 := by
    intro h
    obtain ⟨htrue, hfalse⟩ := Bool.and_eq_true_iff.1 h
    exact ⟨Option.some.inj (hx.2.symm.trans (value_of_isTrue henv htrue)),
      Option.some.inj (hy.2.symm.trans (value_of_isFalse henv hfalse))⟩
  rw [ifThenElseStr]
  split_ifs with hfirst hfold hsecond hfold'
  · -- the predicate is 1, or the branches have the same text
    obtain ⟨rfl, rfl⟩ := hbranches hfold
    rcases Bool.or_eq_true_iff.1 hfirst with htrue | hsame
    · rw [hx.2, ← value_of_isTrue henv htrue, hc]
    · rw [of_decide_eq_true hsame] at hx
      cases hx.1.symm.trans hy.1
  · rw [hx.2]
    rcases Bool.or_eq_true_iff.1 hfirst with htrue | hsame
    · cases hc.symm.trans (value_of_isTrue henv htrue)
      rfl
    · rw [of_decide_eq_true hsame] at hx
      cases hx.1.symm.trans hy.1
      rw [chosen, ite_self]
  · obtain ⟨rfl, rfl⟩ := hbranches hfold'
    rw [hy.2, ← value_of_isFalse henv hsecond, hc]
  · cases hc.symm.trans (value_of_isFalse henv hsecond)
    exact hy.2
  · exact hc
  · rw [value_newIn, group_code, group_code, group_code]
    exact valueOf_conditional hc hx.2 hy.2

end Values

/-! ## The path that is taken -/

/-- The predicate holds: it is not 0. -/
def Environment.holds (env : Environment) (predicate : Code) : Bool :=
  match valueOf env.meaning predicate with
  | some z => decide (z ≠ 0)
  | none => false

/-- An annotation that is merged as an expression, and its default. -/
structure AnnotationName.Plain (name : AnnotationName) (d : AnnotationValue) : Prop where
  hasDefault : defaultAnnotations name = some d
  single : name.combinable = false
  notCast : name ≠ .typeCast

/-- The branches of an `if` statement are 1 and 0, on every path through them. -/
def BranchesOneZero (d : AnnotationValue) (s t : Option (Option AnnotationValue)) : Prop :=
  ∃ v w, s = some v ∧ t = some w ∧ (v.getD d).texts.2.isTrue = true ∧
    (w.getD d).texts.2.isFalse = true

namespace Block

variable (env : Environment)

/-- What is set at a key on the path that the predicates choose. -/
def onPath : Block → AnnotationKey → Option AnnotationValue
  | .nil, _ => none
  | .annotate name text _ rest, k => (declaredAt name text k).or (rest.onPath k)
  | .scope kind body _ rest, k =>
    ((AnnotationSet.above kind.component k).bind body.onPath).or (rest.onPath k)
  | .branch predicate thenBranch elseBranch _ rest, k =>
    (if env.holds predicate then thenBranch.onPath k else elseBranch.onPath k).or (rest.onPath k)

/-- Every predicate and every value that is merged as an expression can be read as one. -/
def Reads : Block → Prop
  | .nil => True
  | .annotate name text _ rest =>
    (∀ d v, name.Plain d → declaredValue name text = .ok v → ∃ x, v.value env = some x) ∧
      rest.Reads
  | .scope _ body _ rest => body.Reads ∧ rest.Reads
  | .branch predicate thenBranch elseBranch _ rest =>
    (∃ z, valueOf env.meaning predicate = some z) ∧ thenBranch.Reads ∧ elseBranch.Reads ∧
      rest.Reads

/-- Every `if` statement on the path whose branches are 1 and 0 has a predicate that is 0 or 1. -/
def Exact (d : AnnotationValue) : Block → AnnotationKey → Prop
  | .nil, _ => True
  | .annotate _ _ _ rest, k => rest.Exact d k
  | .scope kind body _ rest, k =>
    (∀ l, AnnotationSet.above kind.component k = some l → body.Exact d l) ∧ rest.Exact d k
  | .branch predicate thenBranch elseBranch _ rest, k =>
    ((if env.holds predicate then thenBranch.Exact d k else elseBranch.Exact d k) ∧
      (BranchesOneZero d (thenBranch.uniform d k) (elseBranch.uniform d k) →
        valueOf env.meaning predicate = some 0 ∨ valueOf env.meaning predicate = some 1)) ∧
      rest.Exact d k

end Block

/-- On no path is a predicate that is neither 0 nor 1 taken in place of the branches 1 and 0. -/
def Block.Decided (b : Block) : Prop :=
  ∀ env : Environment, env.Truthful → b.Reads env → ∀ k d, k.tail.Plain d → b.Exact env d k

section Path

variable {env : Environment} {k : AnnotationKey} {d : AnnotationValue} {b : Block}

theorem holds_iff {predicate : Code} {z : Int} (h : valueOf env.meaning predicate = some z) :
    env.holds predicate = true ↔ z ≠ 0 := by
  rw [Environment.holds, h]
  exact decide_eq_true_iff

theorem chosen_eq_ite {predicate : Code} {z : Int} (h : valueOf env.meaning predicate = some z)
    (v w : Int) : chosen z v w = if env.holds predicate then v else w :=
  if_congr (holds_iff h).symm rfl rfl

theorem eq_of_declaredAt {name : AnnotationName} {text : AnnotationText}
    (h : (declaredAt name text k).isSome = true) : k = ⟨[], name⟩ := by
  rw [declaredAt] at h
  split_ifs at h with hk
  · exact hk
  · cases h

theorem exists_above {c : Component} {path : AnnotationKey → Option AnnotationValue}
    (h : ((AnnotationSet.above c k).bind path).isSome = true) :
    ∃ l, AnnotationSet.above c k = some l ∧ (path l).isSome = true := by
  cases hk : AnnotationSet.above c k with
  | none =>
    rw [hk] at h
    cases h
  | some l =>
    rw [hk] at h
    exact ⟨l, rfl, h⟩

theorem mergedWith_eq_none {predicate : Code} {a c : Option AnnotationValue} :
    mergedWith predicate d a c = none ↔ a = none ∧ c = none := by
  rcases a with - | a <;> rcases c with - | c <;> simp [mergedWith]

/-- What is left was set by some statement. -/
theorem Block.sets_of_merged (h : (b.merged d k).isSome = true) : b.Sets k := by
  induction b generalizing k with
  | nil => cases h
  | annotate name text refs rest ih =>
    rw [Block.merged, Option.isSome_or, Bool.or_eq_true] at h
    rcases h with h | h
    · exact .inr (.inl (eq_of_declaredAt h))
    · exact .inr (.inr (ih h))
  | scope kind body refs rest ihbody ih =>
    rw [Block.merged, Option.isSome_or, Bool.or_eq_true] at h
    rcases h with h | h
    · obtain ⟨l, hl, hbody⟩ := exists_above h
      exact .inr (.inl ⟨l, hl, ihbody hbody⟩)
    · exact .inr (.inr (ih h))
  | branch predicate thenBranch elseBranch refs rest ihthen ihelse ih =>
    rw [Block.merged, Option.isSome_or, Bool.or_eq_true] at h
    rcases h with h | h
    · refine .inr (.inl ?_)
      by_contra hnot
      rw [not_or] at hnot
      rw [mergedWith_eq_none.2 ⟨Option.not_isSome_iff_eq_none.1 (mt ihthen hnot.1),
        Option.not_isSome_iff_eq_none.1 (mt ihelse hnot.2)⟩] at h
      cases h
    · exact .inr (.inr (ih h))

theorem Block.merged_eq_none (h : ¬ b.Sets k) : b.merged d k = none := by
  rw [← Option.not_isSome_iff_eq_none]
  exact fun hsome => h (Block.sets_of_merged hsome)

theorem Block.uniform_eq (h : ¬ b.Sets k) : b.uniform d k = some none :=
  (tracks_merged d b k).none_iff.2 (Block.merged_eq_none h)

/-- Where nothing is left, nothing is set on the path. -/
theorem Block.onPath_eq_none (h : b.merged d k = none) : b.onPath env k = none := by
  induction b generalizing k with
  | nil => rfl
  | annotate name text refs rest ih =>
    obtain ⟨hfirst, hrest⟩ := Option.or_eq_none_iff.1 h
    rw [Block.onPath, hfirst, ih hrest]
    rfl
  | scope kind body refs rest ihbody ih =>
    obtain ⟨hfirst, hrest⟩ := Option.or_eq_none_iff.1 h
    rw [Block.onPath, ih hrest, Option.or_none]
    cases hk : AnnotationSet.above kind.component k with
    | none => rfl
    | some l =>
      rw [hk] at hfirst
      exact ihbody hfirst
  | branch predicate thenBranch elseBranch refs rest ihthen ihelse ih =>
    obtain ⟨hfirst, hrest⟩ := Option.or_eq_none_iff.1 h
    obtain ⟨hthen, helse⟩ := mergedWith_eq_none.1 hfirst
    rw [Block.onPath, ih hrest, ihthen hthen, ihelse helse, ite_self]
    rfl

theorem value_default (env : Environment) {name : AnnotationName} (hname : name.Plain d) :
    ∃ x, d.value env = some x := by
  obtain ⟨hd, hc, hcast⟩ := hname
  cases name <;> cases hd
  all_goals first | exact absurd rfl hcast | exact ⟨_, rfl⟩ | cases hc

end Path

/-! ## What is left evaluates to what is set on the path -/

/-- What is left at a key and what is set there on the path, or the default in their place, have
values, and these are the same exactly under a condition. -/
def Agrees (env : Environment) (d : AnnotationValue) (o p : Option AnnotationValue)
    (condition : Prop) : Prop :=
  ∃ m n, (o.getD d).value env = some m ∧ (p.getD d).value env = some n ∧ (m = n ↔ condition)

section Agrees

variable {env : Environment} {d : AnnotationValue} {o p o' p' : Option AnnotationValue}
  {E E' : Prop}

theorem Agrees.of_none (h : Agrees env d none none E) : E := by
  obtain ⟨m, n, hm, hn, hiff⟩ := h
  exact hiff.1 (Option.some.inj (hm.symm.trans hn))

theorem Agrees.congr (h : Agrees env d o p E) (hiff : E ↔ E') : Agrees env d o p E' := by
  rw [← hiff]
  exact h

theorem agrees_self {m : Int} (h : (o.getD d).value env = some m) : Agrees env d o o True :=
  ⟨m, m, h, h, iff_of_true rfl trivial⟩

/-- A statement, and the rest of a block that does not set the same annotation. -/
theorem Agrees.or (h : Agrees env d o p E) (h' : Agrees env d o' p' E')
    (hnone : o = none → p = none) (hsome : o.isSome = true → o' = none ∧ p' = none) :
    Agrees env d (o.or o') (p.or p') (E ∧ E') := by
  cases o with
  | none =>
    obtain rfl := hnone rfl
    exact h'.congr (and_iff_right h.of_none).symm
  | some v =>
    obtain ⟨rfl, rfl⟩ := hsome rfl
    rw [Option.or_none, Option.or_none]
    exact h.congr (and_iff_left h'.of_none).symm

/-- Merging gives the value of the branch that is taken, unless the branches are 1 and 0 and the
predicate is not. -/
theorem Agrees.merge (henv : env.Truthful) {predicate : Code} {z : Int}
    (hpredicate : valueOf env.meaning predicate = some z) (h : Agrees env d o p E)
    (h' : Agrees env d o' p' E') (hnone : o = none → p = none) (hnone' : o' = none → p' = none)
    (hfold : ((o.getD d).texts.2.isTrue && (o'.getD d).texts.2.isFalse) = true → E ∧ E') :
    Agrees env d (mergedWith predicate d o o') (if env.holds predicate then p else p')
      ((if env.holds predicate then E else E') ∧
        (((o.getD d).texts.2.isTrue && (o'.getD d).texts.2.isFalse) = true → z = 0 ∨ z = 1)) := by
  by_cases hset : (o.isSome || o'.isSome) = true
  · obtain ⟨m, n, hm, hn, hiff⟩ := h
    obtain ⟨m', n', hm', hn', hiff'⟩ := h'
    have hx := value_texts henv hm
    have hy := value_texts henv hm'
    rw [mergedWith, if_pos hset]
    refine ⟨_, chosen z n n', value_ifThenElseStr henv hpredicate hx hy, ?_, ?_⟩
    · rw [chosen_eq_ite hpredicate]
      split_ifs
      exacts [hn, hn']
    · have hbranch : (chosen z m m' = chosen z n n') ↔ if env.holds predicate then E else E' := by
        rw [chosen_eq_ite hpredicate, chosen_eq_ite hpredicate]
        split_ifs
        exacts [hiff, hiff']
      by_cases hbranches : ((o.getD d).texts.2.isTrue && (o'.getD d).texts.2.isFalse) = true
      · -- the branches are 1 and 0 on the path as well
        obtain ⟨htrue, hfalse⟩ := Bool.and_eq_true_iff.1 hbranches
        have hone : m = 1 := Option.some.inj (hx.2.symm.trans (value_of_isTrue henv htrue))
        have hzero : m' = 0 := Option.some.inj (hy.2.symm.trans (value_of_isFalse henv hfalse))
        obtain ⟨hE, hE'⟩ := hfold hbranches
        rw [if_pos hbranches, ← hiff.2 hE, ← hiff'.2 hE', hone, hzero, chosen]
        by_cases hz : z = 0
        · simp [hz, hE, hE']
        · simp [hz, hE, hE', htrue, hfalse]
      · rw [if_neg hbranches, hbranch]
        exact (and_iff_left fun h => absurd h hbranches).symm
  · -- neither branch sets the annotation, and both have the default
    simp only [Bool.or_eq_true, not_or, Option.not_isSome_iff_eq_none] at hset
    obtain ⟨rfl, rfl⟩ := hset
    obtain rfl := hnone rfl
    obtain rfl := hnone' rfl
    rw [mergedWith, if_neg (by simp), ite_self]
    refine h.congr (iff_of_true h.of_none ⟨?_, fun hbranches => ?_⟩)
    · split_ifs
      · exact h.of_none
      · exact h'.of_none
    · obtain ⟨htrue, hfalse⟩ := Bool.and_eq_true_iff.1 hbranches
      exact absurd (says_of_isFalse hfalse) (says_of_isTrue htrue).not_false

end Agrees

section Blocks

variable {env : Environment} {k : AnnotationKey} {d : AnnotationValue} {b : Block}

/-- Nothing is given, or a constant for a truth value. -/
def Definite (d : AnnotationValue) (v : Option AnnotationValue) : Prop :=
  v = none ∨ ∃ r, (v.getD d).Says r

theorem Block.sets_of_uniform {u : AnnotationValue} (h : b.uniform d k = some (some u)) :
    b.Sets k := by
  by_contra hnot
  cases h.symm.trans (Block.uniform_eq hnot)

variable {s t : Option (Option AnnotationValue)} {v : Option AnnotationValue}

/-- A statement and the rest of the block, of which only one gives the annotation. -/
theorem forall_of_uniformFirst {E E' : Prop} (h : uniformFirst s t = some v) (hv : Definite d v)
    (hs : ∀ u, s = some u → Definite d u → E) (ht : ∀ u, t = some u → Definite d u → E')
    (hsome : ∀ u, s = some (some u) → t = some none) : E ∧ E' := by
  rcases s with - | - | u
  · cases h
  · exact ⟨hs none rfl (.inl rfl), ht v h hv⟩
  · cases h
    exact ⟨hs _ rfl hv, ht none (hsome u rfl) (.inl rfl)⟩

/-- The predicate is a constant, or the branches give the same text. -/
theorem uniformWith_cases {predicate : Code} {u : Option AnnotationValue}
    (h : uniformWith predicate d s t = some u) (hu : Definite d u) :
    ((Expr.new predicate).isTrue = true ∧ ∃ v, s = some v ∧ Definite d v) ∨
      ((Expr.new predicate).isFalse = true ∧ ∃ w, t = some w ∧ Definite d w) ∨
      ∃ v w, s = some v ∧ t = some w ∧ Definite d v ∧ Definite d w ∧
        (v.getD d).texts.1 = (w.getD d).texts.1 := by
  by_cases hboth : s = some none ∧ t = some none
  · exact .inr (.inr ⟨none, none, hboth.1, hboth.2, .inl rfl, .inl rfl, rfl⟩)
  rw [uniformWith] at h
  · obtain ⟨e, he, rfl⟩ := Option.map_eq_some_iff.1 h
    obtain ⟨r, hr⟩ : ∃ r, (AnnotationValue.expr e).Says r := hu.resolve_left (by simp)
    rcases s with - | v <;> rcases t with - | w <;> dsimp only [Option.map, uniformChoice] at he
    · cases he
    · split_ifs at he with hfalse
      cases he
      exact .inr (.inl ⟨hfalse, w, rfl, .inr ⟨r, hr.of_expr⟩⟩)
    · split_ifs at he with htrue
      cases he
      exact .inl ⟨htrue, v, rfl, .inr ⟨r, hr.of_expr⟩⟩
    · split_ifs at he with hfirst hfalse
      · cases he
        rcases Bool.or_eq_true_iff.1 hfirst with htrue | hsame
        · exact .inl ⟨htrue, v, rfl, .inr ⟨r, hr.of_expr⟩⟩
        · exact .inr (.inr ⟨v, w, rfl, rfl, .inr ⟨r, hr.of_expr⟩,
            .inr ⟨r, hr.of_expr.of_text_eq (of_decide_eq_true hsame)⟩, of_decide_eq_true hsame⟩)
      · cases he
        exact .inr (.inl ⟨hfalse, w, rfl, .inr ⟨r, hr.of_expr⟩⟩)
  · rintro rfl rfl
    exact hboth ⟨rfl, rfl⟩

/-- Where the same constant is given on every path, or nothing is, no predicate is taken in place of
branches. -/
theorem exact_of_uniform (henv : env.Truthful) (hreads : b.Reads env) (hblock : b.Once)
    (hname : k.tail.combinable = false) (h : b.uniform d k = some v) (hv : Definite d v) :
    b.Exact env d k := by
  induction b generalizing k v with
  | nil => exact trivial
  | annotate name text refs rest ih =>
    refine (forall_of_uniformFirst (E := True) h hv (fun _ _ _ => trivial)
      (fun u hu => ih hreads.2 hblock.2 hname hu) fun u hu => ?_).2
    obtain rfl := eq_of_declaredAt (Option.isSome_iff_exists.2 ⟨u, Option.some.inj hu⟩)
    exact Block.uniform_eq (hblock.1 hname)
  | scope kind body refs rest ihbody ih =>
    refine forall_of_uniformFirst h hv ?_ (fun u hu => ih hreads.2 hblock.2.2 hname hu) ?_
    · intro u hu hdefinite l hl
      rw [hl] at hu
      rw [← above_tail hl] at hname
      exact ihbody hreads.1 hblock.2.1 hname hu hdefinite
    · intro u hu
      cases hl : AnnotationSet.above kind.component k with
      | none =>
        rw [hl] at hu
        cases hu
      | some l =>
        rw [hl] at hu
        rw [← above_tail hl] at hname
        rw [AnnotationSet.above_eq_some.1 hl]
        exact Block.uniform_eq (hblock.1 l hname (Block.sets_of_uniform hu))
  | branch predicate thenBranch elseBranch refs rest ihthen ihelse ih =>
    obtain ⟨⟨z, hz⟩, hthenReads, helseReads, hrestReads⟩ := hreads
    obtain ⟨hdisjoint, hthenOnce, helseOnce, hrestOnce⟩ := hblock
    refine forall_of_uniformFirst h hv ?_ (fun u hu => ih hrestReads hrestOnce hname hu) ?_
    · intro u hu hdefinite
      rcases uniformWith_cases hu hdefinite with
        ⟨htrue, v, hv, hdef⟩ | ⟨hfalse, w, hw, hdef⟩ | ⟨v, w, hv, hw, hdefv, hdefw, hsame⟩
      · have hone := (value_new predicate).symm.trans (value_of_isTrue henv htrue)
        rw [if_pos ((holds_iff hone).2 one_ne_zero)]
        exact ⟨ihthen hthenReads hthenOnce hname hv hdef, fun _ => .inr hone⟩
      · have hzero := (value_new predicate).symm.trans (value_of_isFalse henv hfalse)
        rw [if_neg (mt (holds_iff hzero).1 (not_not.2 rfl))]
        exact ⟨ihelse helseReads helseOnce hname hw hdef, fun _ => .inl hzero⟩
      · refine ⟨?_, ?_⟩
        · split_ifs
          · exact ihthen hthenReads hthenOnce hname hv hdefv
          · exact ihelse helseReads helseOnce hname hw hdefw
        · -- one text is not both 1 and 0
          rintro ⟨v', w', hv', hw', htrue, hfalse⟩
          cases hv.symm.trans hv'
          cases hw.symm.trans hw'
          exact absurd (says_of_isFalse hfalse)
            ((says_of_isTrue htrue).of_text_eq hsame).not_false
    · intro u hu
      refine Block.uniform_eq (hdisjoint k hname ?_)
      by_contra hnot
      rw [not_or] at hnot
      rw [Block.uniform_eq hnot.1, Block.uniform_eq hnot.2] at hu
      cases hu

theorem branchesOneZero_iff {o p : Option AnnotationValue} (h : Tracks d s o) (h' : Tracks d t p) :
    BranchesOneZero d s t ↔
      ((o.getD d).texts.2.isTrue && (p.getD d).texts.2.isFalse) = true := by
  rw [Bool.and_eq_true]
  constructor
  · rintro ⟨v, w, hv, hw, htrue, hfalse⟩
    obtain rfl := h.eq_of_says v true hv (says_of_isTrue htrue)
    obtain rfl := h'.eq_of_says w false hw (says_of_isFalse hfalse)
    exact ⟨htrue, hfalse⟩
  · rintro ⟨htrue, hfalse⟩
    exact ⟨o, p, h.of_says true (says_of_isTrue htrue), h'.of_says false (says_of_isFalse hfalse),
      htrue, hfalse⟩

/-- What is left of a block evaluates to what is set on the path, exactly if no predicate that is
neither 0 nor 1 is taken in place of branches. -/
theorem agrees_merged (henv : env.Truthful) (hblock : b.Once) (hreads : b.Reads env)
    (hproper : b.Proper) (hname : k.tail.Plain d) :
    Agrees env d (b.merged d k) (b.onPath env k) (b.Exact env d k) := by
  induction b generalizing k with
  | nil =>
    obtain ⟨x, hx⟩ := value_default env hname
    exact agrees_self hx
  | annotate name text refs rest ih =>
    obtain ⟨⟨v, hv⟩, -, hproper⟩ := hproper
    have hdeclared : Agrees env d (declaredAt name text k) (declaredAt name text k) True := by
      rw [declaredAt]
      split_ifs with hk
      · subst hk
        obtain ⟨x, hx⟩ := hreads.1 d v hname hv
        rw [hv]
        exact agrees_self (o := some v) hx
      · obtain ⟨x, hx⟩ := value_default env hname
        exact agrees_self (o := none) hx
    refine (hdeclared.or (ih hblock.2 hreads.2 hproper hname) id fun hsome => ?_).congr
      (and_iff_right trivial)
    obtain rfl := eq_of_declaredAt hsome
    have hrest := Block.merged_eq_none (d := d) (hblock.1 hname.single)
    exact ⟨hrest, Block.onPath_eq_none hrest⟩
  | scope kind body refs rest ihbody ih =>
    obtain ⟨hdisjoint, hbodyOnce, hrestOnce⟩ := hblock
    refine Agrees.or ?_ (ih hrestOnce hreads.2 hproper.2 hname) ?_ ?_
    · cases hl : AnnotationSet.above kind.component k with
      | none =>
        obtain ⟨x, hx⟩ := value_default env hname
        exact (agrees_self (o := none) hx).congr (iff_of_true trivial fun _ h => by cases h)
      | some l =>
        rw [← above_tail hl] at hname
        refine (ihbody hbodyOnce hreads.1 hproper.1 hname).congr ⟨?_, fun h => h l rfl⟩
        rintro h _ ⟨⟩
        exact h
    · intro hnone
      cases hl : AnnotationSet.above kind.component k with
      | none => rfl
      | some l =>
        rw [hl] at hnone
        exact Block.onPath_eq_none hnone
    · intro hsome
      obtain ⟨l, hl, hbody⟩ := exists_above hsome
      have hsingle := hname.single
      rw [← above_tail hl] at hsingle
      have hrest := hdisjoint l hsingle (Block.sets_of_merged hbody)
      rw [← AnnotationSet.above_eq_some.1 hl] at hrest
      exact ⟨Block.merged_eq_none hrest, Block.onPath_eq_none (d := d) (Block.merged_eq_none hrest)⟩
  | branch predicate thenBranch elseBranch refs rest ihthen ihelse ih =>
    obtain ⟨hdisjoint, hthenOnce, helseOnce, hrestOnce⟩ := hblock
    obtain ⟨⟨z, hz⟩, hthenReads, helseReads, hrestReads⟩ := hreads
    obtain ⟨hthen, helse, hrest⟩ := hproper
    have htracks := tracks_merged d thenBranch k
    have htracks' := tracks_merged d elseBranch k
    have hmerged := Agrees.merge henv hz (ihthen hthenOnce hthenReads hthen hname)
      (ihelse helseOnce helseReads helse hname) Block.onPath_eq_none Block.onPath_eq_none
      (by
        intro hbranches
        obtain ⟨htrue, hfalse⟩ := Bool.and_eq_true_iff.1 hbranches
        exact ⟨exact_of_uniform henv hthenReads hthenOnce hname.single
            (htracks.of_says true (says_of_isTrue htrue)) (.inr ⟨_, says_of_isTrue htrue⟩),
          exact_of_uniform henv helseReads helseOnce hname.single
            (htracks'.of_says false (says_of_isFalse hfalse))
            (.inr ⟨_, says_of_isFalse hfalse⟩)⟩)
    refine (hmerged.congr (and_congr_right fun _ => imp_congr ?_ (by simp [hz]))).or
      (ih hrestOnce hrestReads hrest hname) (fun hnone => ?_) fun hsome => ?_
    · exact (branchesOneZero_iff htracks htracks').symm
    · obtain ⟨hfirst, hsecond⟩ := mergedWith_eq_none.1 hnone
      rw [Block.onPath_eq_none hfirst, Block.onPath_eq_none hsecond, ite_self]
    · have hsets : thenBranch.Sets k ∨ elseBranch.Sets k := by
        by_contra hnot
        rw [not_or] at hnot
        rw [Block.merged_eq_none hnot.1, Block.merged_eq_none hnot.2] at hsome
        cases hsome
      have hnone := Block.merged_eq_none (d := d) (hdisjoint k hname.single hsets)
      exact ⟨hnone, Block.onPath_eq_none hnone⟩

end Blocks

/-! ## Reading a block -/

section Reading

variable {k : AnnotationKey} {d : AnnotationValue} {b : Block}

theorem updateAt_none (hc : k.tail.combinable = false) (v : Option AnnotationValue) :
    AnnotationSet.updateAt k v none = .ok v := by
  cases v with
  | none => rfl
  | some v =>
    rw [AnnotationSet.updateAt, setValue_none hc]
    rfl

/-- A statement at a key that it does not share with the parameters. -/
theorem statement_eq (hc : k.tail.combinable = false) (refs : Finset String)
    (r : Except AnnotationError (Option AnnotationValue))
    (next : Option AnnotationValue → Except AnnotationError (Option AnnotationValue)) :
    ((addRefsAt refs k none).bind fun o => r.bind fun v =>
      (AnnotationSet.updateAt k v o).bind next) = r.bind next := by
  have hk : k ≠ dependsOnKey := by
    rintro rfl
    cases hc
  have hrefs : addRefsAt refs k none = .ok none := if_neg hk
  rw [hrefs]
  cases r with
  | error e => rfl
  | ok v =>
    change (AnnotationSet.updateAt k v none).bind next = next v
    rw [updateAt_none hc]
    rfl

variable {o : Option AnnotationValue}

/-- What a statement sets stays; what it does not set is left to the rest of the block. -/
theorem eq_of_statement {rest : Block} (hproper : rest.Proper) (hblock : rest.Once)
    {r : Except AnnotationError (Option AnnotationValue)} {good sets : Prop}
    {elements : Finset (String ⊕ Code)} {a : Option AnnotationValue}
    (hr : Leaves k none r good sets elements) (ha : ∀ v, r = .ok v → v = a)
    (hdisjoint : sets → ¬ rest.Sets k) (hrest : extractAt k none rest = .ok o → o = rest.merged d k)
    (h : (r.bind fun v => extractAt k v rest) = .ok o) : o = a.or (rest.merged d k) := by
  obtain ⟨v, hv, hnext⟩ := bind_eq_ok.1 h
  have hsome : v.isSome = true ↔ sets := by simpa using hr.isSome_iff v hv
  obtain rfl := ha v hv
  cases v with
  | none => exact hrest hnext
  | some v =>
    -- no other statement of the block sets the key
    have hnot := hdisjoint (hsome.1 rfl)
    exact (leaves_extractAt hproper hblock (hr.fits _ hv)
      fun _ hs => absurd hs hnot).keeps o hnext hnot

/-- Merging succeeds with the expression. -/
theorem eq_of_mergeAt (hname : k.tail.Plain d) {predicate : Code} {v w : Option AnnotationValue}
    (hv : FitsAt k v) (hw : FitsAt k w) (h : AnnotationSet.mergeAt predicate k v w = .ok o) :
    o = mergedWith predicate d v w := by
  rw [AnnotationSet.mergeAt] at h
  rw [mergedWith]
  split_ifs at h ⊢ with hset
  · obtain ⟨x, hx⟩ := (fits_iff_asText hname.single hname.notCast).1
      (hv.getD hname.hasDefault (ne_unsupported hname.single))
    obtain ⟨y, hy⟩ := (fits_iff_asText hname.single hname.notCast).1
      (hw.getD hname.hasDefault (ne_unsupported hname.single))
    rw [mergeValue_asText predicate hname.single hname.notCast (getValue_eq hname.hasDefault v)
      (getValue_eq hname.hasDefault w) hx hy] at h
    cases h
    simp only [AnnotationValue.texts, hx, hy, Option.getD_some]
  · cases h
    rfl

/-- What reading a block leaves for an annotation that is merged as an expression. -/
theorem eq_merged_of_extractAt (hproper : b.Proper) (hblock : b.Once) (hname : k.tail.Plain d)
    (h : extractAt k none b = .ok o) : o = b.merged d k := by
  induction b generalizing k o with
  | nil =>
    cases h
    rfl
  | annotate name text refs rest ih =>
    obtain ⟨⟨v, hv⟩, -, hproper⟩ := hproper
    rw [extractAt_annotate hv, statement_eq hname.single] at h
    refine eq_of_statement hproper hblock.2 (leaves_declaredAt hv k) ?_ ?_
      (ih hproper hblock.2 hname) h
    · rintro _ ⟨⟩
      rfl
    · rintro rfl
      exact hblock.1 hname.single
  | scope kind body refs rest ihbody ih =>
    obtain ⟨hbody, hrest⟩ := hproper
    obtain ⟨hdisjoint, hbodyOnce, hrestOnce⟩ := hblock
    have hpushed := leaves_pushedAt (c := kind.component)
      (fun l => leaves_extractAt hbody hbodyOnce (fitsAt_none l) fun _ _ => rfl)
      (fun l => hbody.hasDefault) k
    rw [extractAt, statement_eq hname.single] at h
    refine eq_of_statement hrest hrestOnce hpushed ?_ ?_ (ih hrest hrestOnce hname) h
    · intro v hv
      rw [pushedAt] at hv
      cases hl : AnnotationSet.above kind.component k with
      | none =>
        rw [hl] at hv
        cases hv
        rfl
      | some l =>
        rw [hl] at hv
        obtain ⟨u, hu, hset⟩ := bind_eq_ok.1 hv
        rw [updateAt_none hname.single] at hset
        cases hset
        rw [← above_tail hl] at hname
        exact ihbody hbody hbodyOnce hname hu
    · rintro ⟨l, hl, hsets⟩
      have hsingle := hname.single
      rw [← above_tail hl] at hsingle
      rw [AnnotationSet.above_eq_some.1 hl]
      exact hdisjoint l hsingle hsets
  | branch predicate thenBranch elseBranch refs rest ihthen ihelse ih =>
    obtain ⟨hthen, helse, hrest⟩ := hproper
    obtain ⟨hdisjoint, hthenOnce, helseOnce, hrestOnce⟩ := hblock
    have hfirst := leaves_extractAt (k := k) hthen hthenOnce (fitsAt_none k) fun _ _ => rfl
    have hsecond := leaves_extractAt (k := k) helse helseOnce (fitsAt_none k) fun _ _ => rfl
    have hmerged := leaves_branchAt predicate hfirst hsecond
      fun hsets => hsets.elim hthen.hasDefault helse.hasDefault
    rw [extractAt, statement_eq hname.single] at h
    refine eq_of_statement hrest hrestOnce hmerged ?_ (hdisjoint k hname.single)
      (ih hrest hrestOnce hname) h
    intro v hv
    obtain ⟨x, hx, hy⟩ := bind_eq_ok.1 hv
    obtain ⟨y, hy, hmerge⟩ := bind_eq_ok.1 hy
    rw [← ihthen hthen hthenOnce hname hx, ← ihelse helse helseOnce hname hy]
    exact eq_of_mergeAt hname (hfirst.fits x hx) (hsecond.fits y hy) hmerge

end Reading

/-! ## Whole sets -/

/-- The set of a block means what the block says. Every annotation that is merged as an expression
evaluates to what is set on the path, or to its default; a combinable annotation has the elements
that any statement gives to it; and pushing the set down loses nothing. -/
structure MeansPath (b : Block) (s : AnnotationSet) : Prop where
  taken : ∀ env : Environment, env.Truthful → b.Reads env → ∀ k d, k.tail.Plain d →
    ∃ v x, s.getItem k = .ok v ∧ v.value env = some x ∧
      ((b.onPath env k).getD d).value env = some x
  combined : ∀ k d, k.tail.combinable = true → defaultAnnotations k.tail = some d →
    ∃ v, s.getItem k = .ok v ∧ (k.tail.Fits v ∨ v = d) ∧ v.elements = b.union k
  roundTrip : ∀ c, ∃ t u, s.pushdown c = .ok t ∧ t.subelement c = .ok u ∧
    ∀ k, u.lookup k = s.lookup k

section Sets

variable {b : Block} {s : AnnotationSet}

theorem extractAt_of_extract (h : extractAnnotations b = .ok s) (k : AnnotationKey) :
    extractAt k none b = .ok (s.lookup k) := (pointwise_extractFrom b ∅).lookup s h k

theorem settable_of_extract (hproper : b.Proper) (honce : b.Once)
    (h : extractAnnotations b = .ok s) : s.Settable := by
  intro k v hv
  have hleaves := leaves_extractAt (k := k) hproper honce (fitsAt_none k) fun _ _ => rfl
  have hk := extractAt_of_extract h k
  rw [hv] at hk
  have hsets : b.Sets k := by simpa using hleaves.isSome_iff _ hk
  obtain ⟨w, hw, -, -, hsame⟩ := setValue_fits (hproper.hasDefault hsets)
    (fitsAt_some.1 (hleaves.fits _ hk)) (fitsAt_none k) fun _ => rfl
  rw [hw, hsame rfl]

/-- What the set has for an annotation that is merged as an expression. -/
theorem getItem_of_extract (hproper : b.Proper) (honce : b.Once)
    (h : extractAnnotations b = .ok s) {k : AnnotationKey} {d : AnnotationValue}
    (hname : k.tail.Plain d) : s.getItem k = .ok ((b.merged d k).getD d) := by
  rw [← eq_merged_of_extractAt hproper honce hname (extractAt_of_extract h k)]
  exact getValue_eq hname.hasDefault _

theorem meansPath_iff (hproper : b.Proper) (honce : b.Once) (h : extractAnnotations b = .ok s) :
    MeansPath b s ↔ b.Decided := by
  constructor
  · intro hmeans env henv hreads k d hname
    obtain ⟨m, n, hm, hn, hiff⟩ := agrees_merged henv honce hreads hproper hname
    obtain ⟨v, x, hv, hx, hpath⟩ := hmeans.taken env henv hreads k d hname
    rw [getItem_of_extract hproper honce h hname] at hv
    cases hv
    cases hm.symm.trans hx
    cases hn.symm.trans hpath
    exact hiff.1 rfl
  intro hdecided
  refine ⟨fun env henv hreads k d hname => ?_, fun k d hc hd => ?_,
    (settable_of_extract hproper honce h).subelement_pushdown⟩
  · obtain ⟨m, n, hm, hn, hiff⟩ := agrees_merged henv honce hreads hproper hname
    obtain rfl := hiff.2 (hdecided env henv hreads k d hname)
    exact ⟨_, m, getItem_of_extract hproper honce h hname, hm, hn⟩
  · have hleaves := leaves_extractAt (k := k) hproper honce (fitsAt_none k) fun _ _ => rfl
    have hk := extractAt_of_extract h k
    refine ⟨_, getValue_eq hd _, ?_, ?_⟩
    · cases hv : s.lookup k with
      | none => exact .inr rfl
      | some v =>
        rw [hv] at hk
        exact .inl (fitsAt_some.1 (hleaves.fits _ hk))
    · rw [← hleaves.union_none hk hc]
      cases s.lookup k with
      | none => exact elements_default hc hd
      | some v => rfl

/-- Reading a block succeeds if its branches can be merged. -/
theorem exists_extract_iff (hproper : b.Proper) (honce : b.Once) :
    (∃ s, extractAnnotations b = .ok s) ↔ b.Balanced := by
  rw [extractAnnotations, (pointwise_extractFrom b ∅).exists_ok_iff]
  refine forall_congr' fun k => ?_
  exact (leaves_extractAt hproper honce (fitsAt_none k) fun _ _ => rfl).ok_iff

end Sets

/-- A block in which every annotation has a default and is set once gets a set that means what the
path says, for all values of the predicates, if and only if in every `if` statement the second
branch has `unsupported` wherever the first one does, both have blocks for the same fields, and
where the branches are 1 and 0 the predicate is 0 or 1 whenever the statement is on the path. -/
theorem conditional_annotations_iff (b : Block) (hproper : b.Proper) (honce : b.Once) :
    (∃ s, extractAnnotations b = .ok s ∧ MeansPath b s) ↔ b.Balanced ∧ b.Decided := by
  rw [← exists_extract_iff hproper honce]
  constructor
  · rintro ⟨s, hs, hmeans⟩
    exact ⟨⟨s, hs⟩, (meansPath_iff hproper honce hs).1 hmeans⟩
  · rintro ⟨⟨s, hs⟩, hdecided⟩
    exact ⟨s, hs, (meansPath_iff hproper honce hs).2 hdecided⟩

/-- The name `n`, which is 5 in `countEnvironment`. -/
def countText : Code := nameText "n"

def countEnvironment : Environment :=
  { namesEnvironment with other := fun spelling => if spelling = "n" then 5 else 0 }

/-- `ava_buffer(n)`. -/
def bufferBlock : Block := .annotate .buffer (.code countText) ∅ .nil

/-- `ava_buffer(1)`. -/
def oneBlock : Block := .annotate .buffer (.code oneText) ∅ .nil

/-- `if (n) ava_buffer(n); else ava_buffer(1);`. -/
def balancedBlock : Block := .branch countText bufferBlock oneBlock ∅ .nil

theorem uniform_buffer {k : AnnotationKey} {d : AnnotationValue} (hname : k.tail.Plain d)
    (hk : k ≠ ⟨[], .buffer⟩) (size : Code) :
    (Block.annotate .buffer (.code size) ∅ .nil).uniform d k = some none := by
  refine Block.uniform_eq ?_
  rintro (rfl | h | h)
  · cases hname.single
  · exact hk h
  · exact h

/-- The second branch is not 0. -/
theorem balancedBlock_decided : balancedBlock.Decided := by
  intro env henv hreads k d hname
  refine ⟨⟨?_, ?_⟩, trivial⟩
  · split_ifs <;> exact trivial
  rintro ⟨v, w, hv, hw, htrue, hfalse⟩
  exfalso
  by_cases hk : k = ⟨[], .buffer⟩
  · subst hk
    cases hw
    cases hfalse
  · -- the default is not 1 and 0
    cases (uniform_buffer hname hk countText).symm.trans hv
    cases (uniform_buffer hname hk oneText).symm.trans hw
    exact absurd (says_of_isFalse hfalse) (says_of_isTrue htrue).not_false

/-- If `n` is not 0, then there is a buffer of `n` elements. -/
theorem conditional_annotations_argument :
    balancedBlock.Proper ∧ balancedBlock.Once ∧ balancedBlock.Balanced ∧
      ∃ s, extractAnnotations balancedBlock = .ok s ∧ MeansPath balancedBlock s ∧
        ∃ v, s.getItem ⟨[], .buffer⟩ = .ok v ∧ v.value countEnvironment = some 5 := by
  have hproper : balancedBlock.Proper := by
    refine ⟨?_, ?_, trivial⟩
    all_goals exact ⟨⟨_, rfl⟩, .inl ⟨_, rfl⟩, trivial⟩
  have honce : balancedBlock.Once :=
    ⟨fun _ _ _ h => h, ⟨fun _ h => h, trivial⟩, ⟨fun _ h => h, trivial⟩, trivial⟩
  have hbalanced : balancedBlock.Balanced := fun k =>
    ⟨⟨⟨trivial, trivial⟩, fun _ h => h, fun _ _ => Iff.rfl⟩, trivial⟩
  have hreads : balancedBlock.Reads countEnvironment := by
    refine ⟨⟨5, rfl⟩, ⟨fun d v _ hv => ?_, trivial⟩, ⟨fun d v _ hv => ?_, trivial⟩, trivial⟩
    · cases hv
      exact ⟨5, rfl⟩
    · cases hv
      exact ⟨1, rfl⟩
  obtain ⟨s, hs, hmeans⟩ := (conditional_annotations_iff balancedBlock hproper honce).2
    ⟨hbalanced, balancedBlock_decided⟩
  obtain ⟨v, x, hv, hx, hpath⟩ := hmeans.taken countEnvironment (fun _ _ => rfl) hreads
    ⟨[], .buffer⟩ (.number zeroDigits) ⟨rfl, rfl, by decide⟩
  have hfive : x = 5 := Option.some.inj (hpath.symm.trans rfl)
  rw [hfive] at hx
  exact ⟨hproper, honce, hbalanced, s, hs, hmeans, v, hv, hx⟩

/-- `ava_unsupported`. -/
def unsupportedBlock : Block := .annotate .unsupported (.code oneText) ∅ .nil

/-- `if (n) ava_unsupported;`. -/
def unsupportedIfBlock : Block := .branch countText unsupportedBlock .nil ∅ .nil

/-- `if (n) ava_field(x) ava_buffer(n);`. -/
def fieldIfBlock : Block := .branch countText (.field "x" bufferBlock ∅ .nil) .nil ∅ .nil

/-- `if (n) ava_buffer(1);`. -/
def oneIfBlock : Block := .branch countText oneBlock .nil ∅ .nil

/-- The first two cannot be merged with the empty branch. The third is merged to `n`, which is 5,
and not 1 as on the path. -/
theorem one_branch_fails :
    (unsupportedIfBlock.Proper ∧ unsupportedIfBlock.Once ∧
      extractAnnotations unsupportedIfBlock = .error .typeError) ∧
    (fieldIfBlock.Proper ∧ fieldIfBlock.Once ∧
      extractAnnotations fieldIfBlock = .error .keyError) ∧
    oneIfBlock.Proper ∧ oneIfBlock.Once ∧ oneIfBlock.Balanced ∧
      ∃ s, extractAnnotations oneIfBlock = .ok s ∧
        (∃ v, s.getItem ⟨[], .buffer⟩ = .ok v ∧ v.value countEnvironment = some 5) ∧
        ¬ MeansPath oneIfBlock s := by
  refine ⟨⟨⟨⟨⟨_, rfl⟩, .inl ⟨_, rfl⟩, trivial⟩, trivial, trivial⟩, ?_, rfl⟩,
    ⟨⟨⟨⟨_, rfl⟩, .inr ⟨"x", rfl⟩, ⟨⟨_, rfl⟩, .inl ⟨_, rfl⟩, trivial⟩, trivial⟩, trivial, trivial⟩,
      ?_, rfl⟩,
    ⟨⟨⟨_, rfl⟩, .inl ⟨_, rfl⟩, trivial⟩, trivial, trivial⟩, ?_, ?_, _, rfl, ⟨_, rfl, rfl⟩, ?_⟩
  · exact ⟨fun _ _ _ h => h, ⟨fun _ h => h, trivial⟩, trivial, trivial⟩
  · refine ⟨fun _ _ _ h => h, ⟨fun _ h => ?_, ⟨fun _ _ _ h => h, ⟨fun _ h => h, trivial⟩, trivial⟩⟩,
      trivial, trivial⟩
    -- the block is pushed down, so it does not set its own variable
    rcases h with h | ⟨l, hl, -⟩ | h
    · cases h
    · cases hl
    · exact h
  · exact ⟨fun _ _ _ h => h, ⟨fun _ h => h, trivial⟩, trivial, trivial⟩
  · intro k
    refine ⟨⟨⟨trivial, trivial⟩, ?_, fun field hk => ?_⟩, trivial⟩
    · rintro hk (rfl | rfl | h)
      · cases hk
      · cases hk
      · exact h
    · refine ⟨?_, False.elim⟩
      rintro (rfl | rfl | h)
      · cases hk
      · cases hk
      · exact h
  · intro hmeans
    have hreads : oneIfBlock.Reads countEnvironment := by
      refine ⟨⟨5, rfl⟩, ⟨fun d v _ hv => ?_, trivial⟩, trivial, trivial⟩
      cases hv
      exact ⟨1, rfl⟩
    obtain ⟨v, x, hv, hx, hpath⟩ := hmeans.taken countEnvironment (fun _ _ => rfl) hreads
      ⟨[], .buffer⟩ (.number zeroDigits) ⟨rfl, rfl, by decide⟩
    cases hv
    have hone : x = 1 := Option.some.inj (hpath.symm.trans rfl)
    have hfive : x = 5 := Option.some.inj (hx.symm.trans rfl)
    exact absurd (hone.symm.trans hfive) (by decide)

end Ava.Generator
