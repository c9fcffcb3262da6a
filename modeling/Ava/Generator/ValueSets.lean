import Ava.Generator.ExprMeaning
import Mathlib.Data.Set.Function

/-!
# The value sets of expressions

An expression of the generator may have a set of constants, which the operations compute along with
the text. They use the sets of their operands to find the result of a comparison without emitting
it, so a set that misses the value of its text would fold a comparison to the wrong constant.

This is an abstract interpretation. `Sound` says what an expression has to have to do with the value
that it stands for, and there is one lemma for each operation. The constants of a set are spellings:
two of them are different values only in an environment that keeps them apart, which has to be
assumed of the constants that are compared (`ValueTerm.compared`).
-/

set_option autoImplicit false

namespace Ava.Generator

open Ava.Lib.CText

/-! ## Sound expressions -/

/-- The expression stands for the value `v`: its text has that value, its value set is part of
`constants` and has a constant of that value, and a text that is a constant has no other value
set. -/
structure Sound (env : Environment) (constants : Finset Constant) (e : Expr) (v : Int) : Prop where
  value : e.value env = some v
  contains : ∀ s, e.valueSet = some s → s ⊆ constants ∧ ∃ c ∈ s, env.constant c = v
  constant : ∀ c, constantValue e.code = some c → e.valueSet = some {c}

/-- The expression stands for the truth value `r`, and if its text is a constant, for no other. -/
structure Decided (env : Environment) (e : Expr) (r : Bool) : Prop where
  value : e.value env = some (ofBool r)
  valueSet : ∃ s, e.valueSet = some s ∧ s ⊆ booleanConstants ∧ .int (ofBool r) ∈ s
  constant : ∀ c, constantValue e.code = some c → c = .int (ofBool r) ∧ e.valueSet = some {c}

section Sound

variable {env : Environment} {K L : Finset Constant} {a b e : Expr} {v w : Int} {r s : Bool}

theorem Sound.mono (h : Sound env K e v) (hsub : K ⊆ L) : Sound env L e v := by
  refine ⟨h.value, fun s hs => ?_, h.constant⟩
  obtain ⟨hs, hc⟩ := h.contains s hs
  exact ⟨hs.trans hsub, hc⟩

/-- What a text that is taken for a constant stands for. -/
theorem Sound.constant_eq (h : Sound env K e v) {c : Constant}
    (hc : constantValue e.code = some c) : c ∈ K ∧ env.constant c = v := by
  obtain ⟨hsub, d, hd, hdv⟩ := h.contains {c} (h.constant c hc)
  rw [Finset.mem_singleton] at hd
  subst hd
  exact ⟨hsub (Finset.mem_singleton_self d), hdv⟩

theorem Decided.sound (h : Decided env e r) : Sound env booleanConstants e (ofBool r) := by
  refine ⟨h.value, fun s hs => ?_, fun c hc => (h.constant c hc).2⟩
  obtain ⟨s', hs', hsub, hmem⟩ := h.valueSet
  cases hs.symm.trans hs'
  exact ⟨hsub, .int (ofBool r), hmem, rfl⟩

theorem int_ofBool_mem (r : Bool) : .int (ofBool r) ∈ booleanConstants := by
  cases r with
  | false => exact Finset.mem_insert_self _ _
  | true => exact Finset.mem_insert_of_mem (Finset.mem_singleton_self _)

theorem decided_ofBool (env : Environment) (r : Bool) : Decided env (Expr.ofBool r) r := by
  have hcode : constantValue (Expr.ofBool r).code = some (.int (ofBool r)) := by cases r <;> rfl
  have hset : (Expr.ofBool r).valueSet = some {.int (ofBool r)} := by cases r <;> rfl
  refine ⟨value_ofBool r, ⟨_, hset, ?_, Finset.mem_singleton_self _⟩, fun c hc => ?_⟩
  · exact Finset.singleton_subset_iff.2 (int_ofBool_mem r)
  · cases hcode.symm.trans hc
    exact ⟨rfl, hset⟩

variable {text : Code}

theorem newIn_valueSet {s : Finset Constant} (hs : s.Nonempty) :
    (Expr.newIn text (some s)).valueSet = some s := by
  rw [Expr.newIn, if_neg hs.ne_empty]

/-- A text with an operator that has a truth value. -/
theorem decided_newIn {i : Item Atom} (hmem : i ∈ text) (hspace : isSpace i = false)
    (hatom : ∀ a, i ≠ .token (.atom a)) (hvalue : valueOf env.meaning text = some (ofBool r)) :
    Decided env (Expr.newIn text (some booleanConstants)) r := by
  have hnone := constantValue_newIn (s := some booleanConstants) hmem hspace hatom
  refine ⟨(value_newIn _ _).trans hvalue, ⟨_, ?_, Finset.Subset.refl _, int_ofBool_mem r⟩, ?_⟩
  · exact newIn_valueSet ⟨_, int_ofBool_mem r⟩
  · intro c hc
    cases hnone.symm.trans hc

/-- A comparison that is emitted. -/
theorem decided_around_group {o : BinOp} (ho : o ∈ levels.flatten)
    (happly : applyOp env.arith o v w = ofBool r) (ha : Sound env K a v) (hb : Sound env L b w) :
    Decided env (Expr.newIn (around o a.group.code b.group.code) (some booleanConstants)) r := by
  have hmem : Item.token (.op o) ∈ around o a.group.code b.group.code := by simp [around]
  refine decided_newIn hmem rfl (fun _ h => by cases h) ?_
  rw [group_code, group_code, ← happly]
  exact valueOf_around_parens ho ha.value hb.value

/-- A disjunction that is emitted. -/
theorem decided_around_lor {d e : Disjuncts}
    (hd : outline env.meaning a.code = some (.last (.last d)))
    (he : outline env.meaning b.code = some (.last (.last e))) :
    Decided env (Expr.newIn (around .lor a.code b.code) (some booleanConstants))
      (d.holds || e.holds) := by
  have hmem : Item.token (.op .lor) ∈ around .lor a.code b.code := by simp [around]
  refine decided_newIn hmem rfl (fun _ h => by cases h) ?_
  rw [valueOf_eq_outline, outline_around_lor hd he]
  exact congrArg some (foldr_lor_concat _ d e)

/-! ## Comparisons -/

theorem IsDecimal.ne_nil {digits : List (Fin 10)} (h : IsDecimal digits) : digits ≠ [] := by
  rcases h with rfl | ⟨d, rest, rfl, -⟩
  · exact List.cons_ne_nil _ _
  · exact List.cons_ne_nil _ _

/-- C reads digits without a leading zero as Python does. -/
theorem IsDecimal.literal_eq {digits : List (Fin 10)} (h : IsDecimal digits) :
    literal digits = some (ofDigits 10 digits) := by
  rcases h with rfl | ⟨d, rest, rfl, hd⟩
  · rfl
  · rw [literal, if_pos hd]

/-- The comparison of two expressions is right if the environment keeps their constants apart. -/
theorem Sound.equalsHolds (ha : Sound env K a v) (hb : Sound env K b w)
    (hinj : Set.InjOn env.constant K) : equalsHolds a b v w = decide (v = w) := by
  rw [Ava.Generator.equalsHolds]
  split_ifs with hsame hdifferent
  · rw [eq_comm, decide_eq_true_eq]
    rcases foldsSame_iff.1 hsame with ⟨x, hsa, hsb⟩ | hcode
    · obtain ⟨-, c, hc, rfl⟩ := ha.contains _ hsa
      obtain ⟨-, d, hd, rfl⟩ := hb.contains _ hsb
      rw [Finset.mem_singleton.1 hc, Finset.mem_singleton.1 hd]
    · exact eq_of_code_eq ha.value hb.value hcode
  · rw [eq_comm, decide_eq_false_iff_not]
    rintro rfl
    obtain ⟨hconstant, hcode⟩ := not_or.1 (mt foldsSame_iff.2 hsame)
    rcases (foldsDifferent_iff hcode).1 hdifferent with ⟨s, t, hsa, hsb, hsets⟩ | ⟨⟨c, hc⟩, d, hd⟩
    · -- a constant with the value in each of the sets, which are disjoint
      obtain ⟨hsub, c, hc, hcv⟩ := ha.contains _ hsa
      obtain ⟨hsub', d, hd, hdv⟩ := hb.contains _ hsb
      have hcd := hinj (hsub hc) (hsub' hd) (hcv.trans hdv.symm)
      subst hcd
      exact Finset.disjoint_left.1 hsets hc hd
    · -- two texts of one constant would have the same value set
      obtain ⟨hcK, hcv⟩ := ha.constant_eq hc
      obtain ⟨hdK, hdv⟩ := hb.constant_eq hd
      have hcd := hinj hcK hdK (hcv.trans hdv.symm)
      subst hcd
      exact hconstant ⟨c, ha.constant c hc, hb.constant c hd⟩
  · rfl

theorem decided_equality {o : BinOp} {same : Bool} (ho : o ∈ levels.flatten)
    (happly : applyOp env.arith o v w = ofBool (decide (v = w) == same))
    (ha : Sound env K a v) (hb : Sound env K b w) (hinj : Set.InjOn env.constant K) :
    Decided env (Expr.equality o same a b) (decide (v = w) == same) := by
  have hholds := ha.equalsHolds hb hinj
  rw [Ava.Generator.equalsHolds] at hholds
  rw [Expr.equality]
  change Decided env (if a.foldsSame b then _ else if a.foldsDifferent b then _ else _) _
  split_ifs at hholds ⊢ with hsame hdifferent
  · rw [← hholds, Bool.true_beq]
    exact decided_ofBool env same
  · rw [← hholds, Bool.false_beq]
    exact decided_ofBool env (!same)
  · exact decided_around_group ho happly ha hb

theorem decided_equals (ha : Sound env K a v) (hb : Sound env K b w)
    (hinj : Set.InjOn env.constant K) : Decided env (a.equals b) (decide (v = w)) := by
  rw [← beq_true (decide (v = w))]
  exact decided_equality (by simp [levels]) (by simp [applyOp]) ha hb hinj

theorem decided_notEquals (ha : Sound env K a v) (hb : Sound env K b w)
    (hinj : Set.InjOn env.constant K) : Decided env (a.notEquals b) (!decide (v = w)) := by
  rw [← beq_false (decide (v = w))]
  exact decided_equality (by simp [levels]) (by simp [applyOp]) ha hb hinj

/-! ## `one_of` -/

/-- The constant that a text is taken for. -/
def leafConstants (code : Code) : Finset Constant :=
  match constantValue (strip code) with
  | some c => {c}
  | none => ∅

/-- A text that means in C what Python takes it for. -/
theorem sound_new {code : Code} (hv : valueOf env.meaning code = some v)
    (h : ∀ c, constantValue (strip code) = some c → env.constant c = v) :
    Sound env (leafConstants code) (Expr.new code) v := by
  have hset : (Expr.new code).valueSet = (constantValue (strip code)).map fun c => {c} := rfl
  refine ⟨(value_new code).trans hv, fun s hs => ?_, fun c hc => ?_⟩
  · obtain ⟨c, hc, rfl⟩ := Option.map_eq_some_iff.1 (hset.symm.trans hs)
    refine ⟨?_, c, Finset.mem_singleton_self c, h c hc⟩
    rw [leafConstants, hc]
  · exact hset.trans (congrArg (Option.map _) hc)

theorem sound_known (env : Environment) (c : KnownConstant) :
    Sound env {.name c} (Expr.new (knownText c)) (env.known c) := by
  have hv : valueOf env.meaning (knownText c) = some (env.known c) := rfl
  refine sound_new hv fun d hd => ?_
  cases hd
  rfl

theorem Decided.or (ha : Settled env a r) (hb : Settled env b s) (hda : Decided env a r)
    (hdb : Decided env b s) : Decided env (a.or b) (r || s) := by
  rw [Expr.or]
  split_ifs with hfalse htrue
  · rw [Bool.or_eq_true] at hfalse
    rcases hfalse with h | h
    · rw [ha.isFalse h, Bool.false_or]
      exact hdb
    · rw [hb.isTrue h, Bool.or_true, ← hb.isTrue h]
      exact hdb
  · rw [Bool.or_eq_true] at htrue
    rcases htrue with h | h
    · rw [ha.isTrue h, Bool.true_or, ← ha.isTrue h]
      exact hda
    · rw [hb.isFalse h, Bool.or_false]
      exact hda
  · obtain ⟨d, hd, rfl⟩ := ha.outline
    obtain ⟨e, he, rfl⟩ := hb.outline
    exact decided_around_lor hd he

theorem decided_foldl (he : Sound env K e v) (hinj : Set.InjOn env.constant K)
    {values : List Code} (hvalues : ∀ c ∈ values, ∃ w, Sound env K (Expr.new c) w)
    {acc : Expr} (hsettled : Settled env acc r) (hacc : Decided env acc r) :
    ∃ s, Decided env (values.foldl (fun accum c => accum.or (e.equals (Expr.new c))) acc) s ∧
      (s = true ↔ r = true ∨ IsOneOf env values v) := by
  induction values generalizing acc r with
  | nil => exact ⟨r, hacc, by simp [IsOneOf]⟩
  | cons c values ih =>
    obtain ⟨w, hw⟩ := hvalues c List.mem_cons_self
    have hequals : Settled env (e.equals (Expr.new c)) (decide (v = w)) := by
      rw [← he.equalsHolds hw hinj]
      exact Settled.equals he.value hw.value
    obtain ⟨s, hs, hiff⟩ := ih (fun c' hc' => hvalues c' (List.mem_cons_of_mem c hc'))
      (hsettled.or hequals) (Decided.or hsettled hequals hacc (decided_equals he hw hinj))
    refine ⟨s, hs, hiff.trans ?_⟩
    have hc : valueOf env.meaning c = some w := (value_new c).symm.trans hw.value
    simp only [IsOneOf, List.exists_mem_cons_iff, hc, Option.some.injEq, Bool.or_eq_true,
      decide_eq_true_eq, or_assoc, @eq_comm _ w v]

theorem decided_oneOf (he : Sound env K e v) (hinj : Set.InjOn env.constant K)
    {values : List Code} (hvalues : ∀ c ∈ values, ∃ w, Sound env K (Expr.new c) w) :
    ∃ s, Decided env (e.oneOf values) s ∧ (s = true ↔ IsOneOf env values v) := by
  change ∃ s, Decided env (if e.withinValues values then _ else _) s ∧ _
  split_ifs with hwithin
  · -- the constant with the value of the text is one of the names
    obtain ⟨s, hs, -, hnames⟩ := withinValues_iff.1 hwithin
    obtain ⟨-, c, hc, rfl⟩ := he.contains s hs
    obtain ⟨k, rfl, hk⟩ := hnames c hc
    exact ⟨true, decided_ofBool env true, iff_of_true rfl ⟨_, hk, rfl⟩⟩
  · obtain ⟨s, hs, hiff⟩ :=
      decided_foldl he hinj hvalues (Settled.ofBool env false) (decided_ofBool env false)
    exact ⟨s, hs, by simpa using hiff⟩

/-! ## The other operations -/

theorem Sound.isTrue (h : Sound env K e v) (htrue : e.isTrue = true) : v = 1 := by
  rw [Expr.isTrue, decide_eq_true_eq] at htrue
  exact (h.constant_eq htrue).2.symm

theorem Sound.isFalse (h : Sound env K e v) (hfalse : e.isFalse = true) : v = 0 := by
  rw [Expr.isFalse, decide_eq_true_eq] at hfalse
  exact (h.constant_eq hfalse).2.symm

theorem decided_invert (he : Sound env K e v) : Decided env e.invert (decide (v = 0)) := by
  rw [Expr.invert]
  split_ifs with htrue hfalse
  · rw [he.isTrue htrue]
    exact decided_ofBool env false
  · rw [he.isFalse hfalse]
    exact decided_ofBool env true
  · refine decided_newIn List.mem_cons_self rfl (fun _ h => by cases h) ?_
    rw [group_code]
    exact valueOf_not he.value

theorem Sound.group (he : Sound env K e v) : Sound env K e.group v := by
  have hnone : constantValue e.group.code = none := by
    rw [group_code]
    rfl
  have hset : e.group.valueSet = e.valueSet := by
    rw [Expr.group]
    cases hs : e.valueSet with
    | none => rfl
    | some s =>
      obtain ⟨-, c, hc, -⟩ := he.contains s hs
      exact newIn_valueSet ⟨c, hc⟩
  refine ⟨?_, fun s hs => he.contains s (hset.symm.trans hs), fun c hc => ?_⟩
  · rw [Expr.value, group_code]
    exact valueOf_parens he.value
  · cases hnone.symm.trans hc

theorem chosen_cases (x v w : Int) : chosen x v w = v ∨ chosen x v w = w := by
  rw [chosen]
  split_ifs
  · exact .inl rfl
  · exact .inr rfl

/-- The value set of a conditional expression is that of both branches, if both have one. -/
theorem Sound.contains_union (ha : Sound env K a v) (hb : Sound env K b w) {u : Int}
    (hu : u = v ∨ u = w) {s : Finset Constant}
    (hnone : constantValue (Expr.newIn text (valueSetUnion a.valueSet b.valueSet)).code = none)
    (hs : (Expr.newIn text (valueSetUnion a.valueSet b.valueSet)).valueSet = some s) :
    s ⊆ K ∧ ∃ c ∈ s, env.constant c = u := by
  -- without both sets the set of the text would be that of a constant
  have hnew : (Expr.new text).valueSet = some s → constantValue (Expr.new text).code = none →
      s ⊆ K ∧ ∃ c ∈ s, env.constant c = u := by
    intro hset hcode
    rw [Expr.new] at hset hcode
    rw [hcode] at hset
    cases hset
  cases hsa : a.valueSet with
  | none =>
    rw [hsa] at hs hnone
    exact hnew hs hnone
  | some sa =>
    cases hsb : b.valueSet with
    | none =>
      rw [hsa, hsb] at hs hnone
      exact hnew hs hnone
    | some sb =>
      obtain ⟨hsubA, c, hc, hcv⟩ := ha.contains sa hsa
      obtain ⟨hsubB, d, hd, hdw⟩ := hb.contains sb hsb
      have hunion : (sa ∪ sb).Nonempty := ⟨c, Finset.mem_union_left _ hc⟩
      rw [hsa, hsb, valueSetUnion, newIn_valueSet hunion] at hs
      cases hs
      refine ⟨Finset.union_subset hsubA hsubB, ?_⟩
      rcases hu with rfl | rfl
      · exact ⟨c, Finset.mem_union_left _ hc, hcv⟩
      · exact ⟨d, Finset.mem_union_right _ hd, hdw⟩

/-- `if_then_else_expression`, with a condition that is 0 or 1 if the branches are 1 and 0. -/
theorem Sound.ifThenElse {c : Expr} {x : Int} (hc : Sound env K c x) (ha : Sound env K a v)
    (hb : Sound env K b w) (hx : a.isTrue = true → b.isFalse = true → x = 0 ∨ x = 1) :
    Sound env K (c.ifThenElseExpression a b) (chosen x v w) := by
  rw [Expr.ifThenElseExpression]
  split_ifs with htrue hfalse hbranches
  · have hv : chosen x v w = v := by
      rw [Bool.or_eq_true, decide_eq_true_eq] at htrue
      rcases htrue with h | h
      · rw [hc.isTrue h]
        rfl
      · rw [chosen, eq_of_code_eq ha.value hb.value h, ite_self]
    rw [hv]
    exact ha
  · rw [hc.isFalse hfalse]
    exact hb
  · -- the condition has the value of the branch that it chooses
    rw [Bool.and_eq_true] at hbranches
    rw [ha.isTrue hbranches.1, hb.isFalse hbranches.2]
    have hchosen : chosen x 1 0 = x := by
      rcases hx hbranches.1 hbranches.2 with rfl | rfl
      · rfl
      · rfl
    rw [hchosen]
    exact hc
  · have hmem : Item.enclosed .choice ([.token .space] ++ a.group.code ++ [.token .space]) ∈
        conditional c.group.code a.group.code b.group.code := by simp [conditional]
    have hnone := constantValue_newIn (s := valueSetUnion a.valueSet b.valueSet) hmem rfl
      (fun _ h => by cases h)
    refine ⟨?_, fun s hs => ?_, fun d hd => by cases hnone.symm.trans hd⟩
    · rw [value_newIn, group_code, group_code, group_code]
      exact valueOf_conditional hc.value ha.value hb.value
    · exact ha.contains_union hb (chosen_cases x v w) hnone hs

end Sound

/-! ## Nested operations -/

/-- An expression built by any nesting of the operations that compute value sets. -/
inductive ValueTerm where
  | literal (sign : Sign) (digits : List (Fin 10))
  | known (c : KnownConstant)
  | text (code : Code)
  | equals (s t : ValueTerm)
  | notEquals (s t : ValueTerm)
  | oneOf (t : ValueTerm) (names : List KnownConstant)
  | invert (t : ValueTerm)
  | group (t : ValueTerm)
  | ifThenElse (c s t : ValueTerm)

namespace ValueTerm

def build : ValueTerm → Expr
  | .literal sign digits => Expr.new [.token (.atom (.number sign digits))]
  | .known c => Expr.new (knownText c)
  | .text code => Expr.new code
  | .equals s t => s.build.equals t.build
  | .notEquals s t => s.build.notEquals t.build
  | .oneOf t names => t.build.oneOf (names.map knownText)
  | .invert t => t.build.invert
  | .group t => t.build.group
  | .ifThenElse c s t => c.build.ifThenElseExpression s.build t.build

/-- What the nesting stands for. -/
def eval (env : Environment) : ValueTerm → Int
  | .literal sign digits => sign.apply (ofDigits 10 digits)
  | .known c => env.known c
  | .text code => (valueOf env.meaning code).getD 0
  | .equals s t => ofBool (decide (s.eval env = t.eval env))
  | .notEquals s t => ofBool (!decide (s.eval env = t.eval env))
  | .oneOf t names => ofBool (names.any fun c => decide (t.eval env = env.known c))
  | .invert t => ofBool (decide (t.eval env = 0))
  | .group t => t.eval env
  | .ifThenElse c s t => chosen (c.eval env) (s.eval env) (t.eval env)

/-- Literals are decimal, other texts are integer expressions that are not constants, and conditions
and the operands of `~` are 0 or 1. -/
def Proper (env : Environment) : ValueTerm → Prop
  | .literal _ digits => IsDecimal digits
  | .known _ => True
  | .text code => constantValue (strip code) = none ∧ ∃ v, valueOf env.meaning code = some v
  | .equals s t => s.Proper env ∧ t.Proper env
  | .notEquals s t => s.Proper env ∧ t.Proper env
  | .oneOf t _ => t.Proper env
  | .invert t => t.Proper env ∧ (t.eval env = 0 ∨ t.eval env = 1)
  | .group t => t.Proper env
  | .ifThenElse c s t =>
    c.Proper env ∧ (c.eval env = 0 ∨ c.eval env = 1) ∧ s.Proper env ∧ t.Proper env

/-- The constants that the value set of the expression may have. -/
def constants : ValueTerm → Finset Constant
  | .literal sign digits => {.int (sign.apply (ofDigits 10 digits))}
  | .known c => {.name c}
  | .text _ => ∅
  | .equals _ _ => booleanConstants
  | .notEquals _ _ => booleanConstants
  | .oneOf _ _ => booleanConstants
  | .invert _ => booleanConstants
  | .group t => t.constants
  | .ifThenElse c s t => c.constants ∪ (s.constants ∪ t.constants)

/-- The constants that take part in comparisons. -/
def compared : ValueTerm → Finset Constant
  | .literal _ _ => ∅
  | .known _ => ∅
  | .text _ => ∅
  | .equals s t => (s.constants ∪ t.constants) ∪ (s.compared ∪ t.compared)
  | .notEquals s t => (s.constants ∪ t.constants) ∪ (s.compared ∪ t.compared)
  | .oneOf t names => (t.constants ∪ (names.map Constant.name).toFinset) ∪ t.compared
  | .invert t => t.compared
  | .group t => t.compared
  | .ifThenElse c s t => c.compared ∪ (s.compared ∪ t.compared)

/-- The comparisons. -/
def IsComparison : ValueTerm → Prop
  | .equals _ _ => True
  | .notEquals _ _ => True
  | .oneOf _ _ => True
  | _ => False

section Terms

variable {env : Environment} {t : ValueTerm}

theorem sound_literal (sign : Sign) {digits : List (Fin 10)} (h : IsDecimal digits) :
    Sound env (literal sign digits).constants (literal sign digits).build
      ((literal sign digits).eval env) := by
  have hconstant : constantValue (strip [.token (.atom (.number sign digits))]) =
      some (.int (sign.apply (ofDigits 10 digits))) := if_neg h.ne_nil
  have hv : valueOf env.meaning [.token (.atom (.number sign digits))] =
      some (sign.apply (ofDigits 10 digits)) :=
    valueOf_atom (congrArg (Option.map sign.apply) h.literal_eq)
  have hsound := sound_new hv fun c hc => by
    cases hconstant.symm.trans hc
    rfl
  rwa [leafConstants, hconstant] at hsound

theorem sound_text {code : Code} (h : (text code).Proper env) :
    Sound env (text code).constants (text code).build ((text code).eval env) := by
  obtain ⟨hnone, v, hv⟩ := h
  have hsound := sound_new hv fun c hc => by cases hnone.symm.trans hc
  rw [leafConstants, hnone] at hsound
  rwa [eval, hv]

theorem sound_oneOf {names : List KnownConstant} (ht : Sound env t.constants t.build (t.eval env))
    (hinj : Set.InjOn env.constant
      (t.constants ∪ (names.map Constant.name).toFinset : Finset Constant)) :
    Decided env (oneOf t names).build (names.any fun c => decide (t.eval env = env.known c)) := by
  have hnames : ∀ c ∈ names.map knownText, ∃ w, Sound env
      (t.constants ∪ (names.map Constant.name).toFinset) (Expr.new c) w := by
    intro c hc
    obtain ⟨k, hk, rfl⟩ := List.mem_map.1 hc
    refine ⟨_, (sound_known env k).mono ?_⟩
    rw [Finset.singleton_subset_iff, Finset.mem_union, List.mem_toFinset]
    exact .inr (List.mem_map_of_mem hk)
  obtain ⟨r, hr, hiff⟩ := decided_oneOf (ht.mono Finset.subset_union_left) hinj hnames
  have hany : r = names.any fun c => decide (t.eval env = env.known c) := by
    have hvalue : ∀ k, valueOf env.meaning (knownText k) = some (env.known k) := fun _ => rfl
    rw [Bool.eq_iff_iff, hiff, List.any_eq_true]
    simp [IsOneOf, hvalue, eq_comm]
  exact hany ▸ hr

/-- What the constants of a comparison of two operands include. -/
theorem injOn_compared {s : ValueTerm} (h : Set.InjOn env.constant (equals s t).compared) :
    Set.InjOn env.constant (s.constants ∪ t.constants : Finset Constant) ∧
      Set.InjOn env.constant s.compared ∧ Set.InjOn env.constant t.compared := by
  rw [compared] at h
  refine ⟨h.mono ?_, h.mono ?_, h.mono ?_⟩
  · exact Finset.coe_subset.2 Finset.subset_union_left
  · exact Finset.coe_subset.2 (Finset.subset_union_left.trans Finset.subset_union_right)
  · exact Finset.coe_subset.2 (Finset.subset_union_right.trans Finset.subset_union_right)

/-- Every expression stands for what the nesting stands for, and a comparison is decided. -/
theorem sound_build (h : t.Proper env) (hinj : Set.InjOn env.constant t.compared) :
    Sound env t.constants t.build (t.eval env) ∧
      (t.IsComparison → ∃ r, t.eval env = ofBool r ∧ Decided env t.build r) := by
  induction t with
  | literal sign digits => exact ⟨sound_literal sign h, False.elim⟩
  | known c => exact ⟨sound_known env c, False.elim⟩
  | text code => exact ⟨sound_text h, False.elim⟩
  | equals s t ihs iht =>
    obtain ⟨hboth, hs, ht⟩ := injOn_compared hinj
    have hdecided := decided_equals ((ihs h.1 hs).1.mono Finset.subset_union_left)
      ((iht h.2 ht).1.mono Finset.subset_union_right) hboth
    exact ⟨hdecided.sound, fun _ => ⟨_, rfl, hdecided⟩⟩
  | notEquals s t ihs iht =>
    obtain ⟨hboth, hs, ht⟩ := injOn_compared hinj
    have hdecided := decided_notEquals ((ihs h.1 hs).1.mono Finset.subset_union_left)
      ((iht h.2 ht).1.mono Finset.subset_union_right) hboth
    exact ⟨hdecided.sound, fun _ => ⟨_, rfl, hdecided⟩⟩
  | oneOf t names ih =>
    have ht : Set.InjOn env.constant t.compared :=
      hinj.mono (Finset.coe_subset.2 Finset.subset_union_right)
    have hdecided := sound_oneOf (ih h ht).1
      (hinj.mono (Finset.coe_subset.2 Finset.subset_union_left))
    exact ⟨hdecided.sound, fun _ => ⟨_, rfl, hdecided⟩⟩
  | invert t ih => exact ⟨(decided_invert (ih h.1 hinj).1).sound, False.elim⟩
  | group t ih => exact ⟨(ih h hinj).1.group, False.elim⟩
  | ifThenElse c s t ihc ihs iht =>
    obtain ⟨hc, hbool, hs, ht⟩ := h
    rw [compared] at hinj
    have hsoundc := (ihc hc (hinj.mono (Finset.coe_subset.2 Finset.subset_union_left))).1
    have hsounds := (ihs hs (hinj.mono (Finset.coe_subset.2
      (Finset.subset_union_left.trans Finset.subset_union_right)))).1
    have hsoundt := (iht ht (hinj.mono (Finset.coe_subset.2
      (Finset.subset_union_right.trans Finset.subset_union_right)))).1
    refine ⟨?_, False.elim⟩
    exact Sound.ifThenElse (hsoundc.mono Finset.subset_union_left)
      (hsounds.mono (Finset.subset_union_left.trans Finset.subset_union_right))
      (hsoundt.mono (Finset.subset_union_right.trans Finset.subset_union_right)) fun _ _ => hbool

end Terms

end ValueTerm

/-- In every environment in which the constants that are compared have distinct values, the text of
an expression has the value that the nesting stands for, its value set has a constant of that value,
and a comparison that is folded to a constant is folded to its truth value. -/
theorem value_sets_sound (env : Environment) (t : ValueTerm) (h : t.Proper env)
    (hinj : Set.InjOn env.constant t.compared) :
    t.build.value env = some (t.eval env) ∧
      (∀ s, t.build.valueSet = some s → ∃ c ∈ s, env.constant c = t.eval env) ∧
      (t.IsComparison → ∀ c, constantValue t.build.code = some c → c = .int (t.eval env)) := by
  obtain ⟨hsound, hcomparison⟩ := ValueTerm.sound_build h hinj
  refine ⟨hsound.value, fun s hs => (hsound.contains s hs).2, fun hc c hcode => ?_⟩
  obtain ⟨r, hr, hdecided⟩ := hcomparison hc
  rw [hr]
  exact (hdecided.constant c hcode).1

/-- Every known name has a value of its own, and names that are not known are 0. -/
def rankedEnvironment : Environment where
  known := fun c => c.rank + 2
  word := fun value _ => ofBool value
  other := fun _ => 0
  arith := fun _ v _ => v

/-- `(p ? NW_SYNC : NW_ASYNC) == NW_FLUSH` is folded to 0. -/
theorem value_sets_sound_folded :
    let t : ValueTerm := .equals
      (.ifThenElse (.text (nameText "p")) (.known .nwSync) (.known .nwAsync)) (.known .nwFlush)
    t.build.value rankedEnvironment = some 0 ∧
      ∀ c, constantValue t.build.code = some c → c = .int 0 := by
  intro t
  have hproper : t.Proper rankedEnvironment :=
    ⟨⟨⟨rfl, 0, rfl⟩, .inl rfl, trivial, trivial⟩, trivial⟩
  have hinj : Set.InjOn rankedEnvironment.constant t.compared := by
    intro a ha b hb
    simp only [t, ValueTerm.compared, ValueTerm.constants, Finset.coe_union, Finset.coe_singleton,
      Finset.coe_empty, Set.union_empty, Set.empty_union, Set.mem_union,
      Set.mem_singleton_iff] at ha hb
    rcases ha with (rfl | rfl) | rfl <;> rcases hb with (rfl | rfl) | rfl <;> decide
  obtain ⟨hvalue, -, hfold⟩ := value_sets_sound rankedEnvironment t hproper hinj
  exact ⟨hvalue, hfold trivial⟩

end Ava.Generator
