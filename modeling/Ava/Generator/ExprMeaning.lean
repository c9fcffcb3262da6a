import Mathlib.Data.List.TakeWhile
import Ava.Generator.Expr
import Ava.Lib.COutline

/-!
# What the expressions of the generator mean

At every operation, the text that the algebra produces is compared with the operation applied to the
values of its operands: the text has to have the same truth value, and that of
`if_then_else_expression` the value of the chosen branch. `Term.Meets` is the exact condition on the
operands and the constants that they may be, operation by operation:

* `&` and `|` do not put their operands into parentheses, so the operators `||`, `?:` and the comma
  that the operands have outside of brackets take part in the reading (`ReadsAnd`, `ReadsOr`);
* `equals`, `not_equals` and `one_of` take constants that are spelled differently for different
  values, and value sets that are disjoint as sets of spellings for disjoint sets of values;
* `>` and `>=` compare two names as Python strings, and `>=` gives 0 for equal texts;
* `if_then_else_expression` with the branches 1 and 0 returns the condition itself;
* C reads a number with a leading zero differently from Python, and may define a name like `TRUE`
  as anything.
-/

set_option autoImplicit false

namespace Ava.Generator

open Ava.Lib.CText

/-- The value of the text of an expression. -/
def Expr.value (env : Environment) (e : Expr) : Option Int := valueOf env.meaning e.code

/-! ## Texts and constants -/

section Strip

variable {m : Meaning Atom} {code : Code} {i : Item Atom}

theorem pieces_of_spaces (h : ∀ i ∈ code, isSpace i = true) : Text.pieces m code = some [] := by
  induction code with
  | nil => rw [Text.pieces]
  | cons i code ih =>
    have hi : i = .token .space := by
      have hspace := h i List.mem_cons_self
      cases i with
      | token t => cases t <;> first | rfl | simp [isSpace] at hspace
      | enclosed kind inner => simp [isSpace] at hspace
    rw [Text.pieces, hi, Item.pieces, ih fun j hj => h j (List.mem_cons_of_mem i hj)]
    rfl

theorem pieces_dropWhile (code : Code) :
    Text.pieces m (code.dropWhile isSpace) = Text.pieces m code := by
  conv_rhs => rw [← List.takeWhile_append_dropWhile (p := isSpace) (l := code)]
  rw [pieces_append, pieces_of_spaces fun i hi => List.mem_takeWhile_imp hi, Option.bind_some]
  simp

theorem pieces_strip (code : Code) : Text.pieces m (strip code) = Text.pieces m code := by
  have htail : ∀ text : Code,
      Text.pieces m (text.reverse.dropWhile isSpace).reverse = Text.pieces m text := by
    intro text
    have hsplit : text = (text.reverse.dropWhile isSpace).reverse ++
        (text.reverse.takeWhile isSpace).reverse := by
      rw [← List.reverse_append, List.takeWhile_append_dropWhile, List.reverse_reverse]
    conv_rhs => rw [hsplit]
    have hspaces : ∀ i ∈ (text.reverse.takeWhile isSpace).reverse, isSpace i = true :=
      fun i hi => List.mem_takeWhile_imp (List.mem_reverse.1 hi)
    rw [pieces_append, pieces_of_spaces hspaces]
    rcases Text.pieces m (text.reverse.dropWhile isSpace).reverse with - | ps
    · rfl
    · simp
  rw [strip, htail, pieces_dropWhile]

theorem valueOf_strip (code : Code) : valueOf m (strip code) = valueOf m code := by
  rw [valueOf, pieces_strip, valueOf]

theorem outline_strip (code : Code) : outline m (strip code) = outline m code := by
  rw [outline, pieces_strip, outline]

theorem mem_strip (h : i ∈ code) (hi : isSpace i = false) : i ∈ strip code := by
  have hdrop : ∀ text : Code, i ∈ text → i ∈ text.dropWhile isSpace := by
    intro text hmem
    rw [← List.takeWhile_append_dropWhile (p := isSpace) (l := text), List.mem_append] at hmem
    refine hmem.resolve_left fun htake => ?_
    rw [List.mem_takeWhile_imp htake] at hi
    cases hi
  rw [strip, List.mem_reverse]
  exact hdrop _ (List.mem_reverse.2 (hdrop _ h))

/-- A text with anything but an atom is not a constant. -/
theorem constantValue_eq_none (h : i ∈ code) (hi : ∀ a, i ≠ .token (.atom a)) :
    constantValue code = none := by
  unfold constantValue
  split
  · rename_i a
    rw [List.mem_singleton] at h
    exact absurd h (hi a)
  · rfl

end Strip

/-! ## Texts of expressions -/

section Texts

variable {env : Environment} {a b : Expr} {v w : Int}

theorem newIn_code (text : Code) (s : ValueSet) : (Expr.newIn text s).code = strip text := by
  unfold Expr.newIn
  split
  · split_ifs <;> rfl
  · rfl

theorem value_newIn (text : Code) (s : ValueSet) :
    (Expr.newIn text s).value env = valueOf env.meaning text := by
  rw [Expr.value, newIn_code, valueOf_strip]

/-- A text with anything but atoms and spaces is not taken for a constant. -/
theorem constantValue_newIn {text : Code} {s : ValueSet} {i : Item Atom} (h : i ∈ text)
    (hspace : isSpace i = false) (hatom : ∀ a, i ≠ .token (.atom a)) :
    constantValue (Expr.newIn text s).code = none := by
  rw [newIn_code]
  exact constantValue_eq_none (mem_strip h hspace) hatom

theorem group_code (e : Expr) : e.group.code = parens e.code := newIn_code _ _

theorem value_ofBool (r : Bool) : (Expr.ofBool r).value env = some (ofBool r) := by
  cases r <;> rfl

/-- Two expressions in parentheses around a comparison. -/
theorem value_around_group {o : BinOp} {s : ValueSet} (ho : o ∈ levels.flatten)
    (ha : a.value env = some v) (hb : b.value env = some w) :
    (Expr.newIn (around o a.group.code b.group.code) s).value env =
      some (applyOp env.arith o v w) := by
  rw [value_newIn, group_code, group_code]
  exact valueOf_around_parens ho ha hb

end Texts

/-! ## The condition on the operands -/

/-- There is one constant that both expressions have to be. -/
def Expr.SameConstant (a b : Expr) : Prop := ∃ c, a.valueSet = some {c} ∧ b.valueSet = some {c}

/-- No constant may be both, or both are constants. -/
def Expr.Apart (a b : Expr) : Prop :=
  (∃ s t, a.valueSet = some s ∧ b.valueSet = some t ∧ Disjoint s t) ∨
    (∃ c, constantValue a.code = some c) ∧ ∃ d, constantValue b.code = some d

/-- The condition on the comparison of two operands: two spellings of one constant have one value,
and operands of which no constant may be both have different values. -/
def equalsMeets (a b : Expr) (v w : Int) : Prop :=
  (a.SameConstant b → v = w) ∧
    (¬ a.SameConstant b → a.code ≠ b.code → a.Apart b → v ≠ w)

/-- Two constants are in the same order for Python and for C: numbers, which Python reads as `m` and
`n`, and names, which Python compares as strings. -/
def SameOrder (env : Environment) (rel : Int → Int → Prop) (a b : Expr) (v w : Int) : Prop :=
  (∀ m n, constantValue a.code = some (.int m) → constantValue b.code = some (.int n) →
    (rel m n ↔ rel v w)) ∧
  ∀ c d, constantValue a.code = some (.name c) → constantValue b.code = some (.name d) →
    (rel c.rank d.rank ↔ rel (env.known c) (env.known d))

/-- The operations with two operands. -/
inductive Operation where
  | and | or | equals | notEquals | gt | ge
deriving DecidableEq, Repr

def Operation.build : Operation → Expr → Expr → Expr
  | .and => Expr.and
  | .or => Expr.or
  | .equals => Expr.equals
  | .notEquals => Expr.notEquals
  | .gt => Expr.gt
  | .ge => Expr.ge

/-- The operation on values. -/
def Operation.holds : Operation → Int → Int → Prop
  | .and, v, w => v ≠ 0 ∧ w ≠ 0
  | .or, v, w => v ≠ 0 ∨ w ≠ 0
  | .equals, v, w => v = w
  | .notEquals, v, w => v ≠ w
  | .gt, v, w => v > w
  | .ge, v, w => v ≥ w

/-- The condition on two operands and their values. In the first two branches of `&` and `|`, an
operand is taken for 0 or 1, and only a word that C does not define like that can fail. -/
def Operation.Meets (env : Environment) : Operation → Expr → Expr → Int → Int → Prop
  | .and, a, b, v, w =>
    if a.isTrue || b.isFalse then w ≠ 0 → v ≠ 0
    else if a.isFalse || b.isTrue then v ≠ 0 → w ≠ 0
    else ∀ x y, outline env.meaning a.code = some x → outline env.meaning b.code = some y →
      ReadsAnd x y
  | .or, a, b, v, w =>
    if a.isFalse || b.isTrue then v ≠ 0 → w ≠ 0
    else if a.isTrue || b.isFalse then w ≠ 0 → v ≠ 0
    else ∀ x y, outline env.meaning a.code = some x → outline env.meaning b.code = some y →
      ReadsOr x y
  | .equals, a, b, v, w => equalsMeets a b v w
  | .notEquals, a, b, v, w => equalsMeets a b v w
  | .gt, a, b, v, w => a.code ≠ b.code → SameOrder env (· > ·) a b v w
  | .ge, a, b, v, w => a.code ≠ b.code ∧ SameOrder env (· ≥ ·) a b v w

/-! ## Each operation is right exactly under its condition -/

section Operations

variable {env : Environment} {a b : Expr} {v w : Int}

theorem and_right_iff (ha : a.value env = some v) (hb : b.value env = some w) :
    ∃ u, (a.and b).value env = some u ∧
      ((u ≠ 0 ↔ v ≠ 0 ∧ w ≠ 0) ↔ Operation.Meets env .and a b v w) := by
  rw [Expr.and, Operation.Meets]
  split_ifs with htrue hfalse
  · exact ⟨w, hb, by tauto⟩
  · exact ⟨v, ha, by tauto⟩
  · obtain ⟨u, hu, hreads⟩ := valueOf_around_land ha hb
    exact ⟨u, (value_newIn _ _).trans hu, hreads⟩

theorem or_right_iff (ha : a.value env = some v) (hb : b.value env = some w) :
    ∃ u, (a.or b).value env = some u ∧
      ((u ≠ 0 ↔ v ≠ 0 ∨ w ≠ 0) ↔ Operation.Meets env .or a b v w) := by
  rw [Expr.or, Operation.Meets]
  split_ifs with hfalse htrue
  · exact ⟨w, hb, by tauto⟩
  · exact ⟨v, ha, by tauto⟩
  · obtain ⟨u, hu, hreads⟩ := valueOf_around_lor ha hb
    exact ⟨u, (value_newIn _ _).trans hu, hreads⟩

theorem eq_of_code_eq (ha : a.value env = some v) (hb : b.value env = some w)
    (h : a.code = b.code) : v = w := by
  rw [Expr.value, h] at ha
  exact Option.some.inj (ha.symm.trans hb)

/-- Two expressions that `equals` takes for equal. -/
def Expr.foldsSame (a b : Expr) : Bool :=
  valueSetIssingltonsame a.valueSet b.valueSet || decide (a.code = b.code)

/-- Two expressions that `equals` takes for different, if it does not take them for equal. -/
def Expr.foldsDifferent (a b : Expr) : Bool :=
  valueSetIsdisjoint a.valueSet b.valueSet ||
    (a.isConstant && b.isConstant && decide (a.code ≠ b.code))

theorem foldsSame_iff : a.foldsSame b = true ↔ a.SameConstant b ∨ a.code = b.code := by
  rw [Expr.foldsSame, Bool.or_eq_true, decide_eq_true_eq, Expr.SameConstant]
  refine or_congr_left ?_
  cases a.valueSet with
  | none => simp [valueSetIssingltonsame]
  | some s =>
    cases b.valueSet with
    | none => simp [valueSetIssingltonsame]
    | some t =>
      simp only [valueSetIssingltonsame, decide_eq_true_eq, Finset.card_eq_one,
        Option.some.injEq]
      constructor
      · rintro ⟨rfl, c, rfl⟩
        exact ⟨c, rfl, rfl⟩
      · rintro ⟨c, rfl, rfl⟩
        exact ⟨rfl, c, rfl⟩

theorem foldsDifferent_iff (h : a.code ≠ b.code) : a.foldsDifferent b = true ↔ a.Apart b := by
  simp only [Expr.foldsDifferent, Expr.Apart, Expr.isConstant, Bool.or_eq_true, Bool.and_eq_true,
    decide_eq_true_eq, ne_eq, h, not_false_eq_true, and_true, Option.isSome_iff_exists]
  refine or_congr_left ?_
  cases a.valueSet with
  | none => simp [valueSetIsdisjoint]
  | some s =>
    cases b.valueSet with
    | none => simp [valueSetIsdisjoint]
    | some t => simp [valueSetIsdisjoint]

/-- The truth value of `equals`. -/
def equalsHolds (a b : Expr) (v w : Int) : Bool :=
  if a.foldsSame b then true else if a.foldsDifferent b then false else decide (v = w)

theorem equalsHolds_iff (ha : a.value env = some v) (hb : b.value env = some w) :
    (equalsHolds a b v w = true ↔ v = w) ↔ equalsMeets a b v w := by
  rw [equalsHolds, equalsMeets]
  have hcode := eq_of_code_eq ha hb
  by_cases hsame : a.SameConstant b ∨ a.code = b.code
  · rw [if_pos (foldsSame_iff.2 hsame)]
    tauto
  · rw [if_neg (mt foldsSame_iff.1 hsame)]
    rw [not_or] at hsame
    by_cases hapart : a.Apart b
    · rw [if_pos ((foldsDifferent_iff hsame.2).2 hapart)]
      simp [hsame, hapart]
    · rw [if_neg (mt (foldsDifferent_iff hsame.2).1 hapart), decide_eq_true_eq]
      tauto

theorem equality_value {o : BinOp} {same : Bool} (ho : o ∈ levels.flatten)
    (hsame : applyOp env.arith o v w = ofBool (decide (v = w) == same))
    (ha : a.value env = some v) (hb : b.value env = some w) :
    (Expr.equality o same a b).value env = some (ofBool (equalsHolds a b v w == same)) := by
  rw [Expr.equality, equalsHolds]
  change (if a.foldsSame b then _ else if a.foldsDifferent b then _ else _ : Expr).value env = _
  split_ifs with hfold hdifferent
  · rw [value_ofBool]
    cases same <;> rfl
  · rw [value_ofBool]
    cases same <;> rfl
  · rw [value_around_group ho ha hb, hsame]

theorem equals_value (ha : a.value env = some v) (hb : b.value env = some w) :
    (a.equals b).value env = some (ofBool (equalsHolds a b v w)) := by
  rw [Expr.equals, equality_value (by simp [levels]) (by simp [applyOp]) ha hb, beq_true]

theorem notEquals_value (ha : a.value env = some v) (hb : b.value env = some w) :
    (a.notEquals b).value env = some (ofBool (!equalsHolds a b v w)) := by
  rw [Expr.notEquals, equality_value (by simp [levels]) (by simp [applyOp]) ha hb, beq_false]

/-- What Python makes of the comparison of two constants. -/
def Expr.compared (compare : Constant → Constant → Option Bool) (a b : Expr) : Option Bool :=
  (constantValue a.code).bind fun c => (constantValue b.code).bind fun d => compare c d

theorem order_value {o : BinOp} {compare : Constant → Constant → Option Bool}
    (ho : o ∈ levels.flatten) (hne : a.code ≠ b.code) (ha : a.value env = some v)
    (hb : b.value env = some w) :
    (Expr.order o compare a b).value env =
      some (match a.compared compare b with
        | some r => ofBool r
        | none => applyOp env.arith o v w) := by
  rw [Expr.order, if_neg hne]
  change (match a.compared compare b with
    | some r => _
    | none => _ : Expr).value env = _
  cases a.compared compare b with
  | some r => exact value_ofBool r
  | none => exact value_around_group ho ha hb

theorem order_right_iff (o : BinOp) (compare : Constant → Constant → Option Bool) (p : Prop)
    [Decidable p] (ho : o ∈ levels.flatten) (hp : applyOp env.arith o v w = ofBool (decide p))
    (hne : a.code ≠ b.code) (ha : a.value env = some v) (hb : b.value env = some w) :
    ∃ u, (Expr.order o compare a b).value env = some u ∧
      ((u ≠ 0 ↔ p) ↔ ∀ r, a.compared compare b = some r → (r = true ↔ p)) := by
  refine ⟨_, order_value ho hne ha hb, ?_⟩
  cases a.compared compare b with
  | some r => simp [ofBool_ne_zero]
  | none => simp [hp, ofBool_ne_zero]

theorem value_of_name {c : KnownConstant} (ha : a.value env = some v)
    (h : constantValue a.code = some (.name c)) : v = env.known c := by
  have hcode : a.code = [.token (.atom (.known c))] := by
    unfold constantValue at h
    split at h
    · rename_i x hx
      cases x <;> simp_all [Atom.constant]
    · cases h
  rw [Expr.value, hcode] at ha
  exact (Option.some.inj ha).symm

/-- What Python makes of two constants is right exactly if they are in the same order. -/
theorem compared_right_iff (compare : Constant → Constant → Option Bool) (rel : Int → Int → Prop)
    [DecidableRel rel] (hint : ∀ m n, compare (.int m) (.int n) = some (decide (rel m n)))
    (hname : ∀ c d, compare (.name c) (.name d) = some (decide (rel c.rank d.rank)))
    (hmixed : ∀ m c, compare (.int m) (.name c) = none ∧ compare (.name c) (.int m) = none)
    (ha : a.value env = some v) (hb : b.value env = some w) :
    (∀ r, a.compared compare b = some r → (r = true ↔ rel v w)) ↔ SameOrder env rel a b v w := by
  rw [SameOrder, Expr.compared]
  rcases hca : constantValue a.code with - | m | c <;>
    rcases hcb : constantValue b.code with - | n | d
  case some.int.some.int => simp [hint]
  case some.name.some.name =>
    simp [hname, value_of_name ha hca, value_of_name hb hcb]
  all_goals simp [hmixed]

theorem operation_right_iff (o : Operation) (ha : a.value env = some v)
    (hb : b.value env = some w) :
    ∃ u, (o.build a b).value env = some u ∧
      ((u ≠ 0 ↔ o.holds v w) ↔ o.Meets env a b v w) := by
  cases o with
  | and => exact and_right_iff ha hb
  | or => exact or_right_iff ha hb
  | equals =>
    refine ⟨_, equals_value ha hb, ?_⟩
    rw [ofBool_ne_zero, Operation.holds]
    exact equalsHolds_iff ha hb
  | notEquals =>
    refine ⟨_, notEquals_value ha hb, ?_⟩
    rw [ofBool_ne_zero, Operation.holds, Bool.not_eq_true', ← Bool.not_eq_true, not_iff_not]
    exact equalsHolds_iff ha hb
  | gt =>
    by_cases hcode : a.code = b.code
    · refine ⟨0, ?_, ?_⟩
      · change (Expr.order .gt Expr.constantGt a b).value env = some 0
        rw [Expr.order, if_pos hcode]
        rfl
      · have hvw := eq_of_code_eq ha hb hcode
        simp [Operation.holds, Operation.Meets, hcode, hvw]
    · obtain ⟨u, hu, hiff⟩ := order_right_iff .gt Expr.constantGt (v > w)
        (by simp [levels]) rfl hcode ha hb
      refine ⟨u, hu, hiff.trans ?_⟩
      rw [compared_right_iff Expr.constantGt (· > ·) (fun _ _ => rfl)
        (fun _ _ => by simp [Expr.constantGt]) (fun _ _ => ⟨rfl, rfl⟩) ha hb]
      simp [Operation.Meets, hcode]
  | ge =>
    by_cases hcode : a.code = b.code
    · refine ⟨0, ?_, ?_⟩
      · change (Expr.order .ge Expr.constantGe a b).value env = some 0
        rw [Expr.order, if_pos hcode]
        rfl
      · have hvw := eq_of_code_eq ha hb hcode
        simp [Operation.holds, Operation.Meets, hcode, hvw]
    · obtain ⟨u, hu, hiff⟩ := order_right_iff .ge Expr.constantGe (v ≥ w)
        (by simp [levels]) rfl hcode ha hb
      refine ⟨u, hu, hiff.trans ?_⟩
      rw [compared_right_iff Expr.constantGe (· ≥ ·) (fun _ _ => rfl)
        (fun _ _ => by simp [Expr.constantGe]) (fun _ _ => ⟨rfl, rfl⟩) ha hb]
      simp [Operation.Meets, hcode]

/-- The condition of `~`: only a word for a truth value can fail. -/
def invertMeets (e : Expr) (v : Int) : Prop :=
  if e.isTrue then v ≠ 0 else if e.isFalse then v = 0 else True

theorem invert_right_iff (ha : a.value env = some v) :
    ∃ u, a.invert.value env = some u ∧ ((u ≠ 0 ↔ v = 0) ↔ invertMeets a v) := by
  rw [Expr.invert, invertMeets]
  split_ifs with htrue hfalse
  · exact ⟨0, rfl, by simp⟩
  · exact ⟨1, rfl, by simp⟩
  · refine ⟨ofBool (decide (v = 0)), ?_, ?_⟩
    · rw [value_newIn, group_code]
      exact valueOf_not ha
    · simp [ofBool_ne_zero]

/-- The value of the chosen branch. -/
def chosen (x v w : Int) : Int := if x ≠ 0 then v else w

/-- The condition of `if_then_else_expression`, on the condition, the two branches and the three
values: the condition is returned only if it has one of the values 1 and 0 of the branches. -/
def ifThenElseMeets (c a b : Expr) (x v w : Int) : Prop :=
  if c.isTrue || decide (a.code = b.code) then x = 0 → v = w
  else if c.isFalse then x ≠ 0 → v = w
  else if a.isTrue && b.isFalse then (x ≠ 0 → v = x) ∧ (x = 0 → w = 0)
  else True

theorem ifThenElse_right_iff {c : Expr} {x : Int} (hc : c.value env = some x)
    (ha : a.value env = some v) (hb : b.value env = some w) :
    ∃ u, (c.ifThenElseExpression a b).value env = some u ∧
      (u = chosen x v w ↔ ifThenElseMeets c a b x v w) := by
  rw [Expr.ifThenElseExpression, ifThenElseMeets]
  split_ifs with htrue hfalse hbranches
  · exact ⟨v, ha, by by_cases hx : x = 0 <;> simp [chosen, hx]⟩
  · exact ⟨w, hb, by by_cases hx : x = 0 <;> simp [chosen, hx, eq_comm]⟩
  · exact ⟨x, hc, by by_cases hx : x = 0 <;> simp [chosen, hx, eq_comm]⟩
  · refine ⟨chosen x v w, ?_, by simp⟩
    rw [value_newIn, group_code, group_code, group_code]
    exact valueOf_conditional hc ha hb

end Operations

/-! ## `one_of` -/

/-- An expression whose text is a disjunction with the truth value `r` and nothing weaker outside of
brackets, and which is not taken for a constant with another truth value. -/
structure Settled (env : Environment) (e : Expr) (r : Bool) : Prop where
  outline : ∃ d : Disjuncts, outline env.meaning e.code = some (.last (.last d)) ∧ d.holds = r
  isTrue : e.isTrue = true → r = true
  isFalse : e.isFalse = true → r = false

namespace Settled

variable {env : Environment} {a b : Expr} {r s : Bool}

theorem value (h : Settled env a r) : ∃ v, a.value env = some v ∧ (v ≠ 0 ↔ r = true) := by
  obtain ⟨d, hd, rfl⟩ := h.outline
  exact valueOf_of_outline hd

theorem ofBool (env : Environment) (r : Bool) : Settled env (Expr.ofBool r) r := by
  cases r with
  | false => exact ⟨⟨.last 0, rfl, rfl⟩, nofun, fun _ => rfl⟩
  | true => exact ⟨⟨.last 1, rfl, rfl⟩, fun _ => rfl, nofun⟩

/-- A text around an operator is not taken for a constant. -/
theorem newIn_around {x y : Code} {o : BinOp} {t : ValueSet} {d : Disjuncts}
    (h : Ava.Lib.CText.outline env.meaning (around o x y) = some (.last (.last d))) :
    Settled env (Expr.newIn (around o x y) t) d.holds := by
  have hmem : Item.token (.op o) ∈ around o x y := by simp [around]
  have hnone : constantValue (Expr.newIn (around o x y) t).code = none := by
    apply constantValue_newIn hmem rfl
    intro a ha
    cases ha
  refine ⟨⟨d, ?_, rfl⟩, ?_, ?_⟩
  · rw [newIn_code, outline_strip, h]
  · simp [Expr.isTrue, hnone]
  · simp [Expr.isFalse, hnone]

theorem or (ha : Settled env a r) (hb : Settled env b s) : Settled env (a.or b) (r || s) := by
  rw [Expr.or]
  split_ifs with hfalse htrue
  · rcases Bool.or_eq_true _ _ ▸ hfalse with h | h
    · rw [ha.isFalse h]
      exact hb
    · have hs := hb.isTrue h
      subst hs
      rw [Bool.or_true]
      exact hb
  · rcases Bool.or_eq_true _ _ ▸ htrue with h | h
    · have hr := ha.isTrue h
      subst hr
      exact ha
    · rw [hb.isFalse h, Bool.or_false]
      exact ha
  · obtain ⟨d, hd, rfl⟩ := ha.outline
    obtain ⟨e, he, rfl⟩ := hb.outline
    rw [← holds_concat]
    exact newIn_around (outline_around_lor hd he)

theorem equals {v w : Int} (ha : a.value env = some v) (hb : b.value env = some w) :
    Settled env (a.equals b) (equalsHolds a b v w) := by
  rw [Expr.equals, Expr.equality, equalsHolds]
  change Settled env (if a.foldsSame b then _ else if a.foldsDifferent b then _ else _) _
  split_ifs with hsame hdifferent
  · exact ofBool env true
  · exact ofBool env false
  · have houtline := outline_around_parens (o := .eq) (by simp [levels]) ha hb
    rw [← group_code, ← group_code] at houtline
    have hsettled := newIn_around (t := some booleanConstants) houtline
    simpa [Disjuncts.holds, applyOp, ofBool_ne_zero] using hsettled

end Settled

section OneOf

variable {env : Environment} {e : Expr} {values : List Code} {v : Int}

/-- `value_set.issubset(values)`, for a value set that counts. -/
def Expr.withinValues (e : Expr) (values : List Code) : Bool :=
  match e.valueSet with
  | some s => decide (s ≠ ∅ ∧ ∀ c ∈ s, valuesInclude values c = true)
  | none => false

/-- The text of a known name. -/
def knownText (c : KnownConstant) : Code := [.token (.atom (.known c))]

/-- The expression has to be one of some names, all of which are among the values. -/
def Expr.IsWithin (e : Expr) (values : List Code) : Prop :=
  ∃ s, e.valueSet = some s ∧ s ≠ ∅ ∧ ∀ c ∈ s, ∃ k, c = .name k ∧ knownText k ∈ values

theorem withinValues_iff : e.withinValues values = true ↔ e.IsWithin values := by
  rw [Expr.withinValues, Expr.IsWithin]
  cases e.valueSet with
  | none => simp
  | some s =>
    have hinclude : ∀ c, Expr.valuesInclude values c = true ↔
        ∃ k, c = .name k ∧ knownText k ∈ values := by
      intro c
      cases c <;> simp [Expr.valuesInclude, knownText]
    simp [hinclude]

/-- The value is that of one of the texts. -/
def IsOneOf (env : Environment) (values : List Code) (v : Int) : Prop :=
  ∃ c ∈ values, valueOf env.meaning c = some v

/-- The condition of `one_of`. If the names or the constant that the expression has to be are among
the values, then so is its value. Otherwise, if its value is among them, it is that of one which is
not kept apart from it. -/
def oneOfMeets (env : Environment) (e : Expr) (values : List Code) (v : Int) : Prop :=
  (e.IsWithin values → IsOneOf env values v) ∧
    (¬ e.IsWithin values →
      (∀ c ∈ values, e.SameConstant (Expr.new c) → IsOneOf env values v) ∧
      (IsOneOf env values v → ∃ c ∈ values, e.SameConstant (Expr.new c) ∨
        e.code = (Expr.new c).code ∨ valueOf env.meaning c = some v ∧ ¬ e.Apart (Expr.new c)))

theorem value_new (c : Code) : (Expr.new c).value env = valueOf env.meaning c := valueOf_strip c

theorem settled_foldl (he : e.value env = some v)
    (hvalues : ∀ c ∈ values, ∃ w, valueOf env.meaning c = some w) {acc : Expr} {r : Bool}
    (hacc : Settled env acc r) :
    ∃ s, Settled env (values.foldl (fun accum c => accum.or (e.equals (Expr.new c))) acc) s ∧
      (s = true ↔ r = true ∨ ∃ c ∈ values, ∃ w, valueOf env.meaning c = some w ∧
        equalsHolds e (Expr.new c) v w = true) := by
  induction values generalizing acc r with
  | nil => exact ⟨r, hacc, by simp⟩
  | cons c values ih =>
    obtain ⟨w, hw⟩ := hvalues c List.mem_cons_self
    have hstep := hacc.or (Settled.equals he ((value_new c).trans hw))
    obtain ⟨s, hs, hiff⟩ := ih (fun c' hc' => hvalues c' (List.mem_cons_of_mem c hc')) hstep
    refine ⟨s, hs, hiff.trans ?_⟩
    simp [hw, or_assoc]

theorem exists_equalsHolds_iff (hvalues : ∀ c ∈ values, ∃ w, valueOf env.meaning c = some w) :
    (∃ c ∈ values, ∃ w, valueOf env.meaning c = some w ∧
      equalsHolds e (Expr.new c) v w = true) ↔
    ∃ c ∈ values, e.SameConstant (Expr.new c) ∨ e.code = (Expr.new c).code ∨
      valueOf env.meaning c = some v ∧ ¬ e.Apart (Expr.new c) := by
  refine exists_congr fun c => and_congr_right fun hc => ?_
  obtain ⟨w, hw⟩ := hvalues c hc
  simp only [hw, Option.some.injEq, exists_eq_left', equalsHolds, ← or_assoc]
  by_cases hsame : e.SameConstant (Expr.new c) ∨ e.code = (Expr.new c).code
  · simp [foldsSame_iff.2 hsame, hsame]
  · have hcode := (not_or.1 hsame).2
    rw [if_neg (mt foldsSame_iff.1 hsame), or_iff_right hsame]
    by_cases hapart : e.Apart (Expr.new c)
    · simp [(foldsDifferent_iff hcode).2 hapart, hapart]
    · simp [mt (foldsDifferent_iff hcode).1 hapart, hapart, eq_comm]

theorem oneOf_right_iff (he : e.value env = some v)
    (hvalues : ∀ c ∈ values, ∃ w, valueOf env.meaning c = some w) :
    ∃ u, (e.oneOf values).value env = some u ∧
      ((u ≠ 0 ↔ IsOneOf env values v) ↔ oneOfMeets env e values v) := by
  change ∃ u, (if e.withinValues values then _ else _ : Expr).value env = some u ∧ _
  rw [oneOfMeets]
  by_cases hwithin : e.IsWithin values
  · rw [if_pos (withinValues_iff.2 hwithin)]
    exact ⟨1, rfl, by simp [hwithin]⟩
  · rw [if_neg (mt withinValues_iff.1 hwithin)]
    obtain ⟨s, hs, hiff⟩ := settled_foldl he hvalues (Settled.ofBool env false)
    obtain ⟨u, hu, hus⟩ := hs.value
    refine ⟨u, hu, ?_⟩
    rw [hus, hiff, exists_equalsHolds_iff hvalues]
    simp only [hwithin, false_implies, not_false_eq_true, true_implies, true_and,
      Bool.false_eq_true, false_or]
    -- a value with the text of the expression is its value
    have hcode : ∀ c ∈ values, e.code = (Expr.new c).code → IsOneOf env values v :=
      fun c hc h => ⟨c, hc, by rw [← value_new, Expr.value, ← h]; exact he⟩
    constructor
    · intro h
      exact ⟨fun c hc hsame => h.1 ⟨c, hc, .inl hsame⟩, h.2⟩
    · rintro ⟨hsame, hone⟩
      refine ⟨?_, hone⟩
      rintro ⟨c, hc, h | h | ⟨hval, -⟩⟩
      exacts [hsame c hc h, hcode c hc h, ⟨c, hc, hval⟩]

end OneOf

/-! ## Nested operations -/

/-- An expression built by any nesting of the operations. -/
inductive Term where
  | leaf (code : Code)
  | invert (t : Term)
  | binary (o : Operation) (s t : Term)
  | oneOf (t : Term) (values : List Code)
  | ifThenElse (c s t : Term)

namespace Term

def build : Term → Expr
  | .leaf code => Expr.new code
  | .invert t => t.build.invert
  | .binary o s t => o.build s.build t.build
  | .oneOf t values => t.build.oneOf values
  | .ifThenElse c s t => c.build.ifThenElseExpression s.build t.build

variable (env : Environment)

/-- The texts that the expression is built over are integer expressions. -/
def Readable : Term → Prop
  | .leaf code => ∃ v, valueOf env.meaning code = some v
  | .invert t => t.Readable
  | .binary _ s t => s.Readable ∧ t.Readable
  | .oneOf t values => t.Readable ∧ ∀ c ∈ values, ∃ w, valueOf env.meaning c = some w
  | .ifThenElse c s t => c.Readable ∧ s.Readable ∧ t.Readable

/-- The result of the outermost operation on the values of its operands; of all but
`if_then_else_expression` the truth value counts. -/
def Applied : Term → Int → Prop
  | .leaf code, u => valueOf env.meaning code = some u
  | .invert t, u => ∃ v, t.build.value env = some v ∧ (u ≠ 0 ↔ v = 0)
  | .binary o s t, u =>
    ∃ v w, s.build.value env = some v ∧ t.build.value env = some w ∧ (u ≠ 0 ↔ o.holds v w)
  | .oneOf t values, u => ∃ v, t.build.value env = some v ∧ (u ≠ 0 ↔ IsOneOf env values v)
  | .ifThenElse c s t, u =>
    ∃ x v w, c.build.value env = some x ∧ s.build.value env = some v ∧
      t.build.value env = some w ∧ u = chosen x v w

/-- The text that the outermost operation produces means what it should. -/
def Preserved (t : Term) : Prop := ∃ u, t.build.value env = some u ∧ t.Applied env u

/-- The condition on the operands of the outermost operation. -/
def Meets : Term → Prop
  | .leaf _ => True
  | .invert t => ∀ v, t.build.value env = some v → invertMeets t.build v
  | .binary o s t =>
    ∀ v, s.build.value env = some v → ∀ w, t.build.value env = some w →
      o.Meets env s.build t.build v w
  | .oneOf t values => ∀ v, t.build.value env = some v → oneOfMeets env t.build values v
  | .ifThenElse c s t =>
    ∀ x, c.build.value env = some x → ∀ v, s.build.value env = some v →
      ∀ w, t.build.value env = some w → ifThenElseMeets c.build s.build t.build x v w

/-- A property of the term and of all terms in it. -/
def All (P : Term → Prop) : Term → Prop
  | .leaf code => P (.leaf code)
  | .invert t => P (.invert t) ∧ t.All P
  | .binary o s t => P (.binary o s t) ∧ s.All P ∧ t.All P
  | .oneOf t values => P (.oneOf t values) ∧ t.All P
  | .ifThenElse c s t => P (.ifThenElse c s t) ∧ c.All P ∧ s.All P ∧ t.All P

/-- What the whole nesting means, without any texts of results. -/
def Means : Term → Int → Prop
  | .leaf code, u => valueOf env.meaning code = some u
  | .invert t, u => ∃ v, t.Means v ∧ (u ≠ 0 ↔ v = 0)
  | .binary o s t, u => ∃ v w, s.Means v ∧ t.Means w ∧ (u ≠ 0 ↔ o.holds v w)
  | .oneOf t values, u => ∃ v, t.Means v ∧ (u ≠ 0 ↔ IsOneOf env values v)
  | .ifThenElse c s t, u => ∃ x v w, c.Means x ∧ s.Means v ∧ t.Means w ∧ u = chosen x v w

variable {env} {t : Term}

/-- Every text that is built over integer expressions is one. -/
theorem exists_value (h : t.Readable env) : ∃ v, t.build.value env = some v := by
  induction t with
  | leaf code =>
    obtain ⟨v, hv⟩ := h
    exact ⟨v, (value_new code).trans hv⟩
  | invert t ih =>
    obtain ⟨v, hv⟩ := ih h
    obtain ⟨u, hu, -⟩ := invert_right_iff hv
    exact ⟨u, hu⟩
  | binary o s t ihs iht =>
    obtain ⟨v, hv⟩ := ihs h.1
    obtain ⟨w, hw⟩ := iht h.2
    obtain ⟨u, hu, -⟩ := operation_right_iff o hv hw
    exact ⟨u, hu⟩
  | oneOf t values ih =>
    obtain ⟨v, hv⟩ := ih h.1
    obtain ⟨u, hu, -⟩ := oneOf_right_iff hv h.2
    exact ⟨u, hu⟩
  | ifThenElse c s t ihc ihs iht =>
    obtain ⟨x, hx⟩ := ihc h.1
    obtain ⟨v, hv⟩ := ihs h.2.1
    obtain ⟨w, hw⟩ := iht h.2.2
    obtain ⟨u, hu, -⟩ := ifThenElse_right_iff hx hv hw
    exact ⟨u, hu⟩

/-- A result that has a value is right if that value is. -/
theorem preserved_iff_applied {u : Int} (h : t.build.value env = some u) :
    t.Preserved env ↔ t.Applied env u := by
  refine ⟨?_, fun happlied => ⟨u, h, happlied⟩⟩
  rintro ⟨u', hu', happlied⟩
  cases h.symm.trans hu'
  exact happlied

theorem preserved_iff_meets (h : t.Readable env) : t.Preserved env ↔ t.Meets env := by
  cases t with
  | leaf code =>
    obtain ⟨v, hv⟩ := h
    have hvalue : (leaf code).build.value env = some v := (value_new code).trans hv
    exact iff_of_true ((preserved_iff_applied hvalue).2 hv) trivial
  | invert t =>
    obtain ⟨v, hv⟩ := exists_value (t := t) h
    obtain ⟨u, hu, hiff⟩ := invert_right_iff hv
    rw [preserved_iff_applied (t := invert t) hu, Applied, Meets]
    simp only [hv, Option.some.injEq, exists_eq_left', forall_eq']
    exact hiff
  | binary o s t =>
    obtain ⟨v, hv⟩ := exists_value h.1
    obtain ⟨w, hw⟩ := exists_value h.2
    obtain ⟨u, hu, hiff⟩ := operation_right_iff o hv hw
    rw [preserved_iff_applied (t := binary o s t) hu, Applied, Meets]
    simp only [hv, hw, Option.some.injEq, exists_eq_left', forall_eq', exists_and_left]
    exact hiff
  | oneOf t values =>
    obtain ⟨v, hv⟩ := exists_value h.1
    obtain ⟨u, hu, hiff⟩ := oneOf_right_iff hv h.2
    rw [preserved_iff_applied (t := oneOf t values) hu, Applied, Meets]
    simp only [hv, Option.some.injEq, exists_eq_left', forall_eq']
    exact hiff
  | ifThenElse c s t =>
    obtain ⟨x, hx⟩ := exists_value h.1
    obtain ⟨v, hv⟩ := exists_value h.2.1
    obtain ⟨w, hw⟩ := exists_value h.2.2
    obtain ⟨u, hu, hiff⟩ := ifThenElse_right_iff hx hv hw
    rw [preserved_iff_applied (t := ifThenElse c s t) hu, Applied, Meets]
    simp only [hx, hv, hw, Option.some.injEq, exists_eq_left', forall_eq', exists_and_left]
    exact hiff

/-- If every operation in a nesting is right, then so is the whole. -/
theorem means_of_preserved (h : t.All (Preserved env)) {u : Int} (hu : t.build.value env = some u) :
    t.Means env u := by
  induction t generalizing u with
  | leaf code => exact (value_new code).symm.trans hu
  | invert t ih =>
    obtain ⟨v, hv, happlied⟩ := (preserved_iff_applied hu).1 h.1
    exact ⟨v, ih h.2 hv, happlied⟩
  | binary o s t ihs iht =>
    obtain ⟨v, w, hv, hw, happlied⟩ := (preserved_iff_applied hu).1 h.1
    exact ⟨v, w, ihs h.2.1 hv, iht h.2.2 hw, happlied⟩
  | oneOf t values ih =>
    obtain ⟨v, hv, happlied⟩ := (preserved_iff_applied hu).1 h.1
    exact ⟨v, ih h.2 hv, happlied⟩
  | ifThenElse c s t ihc ihs iht =>
    obtain ⟨x, v, w, hx, hv, hw, happlied⟩ := (preserved_iff_applied hu).1 h.1
    exact ⟨x, v, w, ihc h.2.1 hx, ihs h.2.2.1 hv, iht h.2.2.2 hw, happlied⟩

theorem all_preserved_iff (h : t.Readable env) :
    t.All (Preserved env) ↔ t.All (Meets env) := by
  induction t with
  | leaf code => exact preserved_iff_meets h
  | invert t ih => exact and_congr (preserved_iff_meets h) (ih h)
  | binary o s t ihs iht =>
    exact and_congr (preserved_iff_meets h) (and_congr (ihs h.1) (iht h.2))
  | oneOf t values ih => exact and_congr (preserved_iff_meets h) (ih h.1)
  | ifThenElse c s t ihc ihs iht =>
    exact and_congr (preserved_iff_meets h)
      (and_congr (ihc h.1) (and_congr (ihs h.2.1) (iht h.2.2)))

end Term

/-- A name that is not known. -/
def nameText (spelling : String) : Code := [.token (.atom (.other spelling))]

/-- The names `b`, `p` and `q`, of which only `p` is not 0. -/
def namesEnvironment : Environment where
  known := fun _ => 0
  word := fun value _ => ofBool value
  other := fun spelling => if spelling = "p" then 1 else 0
  arith := fun _ v _ => v

end Ava.Generator
