import Ava.Generator.ValueSets

/-!
# Expressions over plain constants

`Term.Meets` is the exact condition for an operation. `Term.Plain` is a condition on the texts that
an expression is built over and on the environment alone:

* numbers have no leading zero, and C defines the words for truth values as 1 and 0;
* constants that may be compared for equality have distinct values, and names that are compared for
  order are spelled in the order of their values;
* the operands of `>=` differ in their texts;
* the operands of `&` have no `||`, `?:` or comma outside of brackets, those of `|` no `?:` or
  comma;
* a condition with the branches 1 and 0 is 0 or 1.

Then every operation in the nesting is right. The induction carries `Sound`: the text has a value,
and the value set, if there is one, a constant of that value.
-/

set_option autoImplicit false

namespace Ava.Generator

open Ava.Lib.CText

/-! ## Plain texts -/

/-- C and Python take the atom for the same constant. -/
def Atom.Plain (env : Environment) : Atom → Prop
  | .number _ digits => IsDecimal digits
  | .word value spelling => env.word value spelling = ofBool value
  | _ => True

/-- If the text is an atom, then a plain one. -/
def PlainText (env : Environment) (code : Code) : Prop :=
  ∀ a, strip code = [.token (.atom a)] → a.Plain env

section Operations

variable {env : Environment} {K L : Finset Constant} {a b : Expr} {v w : Int}

theorem PlainText.sound {code : Code} (h : PlainText env code)
    (hv : valueOf env.meaning code = some v) :
    Sound env (leafConstants code) (Expr.new code) v := by
  refine sound_new hv fun c hc => ?_
  unfold constantValue at hc
  split at hc
  · rename_i x hx
    have hplain := h x hx
    rw [← valueOf_strip, hx] at hv
    cases x with
    | number sign digits =>
      rw [Atom.constant, if_neg hplain.ne_nil] at hc
      cases hc
      rw [valueOf_atom (congrArg (Option.map sign.apply) hplain.literal_eq)] at hv
      exact Option.some.inj hv
    | word value spelling =>
      cases hc
      exact hplain.symm.trans (Option.some.inj hv)
    | known c =>
      cases hc
      exact Option.some.inj hv
    | other spelling => cases hc
  · cases hc

/-! ## Plain operands -/

/-- The text has no operator outside of brackets that binds weaker than `&&`. -/
def IsConjunct (env : Environment) (e : Expr) : Prop :=
  ∃ x, outline env.meaning e.code = some (.last (.last (.last x)))

theorem IsConjunct.outline (h : IsConjunct env a) (ha : valueOf env.meaning a.code = some v) :
    outline env.meaning a.code = some (.last (.last (.last v))) := by
  obtain ⟨x, hx⟩ := h
  rw [valueOf_eq_outline, hx] at ha
  cases ha
  exact hx

/-- The text has no operator outside of brackets that binds weaker than `||`. -/
def IsDisjunct (env : Environment) (e : Expr) : Prop :=
  ∃ d, outline env.meaning e.code = some (.last (.last d))

/-- Two names that may be compared are spelled in the order of their values. -/
def InOrder (env : Environment) (rel : Int → Int → Prop) (K L : Finset Constant) : Prop :=
  ∀ c d, .name c ∈ K → .name d ∈ L → (rel c.rank d.rank ↔ rel (env.known c) (env.known d))

/-- The condition on two operands and the constants that they may be. -/
def Operation.Plain (env : Environment) : Operation → Finset Constant → Finset Constant → Expr →
    Expr → Prop
  | .and, _, _, a, b => IsConjunct env a ∧ IsConjunct env b
  | .or, _, _, a, b => IsDisjunct env a ∧ IsDisjunct env b
  | .equals, K, L, _, _ => Set.InjOn env.constant (K ∪ L : Finset Constant)
  | .notEquals, K, L, _, _ => Set.InjOn env.constant (K ∪ L : Finset Constant)
  | .gt, K, L, _, _ => InOrder env (· > ·) K L
  | .ge, K, L, a, b => a.code ≠ b.code ∧ InOrder env (· ≥ ·) K L

/-- The constants that the result may be. -/
def Operation.constants : Operation → Finset Constant → Finset Constant → Finset Constant
  | .and, K, L => K ∪ (L ∪ booleanConstants)
  | .or, K, L => K ∪ (L ∪ booleanConstants)
  | _, _, _ => booleanConstants

/-- A result that is one of the operands, or a truth value. -/
theorem sound_of_operands {e : Expr} {u : Int} {p : Prop} (ha : Sound env K a v)
    (hb : Sound env L b w) (hu : (u ≠ 0 ↔ p))
    (h : e = a ∧ u = v ∨ e = b ∧ u = w ∨ ∃ r, Decided env e r ∧ u = ofBool r) :
    ∃ u, Sound env (K ∪ (L ∪ booleanConstants)) e u ∧ (u ≠ 0 ↔ p) := by
  rcases h with ⟨rfl, rfl⟩ | ⟨rfl, rfl⟩ | ⟨r, hr, rfl⟩
  · exact ⟨_, ha.mono Finset.subset_union_left, hu⟩
  · exact ⟨_, hb.mono (Finset.subset_union_left.trans Finset.subset_union_right), hu⟩
  · exact ⟨_, hr.sound.mono (Finset.subset_union_right.trans Finset.subset_union_right), hu⟩

theorem Sound.and (ha : Sound env K a v) (hb : Sound env L b w) (hca : IsConjunct env a)
    (hcb : IsConjunct env b) :
    ∃ u, Sound env (K ∪ (L ∪ booleanConstants)) (a.and b) u ∧ (u ≠ 0 ↔ v ≠ 0 ∧ w ≠ 0) := by
  rw [Expr.and]
  split_ifs with htrue hfalse
  · refine sound_of_operands ha hb ?_ (.inr (.inl ⟨rfl, rfl⟩))
    rcases Bool.or_eq_true _ _ ▸ htrue with h | h
    · simp [ha.isTrue h]
    · simp [hb.isFalse h]
  · refine sound_of_operands ha hb ?_ (.inl ⟨rfl, rfl⟩)
    rcases Bool.or_eq_true _ _ ▸ hfalse with h | h
    · simp [ha.isFalse h]
    · simp [hb.isTrue h]
  · have hmem : Item.token (.op .land) ∈ around .land a.code b.code := by simp [around]
    have hvalue : valueOf env.meaning (around .land a.code b.code) =
        some (ofBool (decide (v ≠ 0 ∧ w ≠ 0))) := by
      rw [valueOf_eq_outline,
        outline_around_land (hca.outline ha.value) (hcb.outline hb.value)]
      rfl
    refine sound_of_operands ha hb ?_
      (.inr (.inr ⟨_, decided_newIn hmem rfl (fun _ h => by cases h) hvalue, rfl⟩))
    rw [ofBool_ne_zero, decide_eq_true_eq]

theorem Sound.or (ha : Sound env K a v) (hb : Sound env L b w) (hda : IsDisjunct env a)
    (hdb : IsDisjunct env b) :
    ∃ u, Sound env (K ∪ (L ∪ booleanConstants)) (a.or b) u ∧ (u ≠ 0 ↔ v ≠ 0 ∨ w ≠ 0) := by
  rw [Expr.or]
  split_ifs with hfalse htrue
  · refine sound_of_operands ha hb ?_ (.inr (.inl ⟨rfl, rfl⟩))
    rcases Bool.or_eq_true _ _ ▸ hfalse with h | h
    · simp [ha.isFalse h]
    · simp [hb.isTrue h]
  · refine sound_of_operands ha hb ?_ (.inl ⟨rfl, rfl⟩)
    rcases Bool.or_eq_true _ _ ▸ htrue with h | h
    · simp [ha.isTrue h]
    · simp [hb.isFalse h]
  · obtain ⟨d, hd⟩ := hda
    obtain ⟨e, he⟩ := hdb
    obtain ⟨v', hv', hv⟩ := valueOf_of_outline hd
    obtain ⟨w', hw', hw⟩ := valueOf_of_outline he
    cases hv'.symm.trans ha.value
    cases hw'.symm.trans hb.value
    refine sound_of_operands ha hb ?_ (.inr (.inr ⟨_, decided_around_lor hd he, rfl⟩))
    rw [ofBool_ne_zero, Bool.or_eq_true, hv, hw]
    rfl

/-- `>` and `>=`, of texts that differ. -/
theorem decided_order {o : BinOp} (compare : Constant → Constant → Option Bool)
    {rel : Int → Int → Prop} [DecidableRel rel] (ho : o ∈ levels.flatten)
    (happly : applyOp env.arith o v w = ofBool (decide (rel v w)))
    (hcompare : ∀ c ∈ K, ∀ d ∈ L, ∀ r, compare c d = some r →
      (r = true ↔ rel (env.constant c) (env.constant d)))
    (ha : Sound env K a v) (hb : Sound env L b w) (hne : a.code ≠ b.code) :
    Decided env (Expr.order o compare a b) (decide (rel v w)) := by
  rw [Expr.order, if_neg hne]
  split
  · rename_i r hr
    obtain ⟨c, hc, hr⟩ := Option.bind_eq_some_iff.1 hr
    obtain ⟨d, hd, hr⟩ := Option.bind_eq_some_iff.1 hr
    obtain ⟨hcK, rfl⟩ := ha.constant_eq hc
    obtain ⟨hdL, rfl⟩ := hb.constant_eq hd
    rw [← Bool.eq_iff_iff.2 ((hcompare c hcK d hdL r hr).trans (decide_eq_true_iff).symm)]
    exact decided_ofBool env r
  · exact decided_around_group ho happly ha hb

theorem Decided.exists_sound {e : Expr} (p : Prop) [Decidable p] (h : Decided env e (decide p)) :
    ∃ u, Sound env booleanConstants e u ∧ (u ≠ 0 ↔ p) :=
  ⟨_, h.sound, by rw [ofBool_ne_zero, decide_eq_true_eq]⟩

theorem sound_operation (o : Operation) (ha : Sound env K a v) (hb : Sound env L b w)
    (hplain : o.Plain env K L a b) :
    ∃ u, Sound env (o.constants K L) (o.build a b) u ∧ (u ≠ 0 ↔ o.holds v w) := by
  cases o with
  | and => exact ha.and hb hplain.1 hplain.2
  | or => exact ha.or hb hplain.1 hplain.2
  | equals =>
    exact Decided.exists_sound (v = w) (decided_equals (ha.mono Finset.subset_union_left)
      (hb.mono Finset.subset_union_right) hplain)
  | notEquals =>
    refine Decided.exists_sound (v ≠ w) ?_
    rw [decide_not]
    exact decided_notEquals (ha.mono Finset.subset_union_left)
      (hb.mono Finset.subset_union_right) hplain
  | gt =>
    by_cases hcode : a.code = b.code
    · refine Decided.exists_sound (v > w) ?_
      rw [eq_of_code_eq ha.value hb.value hcode, decide_eq_false (lt_irrefl w)]
      change Decided env (Expr.order .gt Expr.constantGt a b) false
      rw [Expr.order, if_pos hcode]
      exact decided_ofBool env false
    · refine Decided.exists_sound (v > w)
        (decided_order Expr.constantGt (by simp [levels]) rfl ?_ ha hb hcode)
      rintro (m | c) hc (n | d) hd r hr <;> cases hr
      · simp [Environment.constant]
      · simpa [Environment.constant] using hplain c d hc hd
  | ge =>
    refine Decided.exists_sound (v ≥ w)
      (decided_order Expr.constantGe (by simp [levels]) rfl ?_ ha hb hplain.1)
    rintro (m | c) hc (n | d) hd r hr <;> cases hr
    · simp [Environment.constant]
    · simpa [Environment.constant] using hplain.2 c d hc hd

end Operations

/-! ## Plain nestings -/

namespace Term

/-- The constants that the expression may be. -/
def constants : Term → Finset Constant
  | .leaf code => leafConstants code
  | .invert _ => booleanConstants
  | .binary o s t => o.constants s.constants t.constants
  | .oneOf _ _ => booleanConstants
  | .ifThenElse c s t => c.constants ∪ (s.constants ∪ t.constants)

/-- The constants that a value of `one_of` is compared with. -/
def valueConstants : List Code → Finset Constant
  | [] => ∅
  | c :: values => leafConstants c ∪ valueConstants values

theorem leafConstants_subset {c : Code} {values : List Code} (h : c ∈ values) :
    leafConstants c ⊆ valueConstants values := by
  induction h with
  | head => exact Finset.subset_union_left
  | tail _ _ ih => exact ih.trans Finset.subset_union_right

/-- The condition on the texts that the expression is built over, and on the environment. -/
def Plain (env : Environment) : Term → Prop
  | .leaf code => PlainText env code
  | .invert t => t.Plain env
  | .binary o s t =>
    s.Plain env ∧ t.Plain env ∧ o.Plain env s.constants t.constants s.build t.build
  | .oneOf t values =>
    t.Plain env ∧ (∀ c ∈ values, PlainText env c) ∧
      Set.InjOn env.constant (t.constants ∪ valueConstants values : Finset Constant)
  | .ifThenElse c s t =>
    c.Plain env ∧ s.Plain env ∧ t.Plain env ∧
      (s.build.isTrue = true → t.build.isFalse = true →
        ∀ x, c.build.value env = some x → x = 0 ∨ x = 1)

variable {env : Environment} {t : Term}

/-- Every operation in a plain nesting is right. -/
theorem sound_of_plain (h : t.Readable env) (hplain : t.Plain env) :
    (∃ u, Sound env t.constants t.build u ∧ t.Applied env u) ∧ t.All (Preserved env) := by
  induction t with
  | leaf code =>
    obtain ⟨v, hv⟩ := h
    have hsound := hplain.sound hv
    exact ⟨⟨v, hsound, hv⟩, v, hsound.value, hv⟩
  | invert t ih =>
    obtain ⟨⟨v, hv, -⟩, hall⟩ := ih h hplain
    have hdecided := decided_invert hv
    have happlied : (invert t).Applied env (ofBool (decide (v = 0))) :=
      ⟨v, hv.value, by rw [ofBool_ne_zero, decide_eq_true_eq]⟩
    exact ⟨⟨_, hdecided.sound, happlied⟩, ⟨_, hdecided.value, happlied⟩, hall⟩
  | binary o s t ihs iht =>
    obtain ⟨⟨v, hv, -⟩, halls⟩ := ihs h.1 hplain.1
    obtain ⟨⟨w, hw, -⟩, hallt⟩ := iht h.2 hplain.2.1
    obtain ⟨u, hu, hiff⟩ := sound_operation o hv hw hplain.2.2
    have happlied : (binary o s t).Applied env u := ⟨v, w, hv.value, hw.value, hiff⟩
    exact ⟨⟨u, hu, happlied⟩, ⟨u, hu.value, happlied⟩, halls, hallt⟩
  | oneOf t values ih =>
    obtain ⟨⟨v, hv, -⟩, hall⟩ := ih h.1 hplain.1
    have hvalues : ∀ c ∈ values, ∃ w,
        Sound env (t.constants ∪ valueConstants values) (Expr.new c) w := by
      intro c hc
      obtain ⟨w, hw⟩ := h.2 c hc
      exact ⟨w, ((hplain.2.1 c hc).sound hw).mono
        ((leafConstants_subset hc).trans Finset.subset_union_right)⟩
    obtain ⟨r, hr, hiff⟩ :=
      decided_oneOf (hv.mono Finset.subset_union_left) hplain.2.2 hvalues
    have happlied : (oneOf t values).Applied env (ofBool r) :=
      ⟨v, hv.value, by rw [ofBool_ne_zero, hiff]⟩
    exact ⟨⟨_, hr.sound, happlied⟩, ⟨_, hr.value, happlied⟩, hall⟩
  | ifThenElse c s t ihc ihs iht =>
    obtain ⟨⟨x, hx, -⟩, hallc⟩ := ihc h.1 hplain.1
    obtain ⟨⟨v, hv, -⟩, halls⟩ := ihs h.2.1 hplain.2.1
    obtain ⟨⟨w, hw, -⟩, hallt⟩ := iht h.2.2 hplain.2.2.1
    have hsound := Sound.ifThenElse (hx.mono Finset.subset_union_left)
      (hv.mono (Finset.subset_union_left.trans Finset.subset_union_right))
      (hw.mono (Finset.subset_union_right.trans Finset.subset_union_right))
      fun htrue hfalse => hplain.2.2.2 htrue hfalse x hx.value
    have happlied : (ifThenElse c s t).Applied env (chosen x v w) :=
      ⟨x, v, w, hx.value, hv.value, hw.value, rfl⟩
    exact ⟨⟨_, hsound, happlied⟩, ⟨_, hsound.value, happlied⟩, hallc, halls, hallt⟩

end Term

/-- The text of every operation in a nesting means what it should if and only if its operands meet
the condition, and then the text of the whole has a meaning of the nesting. In a plain nesting, the
text of every operation means what it should. -/
theorem text_preserves_meaning_iff (env : Environment) (t : Term) (h : t.Readable env) :
    (t.All (Term.Preserved env) ↔ t.All (Term.Meets env)) ∧
      (t.Preserved env ↔ t.Meets env) ∧
      (t.All (Term.Meets env) → ∃ u, t.build.value env = some u ∧ t.Means env u) ∧
      (t.Plain env → t.All (Term.Preserved env)) := by
  refine ⟨Term.all_preserved_iff h, Term.preserved_iff_meets h, fun hmeets => ?_,
    fun hplain => (Term.sound_of_plain h hplain).2⟩
  obtain ⟨u, hu⟩ := Term.exists_value h
  exact ⟨u, hu, Term.means_of_preserved ((Term.all_preserved_iff h).2 hmeets) hu⟩

/-- `p || q` with parentheses, `& b`, and `10 > 8`, which Python decides, `& b`. -/
theorem text_preserves_meaning_parens :
    let ten : Code := [.token (.atom (.number .none [1, 0]))]
    let eight : Code := [.token (.atom (.number .none [8]))]
    let s : Term := .binary .and
      (.leaf (parens (around .lor (nameText "p") (nameText "q")))) (.leaf (nameText "b"))
    let t : Term := .binary .and (.binary .gt (.leaf ten) (.leaf eight)) (.leaf (nameText "b"))
    s.Preserved namesEnvironment ∧ t.Plain namesEnvironment ∧
      t.All (Term.Preserved namesEnvironment) := by
  intro ten eight s t
  have hs : s.Readable namesEnvironment := ⟨⟨1, rfl⟩, ⟨0, rfl⟩⟩
  have ht : t.Readable namesEnvironment := ⟨⟨⟨10, rfl⟩, ⟨8, rfl⟩⟩, ⟨0, rfl⟩⟩
  have hplain : t.Plain namesEnvironment := by
    refine ⟨⟨?_, ?_, ?_⟩, ?_, ⟨1, rfl⟩, ⟨0, rfl⟩⟩
    · rintro x ⟨⟩
      exact .inr ⟨_, _, rfl, by decide⟩
    · rintro x ⟨⟩
      exact .inr ⟨_, _, rfl, by decide⟩
    · intro c d hc
      change Constant.name c ∈ ({.int 10} : Finset Constant) at hc
      simp at hc
    · rintro x ⟨⟩
      trivial
  refine ⟨((text_preserves_meaning_iff namesEnvironment s hs).2.1).2 ?_, hplain,
    (text_preserves_meaning_iff namesEnvironment t ht).2.2.2 hplain⟩
  rintro v hv w hw x y hx hy
  cases hx
  cases hy
  exact ⟨nofun, nofun⟩

/-- The predicate `p || q` and `b` give the text `p || q && b`, which is true although `b` is
not. -/
theorem disjunction_not_grouped :
    let t : Term := .binary .and
      (.leaf (around .lor (nameText "p") (nameText "q"))) (.leaf (nameText "b"))
    t.Readable namesEnvironment ∧ t.build.value namesEnvironment = some 1 ∧
      (Term.leaf (nameText "b")).build.value namesEnvironment = some 0 ∧
      ¬ t.Preserved namesEnvironment := by
  refine ⟨⟨⟨1, rfl⟩, ⟨0, rfl⟩⟩, rfl, rfl, ?_⟩
  rintro ⟨u, hu, v, w, hv, hw, hiff⟩
  cases hu
  cases hw
  exact (hiff.1 (by decide)).2 rfl

end Ava.Generator
