import Ava.Lib.CText

/-!
# Texts around `&&` and `||` without parentheses

If two texts stand around `&&` or `||` and are not put into parentheses, the operators that bind
weaker and that the two texts have outside of brackets take part in the reading. The outline of a
text is what it consists of down to the operands of `||`: the value of a text and the reading of two
texts around `&&` or `||` are determined by the outlines (`valueOf_eq_outline`,
`outline_around_land`, `outline_around_lor`). `ReadsAnd` and `ReadsOr` say of two outlines, case by
case, when the reading has the truth value that it would have with parentheses.
-/

set_option autoImplicit false

namespace Ava.Lib.CText

/-! ## Outlines -/

/-- The values of the operands of `||`. -/
abbrev Disjuncts := Parts Unit Int

/-- The operands of a conditional expression: each condition is followed by the value of the middle
operand. -/
abbrev Alternatives := Parts Int Disjuncts

/-- The operands of the comma. -/
abbrev Outline := Parts Unit Alternatives

section Define

variable (arith : BinOp → Int → Int → Int)

def disjuncts (ps : List Piece) : Option Disjuncts := (split (opIs .lor) ps).mapM (evalAnd arith)

def alternatives (ps : List Piece) : Option Alternatives :=
  (split choiceOf ps).mapM (disjuncts arith)

def outlineOf (ps : List Piece) : Option Outline := (split commaOf ps).mapM (alternatives arith)

end Define

/-- The outline of a text. -/
def outline {α : Type} (m : Meaning α) (text : Text α) : Option Outline :=
  (Text.pieces m text).bind (outlineOf m.arith)

/-- Whether one of the operands of `||` is true. -/
def Disjuncts.holds : Disjuncts → Bool
  | .last v => decide (v ≠ 0)
  | .cons v _ rest => decide (v ≠ 0) || Disjuncts.holds rest

/-- Whether one of them before the last is true. -/
def Disjuncts.holdsBefore : Disjuncts → Bool
  | .last _ => false
  | .cons v _ rest => decide (v ≠ 0) || Disjuncts.holdsBefore rest

/-- Whether one of them after the first is true. -/
def Disjuncts.holdsAfter : Disjuncts → Bool
  | .last _ => false
  | .cons _ _ rest => Disjuncts.holds rest

/-- Whether the conditional expression is true. -/
def Alternatives.holds : Alternatives → Bool
  | .last d => Disjuncts.holds d
  | .cons d middle rest =>
    if Disjuncts.holds d then decide (middle ≠ 0) else Alternatives.holds rest

/-- Whether one of the conditions is true, so that the last operand does not count. -/
def Alternatives.taken : Alternatives → Bool
  | .last _ => false
  | .cons d _ rest => Disjuncts.holds d || Alternatives.taken rest

def Outline.holds (o : Outline) : Bool := Alternatives.holds o.final

/-- The outline of two texts around `&&`: the last operand of the first one and the first operand of
the second one become one. -/
def Outline.and (arith : BinOp → Int → Int → Int) : Outline → Outline → Outline :=
  Parts.join (Parts.join (Parts.join (applyOp arith .land)))

/-- The outline of two texts around `||`. -/
def Outline.or : Outline → Outline → Outline := Parts.join (Parts.join (Parts.concat ()))

/-- When two texts around `&&` are read as if they were in parentheses:

* `a && x, y` has the value of `y`;
* in `c ? x : y && b` the other operand does not count if `c` is true;
* in `p || q && b` it does not count if `p` is true, and in `a && p || q` if `q` is true;
* `a && c ? x : y` is a conditional expression whose condition is `a && c`. -/
def ReadsAnd (a : Outline) : Outline → Prop
  | .cons _ _ rest => Outline.holds rest = true → a.holds = true
  | .last b =>
    if a.final.taken then a.holds = true → b.holds = true
    else
      match b with
      | .last e =>
        (a.final.final.holdsBefore = true → e.holds = true) ∧
          (e.holdsAfter = true → a.holds = true)
      | .cons e y rest =>
        (a.final.final.holdsBefore = true → e.holds = false →
            (y ≠ 0 ↔ Alternatives.holds rest = true)) ∧
          (a.holds = false →
            (if e.holdsAfter then decide (y ≠ 0) else Alternatives.holds rest) = false)

/-- When two texts around `||` are read as if they were in parentheses. -/
def ReadsOr (a : Outline) : Outline → Prop
  | .cons _ _ rest => a.holds = true → Outline.holds rest = true
  | .last b =>
    if a.final.taken then b.holds = true → a.holds = true
    else
      match b with
      | .last _ => True
      | .cons _ y _ => a.holds = true → y ≠ 0

/-! ## The value of a text and its outline -/

section Value

variable {arith : BinOp → Int → Int → Int}

theorem foldr_lor_ne_zero (arith : BinOp → Int → Int → Int) (d : Disjuncts) :
    d.foldr (applyOp arith .lor) ≠ 0 ↔ d.holds = true := by
  induction d with
  | last v => simp [Parts.foldr, Disjuncts.holds]
  | cons v u rest ih =>
    rw [Parts.foldr, applyOp, ofBool_ne_zero, decide_eq_true_eq, ih, Disjuncts.holds,
      Bool.or_eq_true, decide_eq_true_eq]

theorem choose_ne_zero (arith : BinOp → Int → Int → Int) (c : Alternatives) :
    choose (c.map (Parts.foldr (applyOp arith .lor))) ≠ 0 ↔ c.holds = true := by
  induction c with
  | last d => exact foldr_lor_ne_zero arith d
  | cons d middle rest ih =>
    rw [Parts.map, choose, Alternatives.holds]
    by_cases hd : d.holds = true
    · rw [if_pos ((foldr_lor_ne_zero arith d).2 hd), if_pos hd, decide_eq_true_eq]
    · rw [if_neg (mt (foldr_lor_ne_zero arith d).1 hd), if_neg hd, ih]

theorem final_map {δ β γ : Type} (h : β → γ) (p : Parts δ β) : (p.map h).final = h p.final := by
  induction p with
  | last b => rfl
  | cons b d rest ih => exact ih

theorem evalPieces_eq (ps : List Piece) :
    evalPieces arith ps = (outlineOf arith ps).map fun o =>
      choose (o.final.map (Parts.foldr (applyOp arith .lor))) := by
  have hor : evalOr arith = fun qs =>
      (disjuncts arith qs).map (Parts.foldr (applyOp arith .lor)) := rfl
  have hconditional : evalConditional arith = fun qs =>
      (alternatives arith qs).map fun c =>
        choose (c.map (Parts.foldr (applyOp arith .lor))) := by
    funext qs
    rw [evalConditional, hor, Parts.mapM_map, Option.map_map, alternatives]
    rfl
  rw [evalPieces, hconditional, Parts.mapM_map, Option.map_map, outlineOf]
  congr 1
  funext o
  exact final_map _ o

variable {α : Type} {m : Meaning α} {text : Text α}

theorem valueOf_eq_outline (text : Text α) :
    valueOf m text = (outline m text).map fun o =>
      choose (o.final.map (Parts.foldr (applyOp m.arith .lor))) := by
  rw [valueOf, outline]
  cases Text.pieces m text with
  | none => rfl
  | some ps => exact evalPieces_eq ps

/-- A text with an outline has a value, with the truth value of the outline. -/
theorem valueOf_of_outline {o : Outline} (h : outline m text = some o) :
    ∃ v, valueOf m text = some v ∧ (v ≠ 0 ↔ o.holds = true) := by
  rw [valueOf_eq_outline, h]
  exact ⟨_, rfl, choose_ne_zero m.arith o.final⟩

theorem outline_of_valueOf {v : Int} (h : valueOf m text = some v) :
    ∃ o, outline m text = some o ∧ (v ≠ 0 ↔ o.holds = true) := by
  rw [valueOf_eq_outline] at h
  obtain ⟨o, ho, rfl⟩ := Option.map_eq_some_iff.1 h
  exact ⟨o, ho, choose_ne_zero m.arith o.final⟩

end Value

/-! ## The outline of two texts around an operator -/

section Join

variable {arith : BinOp → Int → Int → Int} {ps qs : List Piece}

theorem applyOp_land_assoc (arith : BinOp → Int → Int → Int) (x y z : Int) :
    applyOp arith .land (applyOp arith .land x y) z =
      applyOp arith .land x (applyOp arith .land y z) := by
  simp only [applyOp, ofBool_ne_zero, decide_eq_true_eq, and_assoc]

theorem evalAnd_append {v w : Int} (hp : evalAnd arith ps = some v)
    (hq : evalAnd arith qs = some w) :
    evalAnd arith (ps ++ .op .land :: qs) = some (applyOp arith .land v w) := by
  obtain ⟨p, hmapp, rfl⟩ := Option.map_eq_some_iff.1 hp
  obtain ⟨q, hmapq, rfl⟩ := Option.map_eq_some_iff.1 hq
  have hsep : opIs .land (.op .land) = some () := rfl
  rw [evalAnd, split_append_some hsep, Parts.mapM_concat hmapp hmapq, Option.map_some,
    Parts.foldr_concat (applyOp_land_assoc arith)]

theorem disjuncts_append_land {d e : Disjuncts} (hp : disjuncts arith ps = some d)
    (hq : disjuncts arith qs = some e) :
    disjuncts arith (ps ++ .op .land :: qs) = some (d.join (applyOp arith .land) e) := by
  have hsep : opIs .lor (.op .land) = none := rfl
  rw [disjuncts, split_append_none hsep]
  exact Parts.mapM_join evalAnd_append hp hq

theorem disjuncts_append_lor {d e : Disjuncts} (hp : disjuncts arith ps = some d)
    (hq : disjuncts arith qs = some e) :
    disjuncts arith (ps ++ .op .lor :: qs) = some (d.concat () e) := by
  have hsep : opIs .lor (.op .lor) = some () := rfl
  rw [disjuncts, split_append_some hsep]
  exact Parts.mapM_concat hp hq

/-- An operator joins the last alternative of one text and the first one of the other. -/
theorem outlineOf_append {o : BinOp} {f : Disjuncts → Disjuncts → Disjuncts} {a b : Outline}
    (hf : ∀ {ps qs d e}, disjuncts arith ps = some d → disjuncts arith qs = some e →
      disjuncts arith (ps ++ .op o :: qs) = some (f d e))
    (hp : outlineOf arith ps = some a) (hq : outlineOf arith qs = some b) :
    outlineOf arith (ps ++ .op o :: qs) = some (a.join (Parts.join f) b) := by
  have hchoice : choiceOf (.op o) = none := rfl
  have hcomma : commaOf (.op o) = none := rfl
  rw [outlineOf, split_append_none hcomma]
  refine Parts.mapM_join ?_ hp hq
  intro ps qs c d hc hd
  rw [alternatives, split_append_none hchoice]
  exact Parts.mapM_join hf hc hd

variable {α : Type} {m : Meaning α} {x y : Text α} {a b : Outline}

theorem outline_around_land (hx : outline m x = some a) (hy : outline m y = some b) :
    outline m (around .land x y) = some (a.and m.arith b) := by
  obtain ⟨ps, hps, ha⟩ := Option.bind_eq_some_iff.1 hx
  obtain ⟨qs, hqs, hb⟩ := Option.bind_eq_some_iff.1 hy
  rw [outline, pieces_around hps hqs, Option.bind_some]
  exact outlineOf_append disjuncts_append_land ha hb

theorem outline_around_lor (hx : outline m x = some a) (hy : outline m y = some b) :
    outline m (around .lor x y) = some (a.or b) := by
  obtain ⟨ps, hps, ha⟩ := Option.bind_eq_some_iff.1 hx
  obtain ⟨qs, hqs, hb⟩ := Option.bind_eq_some_iff.1 hy
  rw [outline, pieces_around hps hqs, Option.bind_some]
  exact outlineOf_append disjuncts_append_lor ha hb

end Join

/-! ## Truth values of joined outlines -/

section Truth

variable {arith : BinOp → Int → Int → Int}

theorem holds_eq_before (d : Disjuncts) :
    d.holds = (d.holdsBefore || decide (d.final ≠ 0)) := by
  induction d with
  | last v => rfl
  | cons v u rest ih =>
    rw [Disjuncts.holds, Disjuncts.holdsBefore, ih, Bool.or_assoc]
    rfl

theorem holds_eq_after (d : Disjuncts) : d.holds = (decide (d.head ≠ 0) || d.holdsAfter) := by
  cases d with
  | last v => exact (Bool.or_false _).symm
  | cons v u rest => rfl

theorem holds_join_land (d e : Disjuncts) :
    Disjuncts.holds (d.join (applyOp arith .land) e) =
      (d.holdsBefore || decide (d.final ≠ 0 ∧ e.head ≠ 0) || e.holdsAfter) := by
  induction d with
  | last v =>
    have htruth : decide (applyOp arith .land v e.head ≠ 0) = decide (v ≠ 0 ∧ e.head ≠ 0) := by
      rw [applyOp, decide_eq_decide, ofBool_ne_zero, decide_eq_true_eq]
    cases e with
    | last w =>
      rw [Parts.join, Parts.mapHead, Disjuncts.holds]
      exact htruth.trans (Bool.or_false _).symm
    | cons w u rest =>
      rw [Parts.join, Parts.mapHead, Disjuncts.holds]
      exact congrArg (· || Disjuncts.holds rest) htruth
  | cons v u rest ih =>
    rw [Parts.join, Disjuncts.holds, ih, Disjuncts.holdsBefore, Bool.or_assoc, Bool.or_assoc,
      Bool.or_assoc]
    rfl

theorem holds_concat (d e : Disjuncts) :
    Disjuncts.holds (d.concat () e) = (d.holds || e.holds) := by
  induction d with
  | last v => rfl
  | cons v u rest ih => rw [Parts.concat, Disjuncts.holds, Disjuncts.holds, ih, Bool.or_assoc]

/-- The value of two disjunctions around `||` is their truth value. -/
theorem foldr_lor_concat (arith : BinOp → Int → Int → Int) (d e : Disjuncts) :
    (d.concat () e).foldr (applyOp arith .lor) = ofBool (d.holds || e.holds) := by
  have hcons : ∀ (v : Int) (rest : Disjuncts),
      (Parts.cons v () rest).foldr (applyOp arith .lor) =
        ofBool (Disjuncts.holds (.cons v () rest)) := by
    intro v rest
    rw [Parts.foldr, applyOp]
    congr 1
    rw [Disjuncts.holds, Bool.decide_or]
    congr 1
    rw [Bool.eq_iff_iff, decide_eq_true_eq, foldr_lor_ne_zero]
  rw [← holds_concat]
  cases d with
  | last v => exact hcons v e
  | cons v u rest => exact hcons v (rest.concat () e)

variable {c : Alternatives}

/-- If a condition is true its alternative counts, and otherwise the last operand. -/
theorem holds_of_not_taken (h : c.taken = false) : c.holds = Disjuncts.holds c.final := by
  induction c with
  | last d => rfl
  | cons d middle rest ih =>
    rw [Alternatives.taken, Bool.or_eq_false_iff] at h
    rw [Alternatives.holds, h.1, if_neg Bool.false_ne_true, ih h.2]
    rfl

variable {f : Disjuncts → Disjuncts → Disjuncts}

theorem holds_join_taken (h : c.taken = true) (b : Alternatives) :
    Alternatives.holds (c.join f b) = c.holds := by
  induction c with
  | last d => cases h
  | cons d middle rest ih =>
    rw [Parts.join, Alternatives.holds, Alternatives.holds]
    by_cases hd : Disjuncts.holds d = true
    · rw [if_pos hd, if_pos hd]
    · rw [Alternatives.taken, Bool.or_eq_true] at h
      rw [if_neg hd, if_neg hd, ih (h.resolve_left hd)]

theorem holds_join_not_taken (h : c.taken = false) (b : Alternatives) :
    Alternatives.holds (c.join f b) = Alternatives.holds (b.mapHead (f c.final)) := by
  induction c with
  | last d => rfl
  | cons d middle rest ih =>
    rw [Alternatives.taken, Bool.or_eq_false_iff] at h
    rw [Parts.join, Alternatives.holds, h.1, if_neg Bool.false_ne_true, ih h.2]
    rfl

theorem final_join {δ β : Type} (g : β → β → β) (p : Parts δ β) (b : β) :
    (p.join g (.last b)).final = g p.final b := by
  induction p with
  | last c => rfl
  | cons c d rest ih => exact ih

theorem final_join_cons {δ β : Type} (g : β → β → β) (p : Parts δ β) (b : β) (d : δ)
    (rest : Parts δ β) : (p.join g (.cons b d rest)).final = rest.final := by
  induction p with
  | last c => rfl
  | cons c e p ih => exact ih

theorem holds_and_iff (a b : Outline) :
    ((a.and arith b).holds = true ↔ a.holds = true ∧ b.holds = true) ↔ ReadsAnd a b := by
  cases b with
  | cons c u rest =>
    -- the text is a comma expression that ends as `b` does
    rw [Outline.and, Outline.holds, final_join_cons, ReadsAnd]
    change (Outline.holds rest = true ↔ a.holds = true ∧ Outline.holds rest = true) ↔ _
    tauto
  | last b =>
    rw [Outline.and, Outline.holds, final_join]
    change (_ ↔ a.holds = true ∧ b.holds = true) ↔ _
    by_cases htaken : a.final.taken = true
    · have hreads : ReadsAnd a (.last b) = (a.holds = true → b.holds = true) := by
        cases b <;> exact if_pos htaken
      rw [hreads, holds_join_taken htaken, ← Outline.holds]
      tauto
    rw [holds_join_not_taken (Bool.eq_false_of_not_eq_true htaken)]
    have ha : a.holds = Disjuncts.holds a.final.final :=
      holds_of_not_taken (Bool.eq_false_of_not_eq_true htaken)
    cases b with
    | last e =>
      rw [ReadsAnd, if_neg htaken, ha]
      generalize a.final.final = d
      change (Disjuncts.holds (d.join (applyOp arith .land) e) = true ↔
        _ ∧ Disjuncts.holds e = true) ↔ _
      rw [holds_join_land, holds_eq_before d, holds_eq_after e]
      by_cases hd : d.final = 0 <;> by_cases he : e.head = 0 <;>
        cases d.holdsBefore <;> cases e.holdsAfter <;> simp [hd, he]
    | cons e y rest =>
      rw [ReadsAnd, if_neg htaken, ha]
      generalize a.final.final = d
      change ((if Disjuncts.holds (d.join (applyOp arith .land) e) then _ else _) = true ↔
        _ ∧ (if e.holds then _ else _) = true) ↔ _
      rw [holds_join_land, holds_eq_before d, holds_eq_after e]
      by_cases hd : d.final = 0 <;> by_cases he : e.head = 0 <;> by_cases hy : y = 0 <;>
        cases d.holdsBefore <;> cases e.holdsAfter <;> cases Alternatives.holds rest <;>
        simp [hd, he, hy]

theorem holds_or_iff (a b : Outline) :
    ((a.or b).holds = true ↔ a.holds = true ∨ b.holds = true) ↔ ReadsOr a b := by
  cases b with
  | cons c u rest =>
    rw [Outline.or, Outline.holds, final_join_cons, ReadsOr]
    change (Outline.holds rest = true ↔ a.holds = true ∨ Outline.holds rest = true) ↔ _
    tauto
  | last b =>
    rw [Outline.or, Outline.holds, final_join]
    change (_ ↔ a.holds = true ∨ b.holds = true) ↔ _
    by_cases htaken : a.final.taken = true
    · have hreads : ReadsOr a (.last b) = (b.holds = true → a.holds = true) := by
        cases b <;> exact if_pos htaken
      rw [hreads, holds_join_taken htaken, ← Outline.holds]
      tauto
    rw [holds_join_not_taken (Bool.eq_false_of_not_eq_true htaken)]
    have ha : a.holds = Disjuncts.holds a.final.final :=
      holds_of_not_taken (Bool.eq_false_of_not_eq_true htaken)
    cases b with
    | last e =>
      rw [ReadsOr, if_neg htaken, ha]
      change (Disjuncts.holds (a.final.final.concat () e) = true ↔
        _ ∨ Disjuncts.holds e = true) ↔ True
      rw [holds_concat, Bool.or_eq_true]
      exact iff_of_true Iff.rfl trivial
    | cons e y rest =>
      rw [ReadsOr, if_neg htaken, ha]
      generalize a.final.final = d
      change ((if Disjuncts.holds (d.concat () e) then _ else _) = true ↔
        _ ∨ (if e.holds then _ else _) = true) ↔ _
      rw [holds_concat]
      by_cases hy : y = 0 <;> cases d.holds <;> cases e.holds <;>
        cases Alternatives.holds rest <;> simp [hy]

end Truth

/-! ## Reading two texts around an operator -/

section Read

variable {α : Type} {m : Meaning α} {x y : Text α} {v w : Int}

theorem outlines_iff {R : Outline → Outline → Prop} {a b : Outline} (ha : outline m x = some a)
    (hb : outline m y = some b) :
    R a b ↔ ∀ a' b', outline m x = some a' → outline m y = some b' → R a' b' := by
  refine ⟨fun h a' b' ha' hb' => ?_, fun h => h a b ha hb⟩
  cases ha.symm.trans ha'
  cases hb.symm.trans hb'
  exact h

theorem valueOf_around_land (hx : valueOf m x = some v) (hy : valueOf m y = some w) :
    ∃ u, valueOf m (around .land x y) = some u ∧
      ((u ≠ 0 ↔ v ≠ 0 ∧ w ≠ 0) ↔
        ∀ a b, outline m x = some a → outline m y = some b → ReadsAnd a b) := by
  obtain ⟨a, ha, hva⟩ := outline_of_valueOf hx
  obtain ⟨b, hb, hwb⟩ := outline_of_valueOf hy
  obtain ⟨u, hu, hholds⟩ := valueOf_of_outline (outline_around_land ha hb)
  refine ⟨u, hu, ?_⟩
  rw [← outlines_iff ha hb, hholds, hva, hwb]
  exact holds_and_iff a b

theorem valueOf_around_lor (hx : valueOf m x = some v) (hy : valueOf m y = some w) :
    ∃ u, valueOf m (around .lor x y) = some u ∧
      ((u ≠ 0 ↔ v ≠ 0 ∨ w ≠ 0) ↔
        ∀ a b, outline m x = some a → outline m y = some b → ReadsOr a b) := by
  obtain ⟨a, ha, hva⟩ := outline_of_valueOf hx
  obtain ⟨b, hb, hwb⟩ := outline_of_valueOf hy
  obtain ⟨u, hu, hholds⟩ := valueOf_of_outline (outline_around_lor ha hb)
  refine ⟨u, hu, ?_⟩
  rw [← outlines_iff ha hb, hholds, hva, hwb]
  exact holds_or_iff a b

/-- Pieces without commas, conditional operators, `||` and `&&` are one operand. -/
theorem outlineOf_of_tight {arith : BinOp → Int → Int → Int} {ps : List Piece}
    (h : ∀ p ∈ ps, p.isLoose = false) (hv : evalBinary arith levels ps = some v) :
    outlineOf arith ps = some (.last (.last (.last v))) := by
  have hdisjuncts : disjuncts arith ps = some (.last v) := by
    rw [disjuncts, split_of_none fun p hp => (Piece.seps_eq_none (h p hp)).2.2.1, Parts.mapM,
      evalAnd_of_tight h, hv, Option.map_some]
  have halternatives : alternatives arith ps = some (.last (.last v)) := by
    rw [alternatives, split_of_none fun p hp => (Piece.seps_eq_none (h p hp)).2.1, Parts.mapM,
      hdisjuncts, Option.map_some]
  rw [outlineOf, split_of_none fun p hp => (Piece.seps_eq_none (h p hp)).1, Parts.mapM,
    halternatives, Option.map_some]

theorem outline_around_parens {o : BinOp} (ho : o ∈ levels.flatten) (hx : valueOf m x = some v)
    (hy : valueOf m y = some w) :
    outline m (around o (parens x) (parens y)) =
      some (.last (.last (.last (applyOp m.arith o v w)))) := by
  rw [outline, pieces_around (pieces_parens hx) (pieces_parens hy), Option.bind_some]
  exact outlineOf_of_tight (tight_op ho) (evalBinary_op ho)

end Read

end Ava.Lib.CText
