import Mathlib.Tactic

/-!
# C expressions as texts

A text is a sequence of lexical elements with its brackets matched. Brackets are parentheses, and
the two signs `?` and `:` of a conditional expression, which enclose its middle operand. An atom is
any cast expression without outer parentheses: a name, a literal, a call, and so on.

`valueOf` gives the value of a text with the precedence and the grouping of the C operators: the
comma binds weakest, then the conditional operator, `||`, `&&`, and the other binary operators in
the order of `levels`, each level grouped to the left. Integer expressions without side effects are
meant, so an atom has a value, and which operands are evaluated does not matter. The meaning of the
arithmetic operators is left open.

The lemmas say how texts are read that were put together from others in parentheses. Each level
splits a list into `Parts`, evaluates the parts on the next level, and combines the values.
-/

set_option autoImplicit false

namespace Ava.Lib.CText

universe u

/-- The binary operators. -/
inductive BinOp where
  | mul | div | mod | add | sub | shl | shr | lt | gt | le | ge | eq | ne | band | bxor | bor
  | land | lor
deriving DecidableEq, Repr

/-- A lexical element that is not a bracket. -/
inductive Token (α : Type u) where
  | atom (a : α)
  | space
  | not
  | op (o : BinOp)
  | comma
deriving DecidableEq

/-- What encloses a part of a text: parentheses, or `?` and `:`. -/
inductive Enclosure where
  | parens
  | choice
deriving DecidableEq, Repr

inductive Item (α : Type u) where
  | token (t : Token α)
  | enclosed (kind : Enclosure) (inner : List (Item α))

abbrev Text (α : Type u) := List (Item α)

section DecEq

variable {α : Type u} [DecidableEq α]

mutual

def Item.decEq : (i j : Item α) → Decidable (i = j)
  | .token s, .token t =>
    if h : s = t then .isTrue (congrArg _ h) else .isFalse fun e => h (Item.token.inj e)
  | .token _, .enclosed _ _ => .isFalse nofun
  | .enclosed _ _, .token _ => .isFalse nofun
  | .enclosed k a, .enclosed l b =>
    match decEq k l, Text.decEq a b with
    | .isTrue h, .isTrue h' => .isTrue (congrArg₂ Item.enclosed h h')
    | .isFalse h, _ => .isFalse fun e => h (Item.enclosed.inj e).1
    | _, .isFalse h => .isFalse fun e => h (Item.enclosed.inj e).2
termination_by structural i => i

def Text.decEq : (a b : Text α) → Decidable (a = b)
  | [], [] => .isTrue rfl
  | [], _ :: _ => .isFalse nofun
  | _ :: _, [] => .isFalse nofun
  | i :: a, j :: b =>
    match Item.decEq i j, Text.decEq a b with
    | .isTrue h, .isTrue h' => .isTrue (congrArg₂ List.cons h h')
    | .isFalse h, _ => .isFalse fun e => h (List.cons.inj e).1
    | _, .isFalse h => .isFalse fun e => h (List.cons.inj e).2
termination_by structural a => a

end

instance : DecidableEq (Item α) := Item.decEq

end DecEq

/-! ## Parts between separators -/

/-- Parts of a sequence, and the separators between them. -/
inductive Parts (δ β : Type) where
  | last (b : β)
  | cons (b : β) (d : δ) (rest : Parts δ β)
deriving DecidableEq

namespace Parts

variable {δ β γ : Type}

def map (f : β → γ) : Parts δ β → Parts δ γ
  | .last b => .last (f b)
  | .cons b d rest => .cons (f b) d (rest.map f)

def mapM (g : β → Option γ) : Parts δ β → Option (Parts δ γ)
  | .last b => (g b).map .last
  | .cons b d rest => (g b).bind fun c => (rest.mapM g).map fun cs => .cons c d cs

def mapHead (f : β → β) : Parts δ β → Parts δ β
  | .last b => .last (f b)
  | .cons b d rest => .cons (f b) d rest

/-- Two sequences without a separator between them: two of their parts become one. -/
def join (f : β → β → β) : Parts δ β → Parts δ β → Parts δ β
  | .last b, q => q.mapHead (f b)
  | .cons b d rest, q => .cons b d (rest.join f q)

/-- Two sequences with a separator between them. -/
def concat (d : δ) : Parts δ β → Parts δ β → Parts δ β
  | .last b, q => .cons b d q
  | .cons b e rest, q => .cons b e (rest.concat d q)

def head : Parts δ β → β
  | .last b => b
  | .cons b _ _ => b

def final : Parts δ β → β
  | .last b => b
  | .cons _ _ rest => rest.final

/-- The values of operands combined from the left; `k` is what happens to the next one. -/
def foldWith (f : δ → β → β → β) (k : β → β) : Parts δ β → β
  | .last b => k b
  | .cons b d rest => rest.foldWith f (f d (k b))

/-- The values of operands combined, whatever the separators. -/
def foldr (f : β → β → β) : Parts δ β → β
  | .last b => b
  | .cons b _ rest => f b (rest.foldr f)

end Parts

/-- The parts of a list between its separators. -/
def split {α δ : Type} (sep : α → Option δ) : List α → Parts δ (List α)
  | [] => .last []
  | p :: ps =>
    match sep p with
    | some d => .cons [] d (split sep ps)
    | none => (split sep ps).mapHead (p :: ·)

/-! ## Values -/

/-- What a text means is relative to the values of its atoms; one without a value is not an integer
expression. -/
structure Meaning (α : Type u) where
  atom : α → Option Int
  arith : BinOp → Int → Int → Int

/-- The value of a comparison or a logical operator. -/
def ofBool (b : Bool) : Int := if b then 1 else 0

theorem ofBool_ne_zero {b : Bool} : ofBool b ≠ 0 ↔ b = true := by
  cases b <;> simp [ofBool]

/-- The value of a binary operator. -/
def applyOp (arith : BinOp → Int → Int → Int) : BinOp → Int → Int → Int
  | .lt, v, w => ofBool (decide (v < w))
  | .gt, v, w => ofBool (decide (v > w))
  | .le, v, w => ofBool (decide (v ≤ w))
  | .ge, v, w => ofBool (decide (v ≥ w))
  | .eq, v, w => ofBool (decide (v = w))
  | .ne, v, w => ofBool (decide (v ≠ w))
  | .land, v, w => ofBool (decide (v ≠ 0 ∧ w ≠ 0))
  | .lor, v, w => ofBool (decide (v ≠ 0 ∨ w ≠ 0))
  | o, v, w => arith o v w

/-- An element of a text in which everything in brackets has been evaluated. -/
inductive Piece where
  | value (v : Int)
  | not
  | op (o : BinOp)
  | comma
  | choice (v : Int)

/-- Unary expressions: the only unary operator outside of atoms is `!`. -/
def evalUnary : List Piece → Option Int
  | [.value v] => some v
  | .not :: ps => (evalUnary ps).map fun v => ofBool (decide (v = 0))
  | _ => none

/-- The binary operators that bind stronger than `&&`, from the weakest level to the strongest. -/
def levels : List (List BinOp) :=
  [[.bor], [.bxor], [.band], [.eq, .ne], [.lt, .gt, .le, .ge], [.shl, .shr], [.add, .sub],
    [.mul, .div, .mod]]

/-- The separators of a level. -/
def opIn (level : List BinOp) : Piece → Option BinOp
  | .op o => if o ∈ level then some o else none
  | _ => none

/-- The separators of the levels with one operator. -/
def opIs (o : BinOp) : Piece → Option Unit
  | .op o' => if o' = o then some () else none
  | _ => none

def choiceOf : Piece → Option Int
  | .choice v => some v
  | _ => none

def commaOf : Piece → Option Unit
  | .comma => some ()
  | _ => none

/-- The operands of the conditional operator, which is grouped to the right. -/
def choose : Parts Int Int → Int
  | .last v => v
  | .cons v middle rest => if v ≠ 0 then middle else choose rest

section Eval

variable (arith : BinOp → Int → Int → Int)

def evalBinary : List (List BinOp) → List Piece → Option Int
  | [], ps => evalUnary ps
  | level :: levels, ps =>
    ((split (opIn level) ps).mapM (evalBinary levels)).map (Parts.foldWith (applyOp arith) id)

/-- Logical AND expressions; how `&&` is grouped does not matter. -/
def evalAnd (ps : List Piece) : Option Int :=
  ((split (opIs .land) ps).mapM (evalBinary arith levels)).map (Parts.foldr (applyOp arith .land))

/-- Logical OR expressions. -/
def evalOr (ps : List Piece) : Option Int :=
  ((split (opIs .lor) ps).mapM (evalAnd arith)).map (Parts.foldr (applyOp arith .lor))

def evalConditional (ps : List Piece) : Option Int :=
  ((split choiceOf ps).mapM (evalOr arith)).map choose

/-- Expressions: the value is that of the last operand of the comma operator. -/
def evalPieces (ps : List Piece) : Option Int :=
  ((split commaOf ps).mapM (evalConditional arith)).map Parts.final

end Eval

section Read

variable {α : Type u} (m : Meaning α)

mutual

def Item.pieces : Item α → Option (List Piece)
  | .token (.atom a) => (m.atom a).map fun v => [.value v]
  | .token .space => some []
  | .token .not => some [.not]
  | .token (.op o) => some [.op o]
  | .token .comma => some [.comma]
  | .enclosed .parens inner =>
    ((Text.pieces inner).bind (evalPieces m.arith)).map fun v => [.value v]
  | .enclosed .choice inner =>
    ((Text.pieces inner).bind (evalPieces m.arith)).map fun v => [.choice v]
termination_by structural i => i

/-- The elements of a text, with everything in brackets evaluated. -/
def Text.pieces : Text α → Option (List Piece)
  | [] => some []
  | i :: text => (Item.pieces i).bind fun p => (Text.pieces text).map fun ps => p ++ ps
termination_by structural text => text

end

/-- The value of a text; there is none if it is not an expression. -/
def valueOf (text : Text α) : Option Int := (Text.pieces m text).bind (evalPieces m.arith)

end Read

/-! ## Putting texts together -/

section Compose

variable {α : Type u}

/-- A text in parentheses. -/
def parens (text : Text α) : Text α := [.enclosed .parens text]

/-- Two texts around a binary operator. -/
def around (o : BinOp) (a b : Text α) : Text α :=
  a ++ [.token .space, .token (.op o), .token .space] ++ b

/-- A conditional expression. -/
def conditional (c a b : Text α) : Text α :=
  c ++
    [.token .space, .enclosed .choice ([.token .space] ++ a ++ [.token .space]), .token .space] ++
    b

end Compose

/-! ## Splitting -/

namespace Parts

variable {δ β γ ε : Type} {f : β → β → β} {f' : γ → γ → γ} {g : β → Option γ} {p q : Parts δ β}
  {p' q' : Parts δ γ}

theorem mapHead_mapHead (h k : β → β) (p : Parts δ β) :
    (p.mapHead h).mapHead k = p.mapHead fun b => k (h b) := by
  cases p <;> rfl

theorem mapHead_join (h : β → β) (hf : ∀ b c, h (f b c) = f (h b) c) :
    (p.join f q).mapHead h = (p.mapHead h).join f q := by
  cases p with
  | last b =>
    rw [join, mapHead_mapHead, mapHead, join]
    simp only [hf]
  | cons b d rest => rfl

variable {d : δ}

theorem mapM_cons_eq_some {b : β} (h : (cons b d p).mapM g = some p') :
    ∃ b' rest, g b = some b' ∧ p.mapM g = some rest ∧ p' = cons b' d rest := by
  obtain ⟨b', hb, h⟩ := Option.bind_eq_some_iff.1 h
  obtain ⟨rest, hrest, rfl⟩ := Option.map_eq_some_iff.1 h
  exact ⟨b', rest, hb, hrest, rfl⟩

/-- Every part has a value, and parts that become one have the value that `f'` gives. -/
theorem mapM_join (hf : ∀ {b c b' c'}, g b = some b' → g c = some c' → g (f b c) = some (f' b' c'))
    (hp : p.mapM g = some p') (hq : q.mapM g = some q') :
    (p.join f q).mapM g = some (p'.join f' q') := by
  induction p generalizing p' with
  | last b =>
    obtain ⟨b', hb, rfl⟩ := Option.map_eq_some_iff.1 hp
    cases q with
    | last c =>
      obtain ⟨c', hc, rfl⟩ := Option.map_eq_some_iff.1 hq
      simp [join, mapHead, mapM, hf hb hc]
    | cons c d rest =>
      obtain ⟨c', rest', hc, hrest, rfl⟩ := mapM_cons_eq_some hq
      simp [join, mapHead, mapM, hf hb hc, hrest]
  | cons b d rest ih =>
    obtain ⟨b', rest', hb, hrest, rfl⟩ := mapM_cons_eq_some hp
    simp [join, mapM, hb, ih hrest]

theorem mapM_concat (hp : p.mapM g = some p') (hq : q.mapM g = some q') :
    (p.concat d q).mapM g = some (p'.concat d q') := by
  induction p generalizing p' with
  | last b =>
    obtain ⟨b', hb, rfl⟩ := Option.map_eq_some_iff.1 hp
    simp [concat, mapM, hb, hq]
  | cons b e rest ih =>
    obtain ⟨b', rest', hb, hrest, rfl⟩ := mapM_cons_eq_some hp
    simp [concat, mapM, hb, ih hrest]

theorem mapM_map (h : γ → ε) (p : Parts δ β) :
    p.mapM (fun b => (g b).map h) = (p.mapM g).map (Parts.map h) := by
  induction p with
  | last b => cases hb : g b <;> simp [mapM, map, hb]
  | cons b d rest ih => cases hb : g b <;> cases hr : rest.mapM g <;> simp [mapM, map, hb, ih, hr]

theorem foldr_concat (hf : ∀ x y z, f (f x y) z = f x (f y z)) :
    (p.concat d q).foldr f = f (p.foldr f) (q.foldr f) := by
  induction p with
  | last b => rfl
  | cons b e rest ih => rw [concat, foldr, foldr, ih, hf]

end Parts

section Split

variable {α δ : Type} {sep : α → Option δ} {ps qs : List α} {x : α}

theorem split_of_none (h : ∀ p ∈ ps, sep p = none) : split sep ps = .last ps := by
  induction ps with
  | nil => rfl
  | cons p ps ih =>
    rw [split, h p List.mem_cons_self, ih fun q hq => h q (List.mem_cons_of_mem p hq)]
    rfl

theorem split_append_some {d : δ} (h : sep x = some d) :
    split sep (ps ++ x :: qs) = (split sep ps).concat d (split sep qs) := by
  induction ps with
  | nil => simp [split, h, Parts.concat]
  | cons p ps ih =>
    rw [List.cons_append, split, split, ih]
    cases sep p with
    | some e => rfl
    | none => cases split sep ps <;> rfl

theorem split_append_none (h : sep x = none) :
    split sep (ps ++ x :: qs) =
      (split sep ps).join (fun p q => p ++ x :: q) (split sep qs) := by
  induction ps with
  | nil => simp [split, h, Parts.join]
  | cons p ps ih =>
    rw [List.cons_append, split, split, ih]
    cases sep p with
    | some e => rfl
    | none => exact Parts.mapHead_join _ fun b c => rfl

end Split

/-! ## Values of a few pieces -/

section Eval

variable {arith : BinOp → Int → Int → Int} {ps qs : List Piece} {v w : Int}

theorem evalBinary_of_none {level : List BinOp} {ls : List (List BinOp)}
    (h : ∀ p ∈ ps, opIn level p = none) :
    evalBinary arith (level :: ls) ps = evalBinary arith ls ps := by
  rw [evalBinary, split_of_none h, Parts.mapM, Option.map_map]
  exact congrFun Option.map_id _

theorem evalBinary_value (ls : List (List BinOp)) : evalBinary arith ls [.value v] = some v := by
  induction ls with
  | nil => rfl
  | cons level ls ih => rw [evalBinary_of_none (by simp [opIn]), ih]

theorem evalBinary_not (ls : List (List BinOp)) :
    evalBinary arith ls [.not, .value v] = some (ofBool (decide (v = 0))) := by
  induction ls with
  | nil => rfl
  | cons level ls ih => rw [evalBinary_of_none (by simp [opIn]), ih]

variable {o : BinOp}

theorem evalBinary_op {ls : List (List BinOp)} (ho : o ∈ ls.flatten) :
    evalBinary arith ls [.value v, .op o, .value w] = some (applyOp arith o v w) := by
  induction ls with
  | nil => simp at ho
  | cons level ls ih =>
    by_cases hlevel : o ∈ level
    · have hsplit : split (opIn level) [.value v, .op o, .value w] =
          .cons [.value v] o (.last [.value w]) := by
        simp [split, opIn, hlevel, Parts.mapHead]
      rw [evalBinary, hsplit]
      simp [Parts.mapM, Parts.foldWith, evalBinary_value]
    · rw [evalBinary_of_none (by simp [opIn, hlevel])]
      apply ih
      simpa [hlevel] using ho

/-- What separates operands on the levels up to that of `&&`. -/
def Piece.isLoose : Piece → Bool
  | .comma => true
  | .choice _ => true
  | .op o => decide (o = .lor ∨ o = .land)
  | _ => false

theorem Piece.seps_eq_none {p : Piece} (h : p.isLoose = false) :
    commaOf p = none ∧ choiceOf p = none ∧ opIs .lor p = none ∧ opIs .land p = none := by
  cases p with
  | op o =>
    rw [Piece.isLoose, decide_eq_false_iff_not, not_or] at h
    simp [commaOf, choiceOf, opIs, h.1, h.2]
  | comma => simp [Piece.isLoose] at h
  | choice v => simp [Piece.isLoose] at h
  | value v => simp [commaOf, choiceOf, opIs]
  | not => simp [commaOf, choiceOf, opIs]

theorem evalAnd_of_tight (h : ∀ p ∈ ps, p.isLoose = false) :
    evalAnd arith ps = evalBinary arith levels ps := by
  rw [evalAnd, split_of_none fun p hp => (Piece.seps_eq_none (h p hp)).2.2.2, Parts.mapM,
    Option.map_map]
  exact congrFun Option.map_id _

theorem evalPieces_of_tight (h : ∀ p ∈ ps, p.isLoose = false) :
    evalPieces arith ps = evalBinary arith levels ps := by
  have hor : evalOr arith ps = evalBinary arith levels ps := by
    rw [evalOr, split_of_none fun p hp => (Piece.seps_eq_none (h p hp)).2.2.1, Parts.mapM,
      Option.map_map, evalAnd_of_tight h]
    exact congrFun Option.map_id _
  have hconditional : evalConditional arith ps = evalBinary arith levels ps := by
    rw [evalConditional, split_of_none fun p hp => (Piece.seps_eq_none (h p hp)).2.1, Parts.mapM,
      Option.map_map, hor]
    exact congrFun Option.map_id _
  rw [evalPieces, split_of_none fun p hp => (Piece.seps_eq_none (h p hp)).1, Parts.mapM,
    Option.map_map, hconditional]
  exact congrFun Option.map_id _

theorem evalPieces_value : evalPieces arith [.value v] = some v := by
  rw [evalPieces_of_tight (by simp [Piece.isLoose]), evalBinary_value]

theorem evalPieces_not : evalPieces arith [.not, .value v] = some (ofBool (decide (v = 0))) := by
  rw [evalPieces_of_tight (by simp [Piece.isLoose]), evalBinary_not]

/-- The operators that bind stronger than `&&` are neither `&&` nor `||`. -/
theorem ne_of_mem_levels (ho : o ∈ levels.flatten) : o ≠ .lor ∧ o ≠ .land := by
  constructor
  all_goals
    rintro rfl
    simp [levels] at ho

theorem tight_op (ho : o ∈ levels.flatten) :
    ∀ p ∈ [Piece.value v, .op o, .value w], p.isLoose = false := by
  simp [Piece.isLoose, ne_of_mem_levels ho]

theorem evalPieces_op (ho : o ∈ levels.flatten) :
    evalPieces arith [.value v, .op o, .value w] = some (applyOp arith o v w) := by
  rw [evalPieces_of_tight (tight_op ho), evalBinary_op ho]

theorem evalPieces_choice {x : Int} :
    evalPieces arith [.value x, .choice v, .value w] = some (if x ≠ 0 then v else w) := by
  have hor : ∀ y, evalOr arith [.value y] = some y := by
    intro y
    have hsplit : split (opIs .lor) [.value y] = .last [.value y] := rfl
    rw [evalOr, hsplit, Parts.mapM, evalAnd_of_tight (by simp [Piece.isLoose]), evalBinary_value]
    rfl
  have hchoice : split choiceOf [.value x, .choice v, .value w] =
      .cons [.value x] v (.last [.value w]) := rfl
  have hcomma : split commaOf [.value x, .choice v, .value w] =
      .last [.value x, .choice v, .value w] := rfl
  have hconditional : evalConditional arith [.value x, .choice v, .value w] =
      some (if x ≠ 0 then v else w) := by
    rw [evalConditional, hchoice, Parts.mapM, Parts.mapM, hor, hor]
    rfl
  rw [evalPieces, hcomma, Parts.mapM, hconditional]
  rfl

end Eval

/-! ## Reading composed texts -/

section Read

variable {α : Type u} {m : Meaning α} {a b c : Text α} {v w x : Int}

theorem pieces_append (a b : Text α) :
    Text.pieces m (a ++ b) =
      (Text.pieces m a).bind fun ps => (Text.pieces m b).map fun qs => ps ++ qs := by
  induction a with
  | nil => simp [Text.pieces]
  | cons i a ih =>
    rw [List.cons_append, Text.pieces, Text.pieces, ih]
    rcases Item.pieces m i with - | ps
    · rfl
    rcases Text.pieces m a with - | qs
    · rfl
    rcases Text.pieces m b with - | rs
    · rfl
    simp

theorem pieces_parens (h : valueOf m a = some v) : Text.pieces m (parens a) = some [.value v] := by
  rw [valueOf] at h
  simp [parens, Text.pieces, Item.pieces, h]

theorem valueOf_parens (h : valueOf m a = some v) : valueOf m (parens a) = some v := by
  rw [valueOf, pieces_parens h, Option.bind_some, evalPieces_value]

theorem valueOf_atom {i : α} (h : m.atom i = some v) : valueOf m [.token (.atom i)] = some v := by
  have hpieces : Text.pieces m [.token (.atom i)] = some [.value v] := by
    rw [Text.pieces, Item.pieces, h]
    rfl
  rw [valueOf, hpieces, Option.bind_some, evalPieces_value]

theorem pieces_around {o : BinOp} {ps qs : List Piece} (ha : Text.pieces m a = some ps)
    (hb : Text.pieces m b = some qs) :
    Text.pieces m (around o a b) = some (ps ++ .op o :: qs) := by
  rw [around, pieces_append, pieces_append, ha, hb]
  simp [Text.pieces, Item.pieces]

theorem valueOf_around_parens {o : BinOp} (ho : o ∈ levels.flatten) (ha : valueOf m a = some v)
    (hb : valueOf m b = some w) :
    valueOf m (around o (parens a) (parens b)) = some (applyOp m.arith o v w) := by
  rw [valueOf, pieces_around (pieces_parens ha) (pieces_parens hb), Option.bind_some,
    List.singleton_append, evalPieces_op ho]

theorem valueOf_not (ha : valueOf m a = some v) :
    valueOf m (.token .not :: parens a) = some (ofBool (decide (v = 0))) := by
  have hpieces : Text.pieces m (.token .not :: parens a) = some [.not, .value v] := by
    rw [Text.pieces, Item.pieces, pieces_parens ha]
    rfl
  rw [valueOf, hpieces, Option.bind_some, evalPieces_not]

theorem valueOf_conditional (hc : valueOf m c = some x) (ha : valueOf m a = some v)
    (hb : valueOf m b = some w) :
    valueOf m (conditional (parens c) (parens a) (parens b)) = some (if x ≠ 0 then v else w) := by
  have hmiddle : Text.pieces m ([.token .space] ++ parens a ++ [.token .space]) =
      some [.value v] := by
    rw [pieces_append, pieces_append, pieces_parens ha]
    rfl
  have hsign : Text.pieces m [.token .space,
      .enclosed .choice ([.token .space] ++ parens a ++ [.token .space]), .token .space] =
      some [.choice v] := by
    simp only [Text.pieces, Item.pieces, hmiddle, Option.bind_some, evalPieces_value,
      Option.map_some, List.nil_append, List.append_nil]
  have hpieces : Text.pieces m (conditional (parens c) (parens a) (parens b)) =
      some [.value x, .choice v, .value w] := by
    rw [conditional, pieces_append, pieces_append, pieces_parens hc, pieces_parens hb, hsign]
    rfl
  rw [valueOf, hpieces, Option.bind_some, evalPieces_choice]

end Read

end Ava.Lib.CText
