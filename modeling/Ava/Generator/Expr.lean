import Ava.Lib.CText

/-!
# The expression algebra of the generator

`nightwatch/c_dsl.py` builds C expressions as strings. An `Expr` is a text with, where it is known,
a set of constants that has the value of the text among them. The operations concatenate texts, and
first try to find the result from texts that are constants, from equal texts, and from value sets.

Python reads a text as a constant if it is one of a list of names, a decimal number, or a word for a
truth value; C reads a number with a leading zero as an octal one. `Environment.atom` is what C
makes of an atom, and `constantValue` what Python makes of a text.
-/

set_option autoImplicit false

namespace Ava.Generator

open Ava.Lib.CText

/-- `_known_constants`. The list has no comma between `"free"` and `"ava_zerocopy_alloc"`, so it
contains neither of them. -/
inductive KnownConstant where
  | nwSync | nwAsync | nwFlush | nwNone | nwHandle | nwOpaque | nwBuffer | nwCallback
  | nwCallbackRegistration | nwFile | nwZerocopyBuffer | avaNone | avaCoupled | avaStatic | avaCall
  | avaManual | null | malloc | freeavaZerocopyAlloc | avaZerocopyFree
deriving DecidableEq, Repr

/-- The position of a name in the order of Python strings. -/
def KnownConstant.rank : KnownConstant → Nat
  | .avaCall => 0
  | .avaCoupled => 1
  | .avaManual => 2
  | .avaNone => 3
  | .avaStatic => 4
  | .null => 5
  | .nwAsync => 6
  | .nwBuffer => 7
  | .nwCallback => 8
  | .nwCallbackRegistration => 9
  | .nwFile => 10
  | .nwFlush => 11
  | .nwHandle => 12
  | .nwNone => 13
  | .nwOpaque => 14
  | .nwSync => 15
  | .nwZerocopyBuffer => 16
  | .avaZerocopyFree => 17
  | .freeavaZerocopyAlloc => 18
  | .malloc => 19

inductive Sign where
  | none
  | plus
  | minus
deriving DecidableEq, Repr

def Sign.apply : Sign → Nat → Int
  | .minus, n => -n
  | _, n => n

/-- The atoms of a text: digits with or without a sign, a word that `_parse_bool` accepts, one of
the known names, or anything else. -/
inductive Atom where
  | number (sign : Sign) (digits : List (Fin 10))
  | word (value : Bool) (spelling : String)
  | known (name : KnownConstant)
  | other (spelling : String)
deriving DecidableEq, Repr

/-- A C expression. -/
abbrev Code := Text Atom

/-- The number that digits stand for. -/
def ofDigits (base : Nat) (digits : List (Fin 10)) : Nat :=
  digits.foldl (fun n d => base * n + d) 0

/-! ## What Python makes of a text -/

/-- A value of `constant_value`. -/
inductive Constant where
  | int (n : Int)
  | name (c : KnownConstant)
deriving DecidableEq, Repr

def Atom.constant : Atom → Option Constant
  | .number sign digits =>
    if digits = [] then none else some (.int (sign.apply (ofDigits 10 digits)))
  | .word value _ => some (.int (ofBool value))
  | .known c => some (.name c)
  | .other _ => none

/-- `constant_value`; no value is a `ValueError`. -/
def constantValue : Code → Option Constant
  | [.token (.atom a)] => a.constant
  | _ => none

/-! ## What C makes of a text -/

/-- An integer literal: with a leading zero it is octal. -/
def literal : List (Fin 10) → Option Nat
  | [] => none
  | d :: digits =>
    if d ≠ 0 then some (ofDigits 10 (d :: digits))
    else if ∀ e ∈ digits, e < 8 then some (ofDigits 8 digits)
    else none

/-- Digits that C and Python read as the same number: there is no leading zero. -/
def IsDecimal (digits : List (Fin 10)) : Prop :=
  digits = [0] ∨ ∃ d rest, digits = d :: rest ∧ d ≠ 0

/-- The digits of 0. -/
def zeroDigits : List (Fin 10) := [0]

/-- The text `1`. -/
def oneText : Code := [.token (.atom (.number .none [1]))]

/-- The values of names, and of the arithmetic operators. -/
structure Environment where
  known : KnownConstant → Int
  word : Bool → String → Int
  other : String → Int
  arith : BinOp → Int → Int → Int

def Environment.atom (env : Environment) : Atom → Option Int
  | .number sign digits => (literal digits).map sign.apply
  | .word value spelling => some (env.word value spelling)
  | .known c => some (env.known c)
  | .other spelling => some (env.other spelling)

def Environment.meaning (env : Environment) : Meaning Atom := ⟨env.atom, env.arith⟩

/-- What a constant of a value set stands for. -/
def Environment.constant (env : Environment) : Constant → Int
  | .int n => n
  | .name c => env.known c

/-! ## Expressions -/

/-- `value_set`. -/
abbrev ValueSet := Option (Finset Constant)

/-- `class Expr`. -/
structure Expr where
  code : Code
  valueSet : ValueSet

def isSpace : Item Atom → Bool
  | .token .space => true
  | _ => false

/-- `strip`. -/
def strip (code : Code) : Code := ((code.dropWhile isSpace).reverse.dropWhile isSpace).reverse

/-- `Expr.__init__`, without a value set. -/
def Expr.new (code : Code) : Expr := ⟨strip code, (constantValue (strip code)).map fun c => {c}⟩

/-- `Expr.__init__`, with a value set, which counts if it is neither `None` nor empty. -/
def Expr.newIn (code : Code) (valueSet : ValueSet) : Expr :=
  match valueSet with
  | some s => if s = ∅ then Expr.new code else ⟨strip code, some s⟩
  | none => Expr.new code

/-- `_boolean_constants`. -/
def booleanConstants : Finset Constant := {.int 0, .int 1}

/-- `_value_set_union`. -/
def valueSetUnion : ValueSet → ValueSet → ValueSet
  | some s, some t => some (s ∪ t)
  | _, _ => none

/-- `_value_set_isdisjoint`. -/
def valueSetIsdisjoint : ValueSet → ValueSet → Bool
  | some s, some t => decide (Disjoint s t)
  | _, _ => false

/-- `_value_set_issingltonsame`. -/
def valueSetIssingltonsame : ValueSet → ValueSet → Bool
  | some s, some t => decide (s = t ∧ s.card = 1)
  | _, _ => false

namespace Expr

/-- `Expr(0)` or `Expr(1)`, also from a `bool`. -/
def ofBool (b : Bool) : Expr := Expr.new [.token (.atom (.number .none [if b then 1 else 0]))]

def isConstant (e : Expr) : Bool := (constantValue e.code).isSome

def isTrue (e : Expr) : Bool := decide (constantValue e.code = some (.int 1))

def isFalse (e : Expr) : Bool := decide (constantValue e.code = some (.int 0))

def group (e : Expr) : Expr := Expr.newIn (parens e.code) e.valueSet

/-- `equals` and `not_equals`: the operator, and the result for equal operands. -/
def equality (o : BinOp) (same : Bool) (a b : Expr) : Expr :=
  if valueSetIssingltonsame a.valueSet b.valueSet || decide (a.code = b.code) then ofBool same
  else if valueSetIsdisjoint a.valueSet b.valueSet ||
      (a.isConstant && b.isConstant && decide (a.code ≠ b.code)) then ofBool (!same)
  else Expr.newIn (around o a.group.code b.group.code) (some booleanConstants)

def equals (a b : Expr) : Expr := equality .eq true a b

def notEquals (a b : Expr) : Expr := equality .ne false a b

/-- `__invert__`. -/
def invert (e : Expr) : Expr :=
  if e.isTrue then ofBool false
  else if e.isFalse then ofBool true
  else Expr.newIn (.token .not :: e.group.code) (some booleanConstants)

/-- `__and__`. -/
def and (a b : Expr) : Expr :=
  if a.isTrue || b.isFalse then b
  else if a.isFalse || b.isTrue then a
  else Expr.newIn (around .land a.code b.code) (some booleanConstants)

/-- `__or__`. -/
def or (a b : Expr) : Expr :=
  if a.isFalse || b.isTrue then b
  else if a.isTrue || b.isFalse then a
  else Expr.newIn (around .lor a.code b.code) (some booleanConstants)

/-- `value_set.issubset(values)`: the values are strings, so no number is among them. -/
def valuesInclude (values : List Code) : Constant → Bool
  | .int _ => false
  | .name c => decide ([Item.token (.atom (.known c))] ∈ values)

/-- `one_of`. The order in which a Python set of values is gone through is that of the list. -/
def oneOf (e : Expr) (values : List Code) : Expr :=
  if (match e.valueSet with
      | some s => decide (s ≠ ∅ ∧ ∀ c ∈ s, valuesInclude values c = true)
      | none => false) then ofBool true
  else values.foldl (fun accum v => accum.or (e.equals (Expr.new v))) (ofBool false)

/-- `__gt__` and `__ge__`: the operator, and Python's comparison of two constants, which is a
`TypeError` for a number and a name. Equal operands give 0 in both. -/
def order (o : BinOp) (compare : Constant → Constant → Option Bool) (a b : Expr) : Expr :=
  if a.code = b.code then ofBool false
  else
    match (constantValue a.code).bind fun c => (constantValue b.code).bind fun d => compare c d with
    | some r => ofBool r
    | none => Expr.newIn (around o a.group.code b.group.code) (some booleanConstants)

/-- Python's `>` on constants: on names it is the order of strings. -/
def constantGt : Constant → Constant → Option Bool
  | .int m, .int n => some (decide (m > n))
  | .name c, .name d => some (decide (c.rank > d.rank))
  | _, _ => none

/-- Python's `>=` on constants. -/
def constantGe : Constant → Constant → Option Bool
  | .int m, .int n => some (decide (m ≥ n))
  | .name c, .name d => some (decide (c.rank ≥ d.rank))
  | _, _ => none

/-- `__gt__`. -/
def gt (a b : Expr) : Expr := order .gt constantGt a b

/-- `__ge__`. -/
def ge (a b : Expr) : Expr := order .ge constantGe a b

/-- `if_then_else_expression`. -/
def ifThenElseExpression (c a b : Expr) : Expr :=
  if c.isTrue || decide (a.code = b.code) then a
  else if c.isFalse then b
  else if a.isTrue && b.isFalse then c
  else Expr.newIn (conditional c.group.code a.group.code b.group.code)
    (valueSetUnion a.valueSet b.valueSet)

end Expr

end Ava.Generator
