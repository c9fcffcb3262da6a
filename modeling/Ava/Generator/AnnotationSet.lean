import Ava.Generator.Expr
import Ava.Lib.KeyedFold

/-!
# Annotation sets

`nightwatch/annotation_set.py` keeps the annotations of a value and of its parts in a dictionary. A
key is the name of an annotation behind the path to the part; a name that is not there has a
default. Most annotations can be set once; some are combined with what is there. Annotations of the
two branches of an `if` are merged into conditional expressions.

Every operation writes each key once, so that its result can be read off key by key: `setValue` and
`mergeValue` say what happens at one key.
-/

set_option autoImplicit false

namespace Ava.Generator

open Ava.Lib Ava.Lib.CText

/-! ## Names, values and defaults -/

/-- The names of annotations: those with a default, and others. `fieldBlock` is the variable that
`ava_field` declares. -/
inductive AnnotationName where
  | dependsOn | objectDependsOn | objectRecord | objectExplicitStateReplace
  | objectExplicitStateExtract | bufferAllocator | bufferDeallocator | input | output | allocates
  | deallocates | transfer | buffer | typeCast | unsupported | userdata | callbackStubFunction
  | generateTimingCode | lifetime | lifetimeCoupled | disableNative
  | objectRecordFor
  | noCopy
  | amount (spelling : String)
  | fieldBlock (field : String)
  | other (spelling : String)
deriving DecidableEq, Repr

/-- A component of a path: a string, or a `Field`. -/
inductive Component where
  | named (name : String)
  | field (name : String)
deriving DecidableEq, Repr

/-- A key: a plain name, or a tuple of components and a name. -/
structure AnnotationKey where
  path : List Component
  tail : AnnotationName
deriving DecidableEq, Repr

/-- A Python value: `True` or `False`, a number, a string as the pieces that it was put together
from, an `Expr`, a set of strings or of expressions, `None`, a type, or a `Conditional`. -/
inductive AnnotationValue where
  | flag (b : Bool)
  | number (digits : List (Fin 10))
  | text (pieces : List Code)
  | expr (e : Expr)
  | names (s : Finset String)
  | exprs (s : Finset Code)
  | none
  | ctype (spelling : String)
  | conditional (predicate : Code) (thenBranch elseBranch : AnnotationValue)

/-- `providedOnce` is the error "Metadata and annotations can only be provided once.",
`missingValue` the error "Missing value for annotation variable declaration". -/
inductive AnnotationError where
  | providedOnce
  | missingValue
  | keyError
  | typeError
  | valueError
deriving DecidableEq, Repr

/-- `Expr` of a name. -/
def knownExpr (c : KnownConstant) : AnnotationValue := .expr (.new [.token (.atom (.known c))])

/-- `default_annotations`. -/
def defaultAnnotations : AnnotationName → Option AnnotationValue
  | .dependsOn => some (.names ∅)
  | .objectDependsOn => some (.exprs ∅)
  | .objectRecord => some (.flag false)
  | .objectExplicitStateReplace => some (knownExpr .null)
  | .objectExplicitStateExtract => some (knownExpr .null)
  | .bufferAllocator => some (knownExpr .malloc)
  | .bufferDeallocator => some (.expr (.new [.token (.atom (.other "free"))]))
  | .input => some (.flag false)
  | .output => some (.flag false)
  | .allocates => some (.flag false)
  | .deallocates => some (.flag false)
  | .transfer => some (knownExpr .nwOpaque)
  | .buffer => some (.number zeroDigits)
  | .typeCast => some .none
  | .unsupported => some (.flag false)
  | .userdata => some (.flag false)
  | .callbackStubFunction => some (knownExpr .null)
  | .generateTimingCode => some (.flag false)
  | .lifetime => some (knownExpr .avaCall)
  | .lifetimeCoupled => some (knownExpr .null)
  | .disableNative => some (.flag false)
  | _ => Option.none

/-- `combinable_annotations`. -/
def AnnotationName.combinable : AnnotationName → Bool
  | .dependsOn => true
  | .unsupported => true
  | .objectDependsOn => true
  | .objectRecordFor => true
  | _ => false

namespace AnnotationValue

/-- `t or v`, `t | v` or `t + v`, whichever comes first for the value `t` of a combinable
annotation. -/
def combine : AnnotationValue → AnnotationValue → Except AnnotationError AnnotationValue
  | .flag b, v => .ok (if b then .flag b else v)
  | .names a, .names b => .ok (.names (a ∪ b))
  | .exprs a, .exprs b => .ok (.exprs (a ∪ b))
  | .text a, .text b => .ok (.text (a ++ b))
  | _, _ => .error .typeError

/-- `str` and `Expr` of a value, other than the sets and types that are not merged as
expressions. -/
def asText : AnnotationValue → Option (Code × Expr)
  | .flag b => some ([.token (.atom (.word b (if b then "True" else "False")))], .ofBool b)
  | .number digits =>
    some ([.token (.atom (.number .none digits))], .new [.token (.atom (.number .none digits))])
  | .text pieces => some (pieces.flatten, .new pieces.flatten)
  | .expr e => some (e.code, e)
  | _ => Option.none

end AnnotationValue

/-- `if_then_else_expression` on values, given `str` and `Expr` of each: only `str` is compared. -/
def ifThenElseStr (c : Expr) (a b : Code × Expr) : Expr :=
  if c.isTrue || decide (a.1 = b.1) then a.2
  else if c.isFalse then b.2
  else if a.2.isTrue && b.2.isFalse then c
  else Expr.newIn (conditional c.group.code a.2.group.code b.2.group.code)
    (valueSetUnion a.2.valueSet b.2.valueSet)

/-! ## One key -/

/-- `__getitem__`, given what the dictionary has at the key. -/
def getValue (k : AnnotationKey) (old : Option AnnotationValue) :
    Except AnnotationError AnnotationValue :=
  match old with
  | some v => .ok v
  | none =>
    match defaultAnnotations k.tail with
    | some v => .ok v
    | none => .error .keyError

/-- What `__setitem__` writes, given what the dictionary has at the key. -/
def setValue (k : AnnotationKey) (v : AnnotationValue) (old : Option AnnotationValue) :
    Except AnnotationError AnnotationValue :=
  if k.tail.combinable then (getValue k old).bind fun t => t.combine v
  else if old.isSome then .error .providedOnce
  else .ok v

/-- What `if_else` writes at a key, given what the two branches and the result have there. -/
def mergeValue (predicate : Code) (k : AnnotationKey) (a b old : Option AnnotationValue) :
    Except AnnotationError AnnotationValue :=
  (getValue k a).bind fun v =>
    if k.tail = .typeCast then
      (getValue k b).bind fun w => setValue k (.conditional predicate v w) old
    else if k.tail.combinable then
      (setValue k v old).bind fun t => (getValue k b).bind fun w => setValue k w (some t)
    else
      (getValue k b).bind fun w =>
        match v.asText, w.asText with
        | some x, some y => setValue k (.expr (ifThenElseStr (.new predicate) x y)) old
        | _, _ => .error .typeError

/-! ## Sets -/

/-- `AnnotationSet`, with the default annotations. -/
abbrev AnnotationSet := HashTable AnnotationKey AnnotationValue

namespace AnnotationSet

def getItem (s : AnnotationSet) (k : AnnotationKey) : Except AnnotationError AnnotationValue :=
  getValue k (s.lookup k)

def setItem (s : AnnotationSet) (k : AnnotationKey) (v : AnnotationValue) :
    Except AnnotationError AnnotationSet := HashTable.setWith (setValue k v) k s

/-- `update`. -/
def update (s m : AnnotationSet) : Except AnnotationError AnnotationSet :=
  HashTable.writeAll Sigma.fst (fun e => setValue e.1 e.2) m.entries s

/-- `set(self.keys()) | set(else_branch.keys())`. -/
def unionKeys (s e : AnnotationSet) : List AnnotationKey :=
  s.keys ++ e.keys.filter fun k => decide (k ∉ s.keys)

/-- `if_else`. -/
def ifElse (s : AnnotationSet) (predicate : Code) (e : AnnotationSet) :
    Except AnnotationError AnnotationSet :=
  HashTable.writeAll id (fun k => mergeValue predicate k (s.lookup k) (e.lookup k))
    (s.unionKeys e) ∅

/-- The key below a component. -/
def below (c : Component) (k : AnnotationKey) : AnnotationKey := ⟨c :: k.path, k.tail⟩

/-- The key without its first component, if that is `c`. -/
def above (c : Component) (k : AnnotationKey) : Option AnnotationKey :=
  match k.path with
  | d :: path => if d = c then some ⟨path, k.tail⟩ else none
  | [] => none

/-- `pushdown`. -/
def pushdown (s : AnnotationSet) (c : Component) : Except AnnotationError AnnotationSet :=
  HashTable.writeAll (fun e => below c e.1) (fun e => setValue (below c e.1) e.2) s.entries ∅

/-- `subelement`. -/
def subelement (s : AnnotationSet) (c : Component) : Except AnnotationError AnnotationSet :=
  HashTable.writeAll Prod.fst (fun e => setValue e.1 e.2)
    (s.entries.filterMap fun e => (above c e.1).map fun k => (k, e.2)) ∅

/-! ## Key by key -/

/-- What `update` leaves at a key. -/
def updateAt (k : AnnotationKey) (v old : Option AnnotationValue) :
    Except AnnotationError (Option AnnotationValue) :=
  match v with
  | none => .ok old
  | some v => (setValue k v old).map some

/-- What `if_else` leaves at a key. -/
def mergeAt (predicate : Code) (k : AnnotationKey) (a b : Option AnnotationValue) :
    Except AnnotationError (Option AnnotationValue) :=
  if a.isSome || b.isSome then (mergeValue predicate k a b none).map some else .ok none

section Keys

variable {c : Component} {k l : AnnotationKey}

theorem above_eq_some : above c k = some l ↔ k = below c l := by
  obtain ⟨path, tail⟩ := k
  obtain ⟨path', tail'⟩ := l
  cases path with
  | nil => simp [above, below]
  | cons d path =>
    rw [above]
    dsimp only
    split_ifs with hd
    · subst hd
      simp [below]
    · simp [below, hd]

theorem above_below (c : Component) (k : AnnotationKey) : above c (below c k) = some k :=
  above_eq_some.2 rfl

theorem below_injective (c : Component) : Function.Injective (below c) := by
  intro k l h
  have hk := above_below c k
  rw [h, above_below] at hk
  exact (Option.some.inj hk).symm

end Keys

section Pointwise

variable (s m e : AnnotationSet) (c : Component) (predicate : Code)

theorem nodup_fst_entries : (s.entries.map Sigma.fst).Nodup := s.nodupKeys

theorem pointwise_update :
    HashTable.Pointwise (s.update m) fun k => updateAt k (m.lookup k) (s.lookup k) := by
  have hwrites := HashTable.pointwise_writeAll
    (f := fun e : Sigma fun _ : AnnotationKey => AnnotationValue => setValue e.1 e.2)
    (nodup_fst_entries m) (fun k => (m.lookup k).map (Sigma.mk k)) (fun k b => ?_) s
  · refine Eq.mp (congrArg _ (funext fun k => ?_)) hwrites
    cases m.lookup k with
    | none => rfl
    | some v => rfl
  · rw [Option.map_eq_some_iff]
    constructor
    · rintro ⟨v, hv, rfl⟩
      exact ⟨AList.mem_lookup_iff.1 hv, rfl⟩
    · rintro ⟨hb, rfl⟩
      exact ⟨b.2, AList.mem_lookup_iff.2 hb, rfl⟩

theorem pointwise_pushdown :
    HashTable.Pointwise (s.pushdown c) fun k =>
      (above c k).elim (.ok none) fun l => updateAt k (s.lookup l) none := by
  have hnodup : (s.entries.map fun e => below c e.1).Nodup := by
    have hmap := (nodup_fst_entries s).map (below_injective c)
    rw [List.map_map] at hmap
    exact hmap
  have hwrites := HashTable.pointwise_writeAll
    (f := fun e : Sigma fun _ : AnnotationKey => AnnotationValue => setValue (below c e.1) e.2)
    hnodup (fun k => (above c k).bind fun l => (s.lookup l).map (Sigma.mk l)) (fun k b => ?_) ∅
  · refine Eq.mp (congrArg _ (funext fun k => ?_)) hwrites
    cases hk : above c k with
    | none => rfl
    | some l =>
      rw [above_eq_some.1 hk, Option.bind_some, Option.elim_some]
      cases s.lookup l with
      | none => rfl
      | some v => rfl
  · rw [Option.bind_eq_some_iff]
    constructor
    · rintro ⟨l, hl, hb⟩
      obtain ⟨v, hv, rfl⟩ := Option.map_eq_some_iff.1 hb
      exact ⟨AList.mem_lookup_iff.1 hv, (above_eq_some.1 hl).symm⟩
    · rintro ⟨hb, rfl⟩
      refine ⟨b.1, above_below c b.1, ?_⟩
      rw [AList.mem_lookup_iff.2 hb]
      rfl

theorem pointwise_subelement :
    HashTable.Pointwise (s.subelement c) fun k => updateAt k (s.lookup (below c k)) none := by
  have hnodup : ((s.entries.filterMap fun e =>
      (above c e.1).map fun k => (k, e.2)).map Prod.fst).Nodup := by
    have hmap : (s.entries.filterMap fun e => (above c e.1).map fun k => (k, e.2)).map Prod.fst =
        (s.entries.map Sigma.fst).filterMap (above c) := by
      rw [List.map_filterMap, List.filterMap_map]
      congr 1
      funext e
      cases h : above c e.1 with
      | none => simp [h]
      | some k => simp [h]
    rw [hmap]
    refine (nodup_fst_entries s).filterMap fun a b k ha hb => ?_
    rw [above_eq_some.1 ha, above_eq_some.1 hb]
  have hwrites := HashTable.pointwise_writeAll
    (f := fun e : AnnotationKey × AnnotationValue => setValue e.1 e.2)
    hnodup (fun k => (s.lookup (below c k)).map fun v => (k, v)) (fun k b => ?_) ∅
  · refine Eq.mp (congrArg _ (funext fun k => ?_)) hwrites
    cases s.lookup (below c k) with
    | none => rfl
    | some v => rfl
  · rw [Option.map_eq_some_iff, List.mem_filterMap]
    constructor
    · rintro ⟨v, hv, rfl⟩
      refine ⟨⟨⟨below c k, v⟩, AList.mem_lookup_iff.1 hv, ?_⟩, rfl⟩
      rw [above_below]
      rfl
    · rintro ⟨⟨e, he, hb⟩, rfl⟩
      obtain ⟨l, hl, rfl⟩ := Option.map_eq_some_iff.1 hb
      have hkey := above_eq_some.1 hl
      refine ⟨e.2, ?_, rfl⟩
      dsimp only
      rw [← hkey]
      exact AList.mem_lookup_iff.2 he

theorem nodup_unionKeys : (s.unionKeys e).Nodup := by
  refine List.nodup_append'.2 ⟨s.nodupKeys, e.nodupKeys.filter _, ?_⟩
  intro k hs he
  rw [List.mem_filter, decide_eq_true_eq] at he
  exact he.2 hs

theorem mem_unionKeys {k : AnnotationKey} :
    k ∈ s.unionKeys e ↔ ((s.lookup k).isSome || (e.lookup k).isSome) = true := by
  rw [unionKeys, List.mem_append, List.mem_filter, decide_eq_true_eq, ← AList.mem_keys,
    ← AList.mem_keys, Bool.or_eq_true, AList.lookup_isSome, AList.lookup_isSome]
  tauto

theorem pointwise_ifElse :
    HashTable.Pointwise (s.ifElse predicate e) fun k =>
      mergeAt predicate k (s.lookup k) (e.lookup k) := by
  have hnodup : ((s.unionKeys e).map id).Nodup := by
    rw [List.map_id]
    exact nodup_unionKeys s e
  have hwrites := HashTable.pointwise_writeAll
    (f := fun k => mergeValue predicate k (s.lookup k) (e.lookup k)) hnodup
    (fun k => if (s.lookup k).isSome || (e.lookup k).isSome then some k else none)
    (fun k b => ?_) ∅
  · refine Eq.mp (congrArg _ (funext fun k => ?_)) hwrites
    rw [mergeAt]
    split_ifs
    · rfl
    · rfl
  · rw [mem_unionKeys]
    split_ifs with hk
    · rw [Option.some.injEq, id]
      constructor
      · rintro rfl
        exact ⟨hk, rfl⟩
      · rintro ⟨-, rfl⟩
        rfl
    · refine iff_of_false (fun h => by cases h) ?_
      rintro ⟨hb, rfl⟩
      exact hk hb

end Pointwise

/-! ## Down and up again -/

/-- Setting a value of the set in an empty one writes that value. -/
def Settable (s : AnnotationSet) : Prop := ∀ k v, s.lookup k = some v → setValue k v none = .ok v

theorem Settable.updateAt_none {s : AnnotationSet} (h : s.Settable) (k : AnnotationKey) :
    updateAt k (s.lookup k) none = .ok (s.lookup k) := by
  cases hk : s.lookup k with
  | none => rfl
  | some v =>
    rw [updateAt, h k v hk]
    rfl

/-- `subelement` after `pushdown` gives back the set. -/
theorem Settable.subelement_pushdown {s : AnnotationSet} (h : s.Settable) (c : Component) :
    ∃ t u, s.pushdown c = .ok t ∧ t.subelement c = .ok u ∧ ∀ k, u.lookup k = s.lookup k := by
  have hdown := pointwise_pushdown s c
  -- what a key gets depends on its name only
  have hkey : ∀ l, updateAt (below c l) (s.lookup l) none = .ok (s.lookup l) := h.updateAt_none
  obtain ⟨t, ht⟩ := hdown.exists_ok fun k => by
    cases hk : above c k with
    | none => exact ⟨none, rfl⟩
    | some l =>
      rw [above_eq_some.1 hk]
      exact ⟨_, hkey l⟩
  have htlookup : ∀ l, t.lookup (below c l) = s.lookup l := by
    intro l
    have hl := hdown.lookup t ht (below c l)
    rw [above_below] at hl
    exact Except.ok.inj (hl.symm.trans (hkey l))
  have hup := pointwise_subelement t c
  have hkey' : ∀ k, updateAt k (t.lookup (below c k)) none = .ok (s.lookup k) := by
    intro k
    rw [htlookup]
    exact h.updateAt_none k
  obtain ⟨u, hu⟩ := hup.exists_ok fun k => ⟨_, hkey' k⟩
  exact ⟨t, u, ht, hu, fun k => Except.ok.inj ((hup.lookup u hu k).symm.trans (hkey' k))⟩

end AnnotationSet

end Ava.Generator
