import Ava.Generator.AnnotationSet

/-!
# Reading annotation blocks

`extract_annotations` in `nightwatch/parser/c/util.py` goes through the statements of a block.
Annotations are declarations of variables with a special prefix; blocks for arguments, elements and
fields are `if` statements with special predicates, whose annotations are pushed down; the
annotations of the branches of any other `if` statement are merged.

`extractAt` computes what a block leaves at one key, and `pointwise_extractFrom` says that reading a
block is doing that for every key.
-/

set_option autoImplicit false

namespace Ava.Generator

open Ava.Lib

/-! ## The statements of a block -/

/-- The initializer of a variable: an expression, or a string literal that lists names; or none, but
a type. -/
inductive AnnotationText where
  | code (c : Code)
  | literal (names : List String)
  | declared (type : String)

/-- The kinds of blocks that are pushed down. -/
inductive ScopeKind where
  | argument (name : String)
  | returnValue
  | element
  | field (name : String)
deriving DecidableEq, Repr

def ScopeKind.component : ScopeKind → Component
  | .argument name => .named name
  | .returnValue => .named "return_value"
  | .element => .named "element"
  | .field name => .field name

/-- The declarations and `if` statements of a block that are not inside of others, each with the
parameters that it refers to. -/
inductive Block where
  | nil
  | annotate (name : AnnotationName) (text : AnnotationText) (refs : Finset String) (rest : Block)
  | scope (kind : ScopeKind) (body : Block) (refs : Finset String) (rest : Block)
  | branch (predicate : Code) (thenBranch elseBranch : Block) (refs : Finset String) (rest : Block)

/-- `ava_field` declares a variable, and then tests it. -/
def Block.field (name : String) (body : Block) (refs : Finset String) (rest : Block) : Block :=
  .annotate (.fieldBlock name) (.code oneText) ∅ (.scope (.field name) body refs rest)

/-! ## Parsers -/

namespace AnnotationText

/-- The text of the initializer. -/
def unparsed : AnnotationText → Option Code
  | .code c => some c
  | .literal names => some [.token (.atom (.other ("\"" ++ ", ".intercalate names ++ "\"")))]
  | .declared _ => none

/-- `_as_bool`: `bool(int(s))`. -/
def asBool (c : Code) : Except AnnotationError AnnotationValue :=
  match c with
  | [.token (.atom (.number sign digits))] =>
    if digits = [] then .error .valueError
    else .ok (.flag (decide (sign.apply (ofDigits 10 digits) ≠ 0)))
  | _ => .error .valueError

/-- `_as_string_set`. Only a string literal can be split. -/
def asStringSet : AnnotationText → Except AnnotationError AnnotationValue
  | .literal names => .ok (.names (names.filter fun s => decide (s ≠ "")).toFinset)
  | _ => .error .valueError

end AnnotationText

/-- `annotation_parser`, for an initializer and its text. -/
def annotationParser (name : AnnotationName) (text : AnnotationText) (c : Code) :
    Except AnnotationError AnnotationValue :=
  match name with
  | .dependsOn => text.asStringSet
  | .objectDependsOn => .ok (.exprs {(Expr.new c).code})
  | .objectRecord | .input | .output | .noCopy | .allocates | .deallocates | .userdata
  | .generateTimingCode => AnnotationText.asBool c
  | .objectExplicitStateExtract | .objectExplicitStateReplace | .bufferAllocator
  | .bufferDeallocator | .buffer | .transfer | .callbackStubFunction | .lifetime
  | .lifetimeCoupled | .amount _ => .ok (.expr (Expr.new c))
  | .typeCast | .unsupported | .disableNative | .objectRecordFor | .fieldBlock _ | .other _ =>
    .ok (.text [c])

/-- The value that a declaration gives to an annotation. -/
def declaredValue (name : AnnotationName) (text : AnnotationText) :
    Except AnnotationError AnnotationValue :=
  match text.unparsed, text with
  | some c, _ => annotationParser name text c
  | none, .declared type =>
    if name = .typeCast then .ok (.ctype type) else .error .missingValue
  | none, _ => .error .missingValue

/-! ## Reading a block -/

/-- The key of `depends_on`. -/
def dependsOnKey : AnnotationKey := ⟨[], .dependsOn⟩

/-- `set(c.referenced_parameters) | ret.get("depends_on", set())`, and what that leaves. -/
def addRefsValue (refs : Finset String) (old : Option AnnotationValue) :
    Except AnnotationError AnnotationValue :=
  (getValue dependsOnKey old).bind fun t =>
    ((AnnotationValue.names refs).combine t).bind fun v => setValue dependsOnKey v old

def AnnotationSet.addRefs (s : AnnotationSet) (refs : Finset String) :
    Except AnnotationError AnnotationSet :=
  HashTable.setWith (addRefsValue refs) dependsOnKey s

/-- The loop of `extract_annotations`. -/
def extractFrom : AnnotationSet → Block → Except AnnotationError AnnotationSet
  | ret, .nil => .ok ret
  | ret, .annotate name text refs rest =>
    (ret.addRefs refs).bind fun ret =>
      (declaredValue name text).bind fun v =>
        (ret.setItem ⟨[], name⟩ v).bind fun ret => extractFrom ret rest
  | ret, .scope kind body refs rest =>
    (ret.addRefs refs).bind fun ret =>
      ((extractFrom ∅ body).bind fun inner => inner.pushdown kind.component).bind fun pushed =>
        (ret.update pushed).bind fun ret => extractFrom ret rest
  | ret, .branch predicate thenBranch elseBranch refs rest =>
    (ret.addRefs refs).bind fun ret =>
      ((extractFrom ∅ thenBranch).bind fun t =>
        (extractFrom ∅ elseBranch).bind fun e => t.ifElse predicate e).bind fun merged =>
          (ret.update merged).bind fun ret => extractFrom ret rest

/-- `extract_annotations`. -/
def extractAnnotations (b : Block) : Except AnnotationError AnnotationSet := extractFrom ∅ b

/-! ## Key by key -/

/-- What a statement's parameters leave at a key. -/
def addRefsAt (refs : Finset String) (k : AnnotationKey) (old : Option AnnotationValue) :
    Except AnnotationError (Option AnnotationValue) :=
  if k = dependsOnKey then (addRefsValue refs old).map some else .ok old

/-- What a declaration leaves at a key. -/
def declareAt (name : AnnotationName) (v : AnnotationValue) (k : AnnotationKey)
    (old : Option AnnotationValue) : Except AnnotationError (Option AnnotationValue) :=
  if k = ⟨[], name⟩ then (setValue k v old).map some else .ok old

/-- What the set of a block leaves at a key when it is pushed down. -/
def pushedAt (c : Component) (k : AnnotationKey)
    (inner : AnnotationKey → Except AnnotationError (Option AnnotationValue)) :
    Except AnnotationError (Option AnnotationValue) :=
  (AnnotationSet.above c k).elim (.ok none) fun l =>
    (inner l).bind fun v => AnnotationSet.updateAt k v none

/-- What the loop leaves at a key. -/
def extractAt : AnnotationKey → Option AnnotationValue → Block →
    Except AnnotationError (Option AnnotationValue)
  | _, old, .nil => .ok old
  | k, old, .annotate name text refs rest =>
    (addRefsAt refs k old).bind fun old =>
      (declaredValue name text).bind fun v =>
        (declareAt name v k old).bind fun old => extractAt k old rest
  | k, old, .scope kind body refs rest =>
    (addRefsAt refs k old).bind fun old =>
      (pushedAt kind.component k fun l => extractAt l none body).bind fun pushed =>
        (AnnotationSet.updateAt k pushed old).bind fun old => extractAt k old rest
  | k, old, .branch predicate thenBranch elseBranch refs rest =>
    (addRefsAt refs k old).bind fun old =>
      ((extractAt k none thenBranch).bind fun t =>
        (extractAt k none elseBranch).bind fun e =>
          AnnotationSet.mergeAt predicate k t e).bind fun merged =>
            (AnnotationSet.updateAt k merged old).bind fun old => extractAt k old rest

instance : Nonempty AnnotationKey := ⟨dependsOnKey⟩

section Pointwise

variable (s : AnnotationSet)

theorem pointwise_addRefs (refs : Finset String) :
    HashTable.Pointwise (s.addRefs refs) fun k => addRefsAt refs k (s.lookup k) :=
  HashTable.pointwise_setWith _ _ _

theorem pointwise_setItem (name : AnnotationName) (v : AnnotationValue) :
    HashTable.Pointwise (s.setItem ⟨[], name⟩ v) fun k => declareAt name v k (s.lookup k) := by
  have hset := HashTable.pointwise_setWith (setValue ⟨[], name⟩ v) ⟨[], name⟩ s
  refine Eq.mp (congrArg _ (funext fun k => ?_)) hset
  rw [declareAt]
  split_ifs with hk
  · rw [hk]
  · rfl

theorem pointwise_pushed {r : Except AnnotationError AnnotationSet}
    {f : AnnotationKey → Except AnnotationError (Option AnnotationValue)}
    (hr : HashTable.Pointwise r f) (c : Component) :
    HashTable.Pointwise (r.bind fun inner => inner.pushdown c) fun k => pushedAt c k f :=
  hr.bind_index (AnnotationSet.above c)
    (fun k => ⟨AnnotationSet.below c k, AnnotationSet.above_below c k⟩)
    (q := fun k v => AnnotationSet.updateAt k v none)
    fun t => AnnotationSet.pointwise_pushdown t c

end Pointwise

/-- Reading a block is reading it for every key. -/
theorem pointwise_extractFrom (b : Block) (ret : AnnotationSet) :
    HashTable.Pointwise (extractFrom ret b) fun k => extractAt k (ret.lookup k) b := by
  induction b generalizing ret with
  | nil => exact HashTable.pointwise_ok ret
  | annotate name text refs rest ih =>
    refine (pointwise_addRefs ret refs).bind fun ret₁ => ?_
    refine HashTable.Pointwise.of_bind _ fun v => ?_
    exact (pointwise_setItem ret₁ name v).bind fun ret₂ => ih ret₂
  | scope kind body refs rest ihbody ih =>
    refine (pointwise_addRefs ret refs).bind fun ret₁ => ?_
    refine (pointwise_pushed (ihbody ∅) kind.component).bind fun pushed => ?_
    exact (AnnotationSet.pointwise_update ret₁ pushed).bind fun ret₂ => ih ret₂
  | branch predicate thenBranch elseBranch refs rest ihthen ihelse ih =>
    refine (pointwise_addRefs ret refs).bind fun ret₁ => ?_
    refine HashTable.Pointwise.bind ?_ fun merged => ?_
    · refine (ihthen ∅).bind fun t => ?_
      exact (ihelse ∅).bind fun e => AnnotationSet.pointwise_ifElse t e predicate
    · exact (AnnotationSet.pointwise_update ret₁ merged).bind fun ret₂ => ih ret₂

end Ava.Generator
