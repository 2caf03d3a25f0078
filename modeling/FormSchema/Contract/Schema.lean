import FormSchema.Json.Display
import FormSchema.Rule
import FormSchema.Text.CodePoint

/-!
# Schemas for JSON values

A small language of schemas, and all places where a value breaks one.  The violation that is
reported is one of those nearest to the top: of these the one whose way comes last in the order of
ways, and of several at one place the first, where an object is looked at for its kind, for entries
it may not have, for entries it lacks, and then inside.
-/

namespace FormSchema.Contract

/-! ## Section 1: Schemas -/

/-- A condition on values: one string, one of some strings, any string, a string that is not empty,
a rule identifier, an integer from a least value on, an array of values of one kind, or an object.
An object has required entries, described ones, and perhaps others, if these have a schema too. -/
inductive Schema
  | constant (text : Text)
  | oneOf (texts : List Text)
  | text
  | nonEmptyText
  | ruleId
  | integer (least : Int)
  | array (items : Schema)
  | object (required : List Text) (described : List (Text × Schema)) (others : Option Schema)

/-! ## Section 2: Violations -/

/-- One step down into a value. -/
inductive Step
  | name (t : Text)
  | index (i : Nat)
deriving DecidableEq

/-- Whether a step comes before another: indices by number, names in the order of texts, and an
index before a name. -/
def Step.precedes : Step → Step → Bool
  | .index i, .index j => decide (i < j)
  | .index _, .name _ => true
  | .name _, .index _ => false
  | .name a, .name b => decide (a < b)

def Step.toJson : Step → Json
  | .name t => .str t
  | .index i => .int i

/-- What is wrong with a value. -/
inductive Cause
  | kind (value : Json) (expected : Text)
  | missing (name : Text)
  | unexpected (names : List Text)
  | notConstant (text : Text)
  | notListed (value : Json) (texts : List Text)
  | notRuleId (text : Text)
  | below (value : Json) (least : Int)
  | empty

def Cause.message : Cause → Text
  | .kind value expected => value.inspect ++ " is not of type " ++ Quoted.quote expected
  | .missing name => Quoted.quote name ++ " is a required property"
  | .unexpected names =>
    "Additional properties are not allowed (" ++ Text.join ", " (names.map Quoted.quote) ++
      (match names with
        | [_] => " was unexpected)"
        | _ => " were unexpected)")
  | .notConstant text => Quoted.quote text ++ " was expected"
  | .notListed value texts =>
    value.inspect ++ " is not one of " ++ (Json.arr (texts.map .str)).inspect
  | .notRuleId text =>
    Quoted.quote text ++ " does not match " ++ Quoted.quote RuleId.pattern
  | .below value least =>
    value.inspect ++ " is less than the minimum of " ++ Text.ofInt least
  | .empty => "'' should be non-empty"

/-- A violation: the way to the value and what is wrong with it. -/
structure Violation where
  path : List Step
  cause : Cause

/-- A violation inside a part of a value. -/
def Violation.under (step : Step) (v : Violation) : Violation := ⟨step :: v.path, v.cause⟩

/-- A violation by the value itself. -/
def Violation.here (cause : Cause) : Violation := ⟨[], cause⟩

/-- Whether a way comes before another: the first steps in which they differ decide, and a way comes
before all that go on from its end. -/
def wayPrecedes : List Step → List Step → Bool
  | _, [] => false
  | [], _ :: _ => true
  | s :: p, t :: q => if s = t then wayPrecedes p q else s.precedes t

/-- Whether a violation is reported in place of another: it is nearer to the top, or as near and
further on in the order of ways. -/
def Violation.outranks (v w : Violation) : Bool :=
  decide (v.path.length < w.path.length) ||
    (decide (v.path.length = w.path.length) && wayPrecedes w.path v.path)

/-! ## Section 3: Validation -/

/-- The integer that a value equals; a fractional number without a fraction counts. -/
def integer? : Json → Option Int
  | .int n => some n
  | .float x => x.toInt?
  | _ => none

/-- What is wrong with a string value. -/
def textViolations (test : Text → Option Cause) : Json → List Violation
  | .str s =>
    match test s with
    | none => []
    | some cause => [.here cause]
  | v => [.here (.kind v "string")]

/-- The names that an object may not have. -/
def unexpectedNames (described : List Text) (others : Bool) (es : Entries Json) : List Text :=
  if others then [] else Text.sort (es.names.filter fun name => !described.contains name)

mutual

/-- All violations of a schema by a value. -/
def violations : Schema → Json → List Violation
  | .constant t, v => if v.isText t then [] else [.here (.notConstant t)]
  | .oneOf ts, v => if ts.any v.isText then [] else [.here (.notListed v ts)]
  | .text, v => textViolations (fun _ => none) v
  | .nonEmptyText, v => textViolations (fun s => if s.isEmpty then some .empty else none) v
  | .ruleId, v =>
    textViolations (fun s => if RuleId.isValid s then none else some (.notRuleId s)) v
  | .integer least, v =>
    match integer? v with
    | none => [.here (.kind v "integer")]
    | some n => if n < least then [.here (.below v least)] else []
  | .array items, v =>
    match v with
    | .arr xs => xs.zipIdx.flatMap fun x => (violations items x.1).map (·.under (.index x.2))
    | v => [.here (.kind v "array")]
  | .object required described others, v =>
    match v with
    | .obj es =>
      let names := described.map (·.1)
      let extra := unexpectedNames names others.isSome es
      -- in the order in which the keywords stand in the schema
      (if extra.isEmpty then [] else [.here (.unexpected extra)]) ++
        violationsOfOthers names others es ++
        ((required.filter fun name => !Entries.has name es).map fun name => .here (.missing name)) ++
        violationsOfDescribed described es
    | v => [.here (.kind v "object")]

/-- The violations in the entries that are not described. -/
def violationsOfOthers (described : List Text) : Option Schema → Entries Json → List Violation
  | none, _ => []
  | some schema, es =>
    (es.filter fun e => !described.contains e.1).flatMap fun e =>
      (violations schema e.2).map (·.under (.name e.1))

/-- The violations in the described entries. -/
def violationsOfDescribed : List (Text × Schema) → Entries Json → List Violation
  | [], _ => []
  | (name, schema) :: rest, es =>
    (match Entries.get? name es with
      | none => []
      | some v => (violations schema v).map (·.under (.name name))) ++
      violationsOfDescribed rest es

end

/-- The violation that is reported: the first of those that no other outranks. -/
def foremost : List Violation → Option Violation
  | [] => none
  | v :: rest =>
    match foremost rest with
    | none => some v
    -- an earlier violation stays ahead of a later one at the same place
    | some w => if w.outranks v then some w else some v

/-- Acceptance of a value by a schema, or the reported violation. -/
def validate (schema : Schema) (value : Json) : Except Violation Unit :=
  match foremost (violations schema value) with
  | none => .ok ()
  | some v => .error v

end FormSchema.Contract
