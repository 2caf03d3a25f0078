import FormSchema.Rule
import FormSchema.Text.CodePoint
import FormSchema.Text.Quoted

/-!
# The registry of rules

The identifiers of all rules, in three buckets by their stability, and the list of all of them.  The
check of a registry asks that every list is sorted, without repetition and well formed, that the
buckets are disjoint, and that the list of all identifiers is their union.
-/

namespace FormSchema

/-- A registry of rule identifiers. -/
structure RuleRegistry where
  stable : List Text
  experimental : List Text
  deprecated : List Text
  all : List Text

namespace RuleRegistry

/-- The registry of this library: every rule is stable. -/
def current : RuleRegistry :=
  let ids := Text.sort (Rule.all.map (·.id))
  ⟨ids, [], [], ids⟩

/-! ## Section 1: Violations -/

/-- The lists of a registry. -/
inductive Bucket
  | stable
  | experimental
  | deprecated
  | all
  deriving DecidableEq

def Bucket.name : Bucket → Text
  | .stable => "PUBLIC_RULE_IDS"
  | .experimental => "EXPERIMENTAL_RULE_IDS"
  | .deprecated => "DEPRECATED_RULE_IDS"
  | .all => "ALL_RULE_IDS"

/-- What is wrong with a registry. -/
inductive Violation
  | unsorted (bucket : Bucket)
  | repeated (bucket : Bucket)
  | malformed (bucket : Bucket) (ids : List Text)
  | overlapping (ids : List Text)
  | notUnion

/-- Texts in brackets, each quoted. -/
def quotedList (ts : List Text) : Text :=
  "[" ++ Text.join ", " (ts.map Quoted.quote) ++ "]"

def Violation.message : Violation → Text
  | .unsorted bucket => bucket.name ++ " must be sorted"
  | .repeated bucket => bucket.name ++ " must contain unique IDs"
  | .malformed bucket ids => bucket.name ++ " contains invalid rule IDs: " ++ quotedList ids
  | .overlapping ids => "Rule ID buckets must be disjoint; overlaps: " ++ quotedList ids
  | .notUnion => "ALL_RULE_IDS must equal union(PUBLIC, EXPERIMENTAL, DEPRECATED)"

/-! ## Section 2: The check -/

/-- What is wrong with one list: its order, then repetitions, then the form of its members. -/
def checkBucket (bucket : Bucket) (ids : List Text) : Except Violation Unit :=
  if ids ≠ Text.sort ids then .error (.unsorted bucket)
  else if ids.eraseDups.length ≠ ids.length then .error (.repeated bucket)
  else
    let bad := ids.filter fun t => !RuleId.isValid t
    if bad.isEmpty then .ok () else .error (.malformed bucket bad)

/-- The members that two lists share. -/
def shared (a b : List Text) : List Text := a.filter fun t => b.contains t

/-- The identifiers that stand in more than one bucket, in order. -/
def overlaps (r : RuleRegistry) : List Text :=
  Text.sort (shared r.stable r.experimental ++ shared r.stable r.deprecated ++
    shared r.experimental r.deprecated).eraseDups

/-- Whether the list of all identifiers has the members of the buckets, whatever the order. -/
def isUnion (r : RuleRegistry) : Bool :=
  let buckets := r.stable ++ r.experimental ++ r.deprecated
  r.all.all (fun t => buckets.contains t) && buckets.all (fun t => r.all.contains t)

/-- The first violation of a registry, if there is one. -/
def check (r : RuleRegistry) : Except Violation Unit := do
  checkBucket .stable r.stable
  checkBucket .experimental r.experimental
  checkBucket .deprecated r.deprecated
  checkBucket .all r.all
  if !r.overlaps.isEmpty then .error (.overlapping r.overlaps)
  else if !r.isUnion then .error .notUnion
  else .ok ()

end RuleRegistry

end FormSchema
