import FormSchema.Contract.Diagnostics
import FormSchema.Proofs.Entries
import FormSchema.Proofs.Rule

/-!
# What a contract accepts

A value is accepted exactly if there is no violation in it at all.  So acceptance follows the
schema: an array is accepted with its items, and an object that has just the described entries is
accepted with each of them.
-/

namespace FormSchema.Contract

/-- Whether a value does not violate a schema anywhere. -/
def Accepts (schema : Schema) (value : Json) : Prop := violations schema value = []

private theorem foremost_eq_none_iff {vs : List Violation} : foremost vs = none ↔ vs = [] := by
  cases vs with
  | nil => exact iff_of_true rfl rfl
  | cons v rest =>
    refine iff_of_false (fun h => ?_) (List.cons_ne_nil v rest)
    rw [foremost] at h
    split at h
    · cases h
    · split at h <;> cases h

/-- Validation is the decision procedure of acceptance. -/
theorem validate_eq_ok_iff {schema : Schema} {value : Json} :
    validate schema value = .ok () ↔ Accepts schema value := by
  rw [Accepts, ← foremost_eq_none_iff, validate]
  cases foremost (violations schema value) with
  | none => exact iff_of_true rfl rfl
  | some v => exact iff_of_false nofun nofun

/-! ## Section 1: Strings and numbers -/

-- what a value violates is decided by the kind of the schema
attribute [local simp] violations

/-- A constant accepts the one string and no other. -/
theorem accepts_constant_iff {t s : Text} : Accepts (.constant t) (.str s) ↔ s = t := by
  simp [Accepts, Json.isText]

/-- A choice accepts the strings that it lists. -/
theorem accepts_oneOf_iff {ts : List Text} {s : Text} :
    Accepts (.oneOf ts) (.str s) ↔ s ∈ ts := by
  simp [Accepts, Json.isText]

/-- Text without further conditions accepts every string, the empty one as well. -/
theorem accepts_text (s : Text) : Accepts .text (.str s) := rfl

/-- Only the empty string is refused where text has to be there. -/
theorem accepts_nonEmptyText_iff {s : Text} : Accepts .nonEmptyText (.str s) ↔ s ≠ [] := by
  cases s <;> simp [Accepts, textViolations]

/-- The pattern for identifiers of rules accepts what reads like one. -/
theorem accepts_ruleId_iff {s : Text} : Accepts .ruleId (.str s) ↔ RuleId.Matches s := by
  rw [← RuleId.isValid_iff, Accepts, violations, textViolations]
  cases RuleId.isValid s <;> simp

/-- An integer is accepted from the least one on. -/
theorem accepts_integer_iff {least n : Int} : Accepts (.integer least) (.int n) ↔ least ≤ n := by
  rw [Accepts, violations, integer?, ← Int.not_lt]
  by_cases h : n < least <;> simp [h]

/-! ## Section 2: Arrays and objects -/

/-- An array is accepted with any number of items, if each of them is. -/
theorem accepts_array_iff {items : Schema} {xs : List Json} :
    Accepts (.array items) (.arr xs) ↔ ∀ x ∈ xs, Accepts items x := by
  simp only [Accepts, violations, List.flatMap_eq_nil_iff, List.map_eq_nil_iff]
  constructor
  · intro h x hx
    obtain ⟨i, hi, rfl⟩ := List.getElem_of_mem hx
    exact h (xs[i], i) (List.mem_zipIdx_iff_getElem?.mpr (List.getElem?_eq_getElem hi))
  · intro h x hx
    exact h x.1 (List.fst_mem_of_mem_zipIdx hx)

/-- An object that may have entries of any names is accepted with the values under them. -/
theorem accepts_others_iff {schema : Schema} {es : Entries Json} :
    Accepts (.object [] [] (some schema)) (.obj es) ↔ ∀ e ∈ es, Accepts schema e.2 := by
  simp [Accepts, unexpectedNames, violationsOfOthers, violationsOfDescribed]

/-- A described property that is missing is no violation here; whether it is required is another
part of the schema. -/
private theorem violationsOfDescribed_eq_nil_iff {described : List (Text × Schema)}
    {es : Entries Json} :
    violationsOfDescribed described es = [] ↔
      ∀ p ∈ described, ∀ v, Entries.get? p.1 es = some v → Accepts p.2 v := by
  induction described with
  | nil => exact iff_of_true rfl nofun
  | cons p described ih =>
    rw [violationsOfDescribed, List.append_eq_nil_iff, ih, List.forall_mem_cons]
    apply and_congr_left'
    cases Entries.get? p.1 es with
    | none => exact iff_of_true rfl nofun
    | some v => simp [Accepts]

/-- An object with just the described names is accepted with the value under each. -/
theorem accepts_closed_iff {described : List (Text × Schema)} {es : Entries Json}
    (hd : Entries.Distinct described) (hnames : es.names = Entries.names described) :
    Accepts (closed described) (.obj es) ↔
      List.Forall₂ (fun p e => Accepts p.2 e.2) described es := by
  -- with the names of the description no name is missing and none is too much
  have hextra : unexpectedNames (described.map (·.1)) false es = [] := by
    have hnone : (es.names.filter fun name => !(described.map (·.1)).contains name) = [] := by
      rw [List.filter_eq_nil_iff, hnames]
      intro name hmem
      have hdescribed : (described.map (·.1)).contains name = true := List.contains_iff_mem.mpr hmem
      rw [hdescribed]
      exact Bool.false_ne_true
    rw [unexpectedNames, if_neg Bool.false_ne_true, hnone, Text.sort, List.mergeSort_nil]
  have hmissing : (described.map (·.1)).filter (fun name => !Entries.has name es) = [] := by
    rw [List.filter_eq_nil_iff]
    intro name hmem
    rw [Entries.has_iff.mpr (hnames ▸ hmem)]
    exact Bool.false_ne_true
  rw [← Entries.forall_get?_iff_forall₂ hd hnames, ← violationsOfDescribed_eq_nil_iff, Accepts,
    closed, violations]
  simp [hextra, hmissing, violationsOfOthers]

end FormSchema.Contract
