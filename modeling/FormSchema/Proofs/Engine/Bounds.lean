import FormSchema.Proofs.Anchor
import FormSchema.Proofs.Engine.Anchored
import FormSchema.Proofs.Engine.Verdict
import FormSchema.Proofs.Json.Size
import FormSchema.Proofs.Text.Lines

/-!
# How much is found in a text

Neither the number of findings about a text nor a line or column that they name exceeds a small
multiple of the length of the text: every field has been written with a code point of its own, every
check finds at most one thing about it, and what is found stands in the text.
-/

namespace FormSchema

/-- What neither the number of findings about a text nor their coordinates exceed. -/
def findingsLimit (text : Text) : Nat := 4 * (text.length + 1)

/-! ## Section 1: Fields -/

private theorem Json.size_obj_lt_of_mem {name : Text} {c es : Container}
    (h : (name, Json.obj c) ∈ es) :
    (Json.obj c).size < (Json.obj es).size := by
  have hle : (Json.obj c).size ≤ es.total Json.size :=
    List.single_le_sum (fun _ _ => Nat.zero_le _) _ (List.mem_map_of_mem h)
  rw [Json.size_obj es]
  exact Nat.lt_succ_of_le hle

/-- A container holds fewer fields than values, as each field is a value inside it. -/
theorem Container.length_preorder_lt (c : Container) :
    c.preorder.length < (Json.obj c).size := by
  -- by the recursion of the pre-order
  induction c using preorder.induct with
  | case1 =>
    rw [preorder]
    decide
  | case2 name rest props field inner h ihinner ihrest =>
    have hinner : (Json.obj inner).size < (Json.obj props).size :=
      Json.size_obj_lt_of_mem (Field.mem_of_nested? h)
    rw [preorder_cons_nested h, List.length_cons, List.length_append]
    rw [Json.size_obj] at ihrest ⊢
    simp only [Entries.total_cons]
    omega
  | case3 name rest props field h ihrest =>
    rw [preorder_cons_flat h, List.length_cons]
    rw [Json.size_obj] at ihrest ⊢
    rw [Entries.total_cons, Json.size_obj props]
    omega
  | case4 name value rest hne ihrest =>
    rw [preorder_cons_other hne]
    rw [Json.size_obj] at ihrest ⊢
    rw [Entries.total_cons]
    omega

private theorem Check.length_reports_le (check : Check) (root : Container) (text : Text) :
    (check.reports root text).length ≤ root.preorder.length := by
  rw [reports, List.length_map]
  exact List.length_filter_le _ _

/-! ## Section 2: Lines and columns -/

private theorem Text.length_le_of_mem_lines {line text : Text} (h : line ∈ text.lines) :
    line.length ≤ text.length := by
  obtain ⟨before, after, hlines⟩ := List.append_of_mem h
  have htext : text = before.flatMap (· ++ [.lineFeed]) ++ line ++
      after.flatMap ([.lineFeed] ++ ·) := by
    rw [← join_append_cons, ← hlines]
    exact (unlines_lines text).symm
  rw [htext, List.length_append, List.length_append]
  omega

private theorem Text.length_lines_le (text : Text) : text.lines.length ≤ text.length + 1 := by
  rw [length_lines]
  exact Nat.succ_le_succ List.count_le_length

namespace Anchor

/-- What is found on a line lies within its columns, and the line within the text. -/
private theorem coordinates_firstLine_le {name : Text} {value : Option Text} {lines : List Text}
    {i n : Nat}
    {r : Range} (hcount : i + lines.length ≤ n + 1) (hlines : ∀ line ∈ lines, line.length ≤ n)
    (h : firstLine? name value i lines = some r) : ∀ k ∈ r.coordinates, k.natAbs ≤ n := by
  induction lines generalizing i with
  | nil => cases h
  | cons line rest ih =>
    obtain ⟨hline, hrest⟩ := List.forall_mem_cons.mp hlines
    rw [List.length_cons] at hcount
    rw [firstLine?] at h
    split at h
    · next column width hfound =>
      cases h
      -- the token lies on the line
      obtain ⟨before, after, rfl, rfl, rfl⟩ := onLine?_eq_some hfound
      rw [List.length_append, List.length_append] at hline
      simp only [Range.coordinates, Range.ofCoordinates, List.forall_mem_cons, List.not_mem_nil,
        false_imp_iff, implies_true, and_true]
      omega
    · exact ih (by omega) hrest h

private theorem coordinates_rangeOf_le (text name : Text) (expected : Json) :
    ∀ k ∈ (rangeOf text name expected).coordinates, k.natAbs ≤ text.length := by
  rw [rangeOf, search]
  cases h : firstLine? name.inQuotes (expectedToken? expected) 0 text.lines with
  | none => simp [Range.zero, Range.coordinates, Range.ofCoordinates]
  | some r =>
    refine coordinates_firstLine_le ?_ (fun _ => Text.length_le_of_mem_lines) h
    exact (Nat.zero_add _).trans_le text.length_lines_le

end Anchor

/-- No coordinate of a finding of a check is greater than the length of the text. -/
private theorem Check.coordinates_diagnosis_le (check : Check) (text : Text) (f : Field) :
    ∀ k ∈ (check.diagnosis text f).range.coordinates, k.natAbs ≤ text.length := by
  rw [range_diagnosis]
  exact Anchor.coordinates_rangeOf_le _ _ _

/-! ## Section 3: Findings -/

/-- There are at most as many findings as the limit says. -/
theorem Verdict.length_le {text : Text} {found : List Diagnostic} (h : Verdict text found) :
    found.length ≤ findingsLimit text := by
  rw [findingsLimit]
  -- each check reports a field once at most, and every field takes up some of the text
  cases h with
  | notJson fault hp =>
    rw [List.length_singleton]
    omega
  | notObject value hp hne =>
    rw [List.length_singleton]
    omega
  | document root hp | keysSkipped root hp =>
    have hfields : root.preorder.length < text.length :=
      root.length_preorder_lt.trans_le (Json.size_le_of_parse hp)
    have hreports (check : Check) := check.length_reports_le root text
    have hkey := hreports .keyConsistency
    have hrequired := hreports .requiredProperties
    have htype := hreports .dataType
    have heditor := hreports .htmlEditor
    simp only [List.length_append]
    omega

/-- No coordinate of a finding is greater than the limit. -/
theorem Verdict.coordinates_le {text : Text} {found : List Diagnostic} (h : Verdict text found)
    {d : Diagnostic} (hd : d ∈ found) : ∀ k ∈ d.range.coordinates, k.natAbs ≤ findingsLimit text := by
  have hstart : ∀ k ∈ (Range.ofCoordinates 0 0 0 1).coordinates, k.natAbs ≤ findingsLimit text := by
    simp only [Range.coordinates, Range.ofCoordinates, findingsLimit, List.forall_mem_cons,
      List.not_mem_nil, false_imp_iff, implies_true, and_true]
    omega
  have hverdict := h
  -- a finding on the root is at the start, and any other one is within the text
  cases h with
  | notJson fault hp =>
    rw [List.mem_singleton.mp hd]
    exact hstart
  | notObject value hp hne =>
    rw [List.mem_singleton.mp hd]
    exact hstart
  | document root hp | keysSkipped root hp =>
    obtain ⟨check, -, f, -, -, rfl⟩ := (hverdict.mem_iff hp).mp hd
    intro k hk
    have hle := check.coordinates_diagnosis_le text f k hk
    rw [findingsLimit]
    omega

end FormSchema
