import FormSchema.Proofs.Check
import FormSchema.Proofs.Engine.Session
import FormSchema.Proofs.Json.Printing

/-!
# The verdict on a text

With the four checks, validation always answers.  There is one finding on a text that is not JSON,
one on a value that is no object, and for a document there are the reports of the four checks one
after the other.

Only a document that is nested as deeply as is read can be an exception: if the deepest part of it
is the key of a field, and not its name, then the check of keys gives up and the document is told
the reports of the other three.
-/

namespace FormSchema

/-! ## Section 1: Verdicts -/

/-- The diagnostics of a text, by how the text reads. -/
inductive Verdict (text : Text) : List Diagnostic → Prop
  | notJson (fault : Json.Fault) :
      Json.parse text = .error fault →
      Verdict text
        [.error (.ofCoordinates 0 0 0 1) ("Invalid JSON format: " ++ fault.message text)
          "WS_INVALID_JSON_001"]
  | notObject (value : Json) :
      Json.parse text = .ok value →
      (∀ root, value ≠ .obj root) →
      Verdict text
        [.error (.ofCoordinates 0 0 0 1)
          ("Invalid schema format: top-level value must be an object, found " ++ value.kindName)
          "WS_ROOT_OBJECT_001"]
  | document (root : Container) :
      Json.parse text = .ok (.obj root) →
      Check.keyConsistency.Completes root →
      Verdict text
        (Check.keyConsistency.reports root text ++ Check.requiredProperties.reports root text ++
          Check.dataType.reports root text ++ Check.htmlEditor.reports root text)
  | keysSkipped (root : Container) :
      Json.parse text = .ok (.obj root) →
      ¬ Check.keyConsistency.Completes root →
      Verdict text
        (Check.requiredProperties.reports root text ++ Check.dataType.reports root text ++
          Check.htmlEditor.reports root text)

/-- Whether a check reports on a document: it gets through, which all checks do but that of keys. -/
theorem Check.completes_of_parse {text : Text} {root : Container}
    (hp : Json.parse text = .ok (.obj root)) {check : Check} (hne : check ≠ keyConsistency) :
    check.Completes root :=
  completes_of_readable (Json.readable_of_parse hp) hne

/-- The check of keys gets through a document exactly if no key in it is in the deepest part that is
read. -/
theorem Check.completes_keyConsistency_iff {text : Text} {root : Container}
    (hp : Json.parse text = .ok (.obj root)) :
    keyConsistency.Completes root ↔
      ∀ f ∈ root.preorder, (f.prop "key").depth + 2 < Json.maxDepth := by
  constructor
  · intro hcompletes f hf
    by_contra hdeep
    -- a value that is nested at all is a key of its own and no name
    have hnested : 0 < (f.prop "key").depth := by
      have : 2 < Json.maxDepth := by decide
      omega
    obtain ⟨key, hkey⟩ : ∃ key, f.props.get? "key" = some key := by
      rw [← Option.ne_none_iff_exists']
      intro hnone
      rw [Field.prop, hnone] at hnested
      exact absurd hnested (Nat.lt_irrefl 0)
    have hprop : f.prop "key" = key := Field.prop_eq_of_get? hkey
    have hbreaks : keyConsistency.Breaks f := by
      refine ⟨key, hkey, ?_⟩
      rintro rfl
      rw [hprop] at hnested
      exact absurd hnested (Nat.lt_irrefl 0)
    have hfits : (f.prop "key").depth ≤ keyConsistency.room := (hcompletes f hf hbreaks).1
    have hroom : Json.maxDepth = keyConsistency.room + 3 := rfl
    omega
  · intro hshallow f hf _
    by_contra hkey
    have hdepth := (depth_of_not_anchorable (Json.readable_of_parse hp) hf hkey).2.1
    exact absurd hdepth (Nat.ne_of_lt (hshallow f hf))

/-- The verdict on a document holds one diagnosis for each field and check whose rule it breaks, if
the check gets through the document, and nothing else. -/
theorem Verdict.mem_iff {text : Text} {found : List Diagnostic} (h : Verdict text found)
    {root : Container} (hp : Json.parse text = .ok (.obj root)) {d : Diagnostic} :
    d ∈ found ↔
      ∃ check : Check, check.Completes root ∧
        ∃ f ∈ root.preorder, check.Breaks f ∧ d = check.diagnosis text f := by
  have hcompletes {check : Check} : check ≠ .keyConsistency → check.Completes root :=
    Check.completes_of_parse hp
  cases h with
  | notJson fault hfault =>
    rw [hp] at hfault
    cases hfault
  | notObject value hvalue hne =>
    rw [hp] at hvalue
    cases hvalue
    exact absurd rfl (hne root)
  | document other hother hkeys =>
    rw [hp] at hother
    cases hother
    simp only [List.mem_append, Check.mem_reports_iff]
    -- the findings are the reports of the four checks, one behind the other
    constructor
    · rintro (((h | h) | h) | h)
      · exact ⟨.keyConsistency, hkeys, h⟩
      · exact ⟨.requiredProperties, hcompletes nofun, h⟩
      · exact ⟨.dataType, hcompletes nofun, h⟩
      · exact ⟨.htmlEditor, hcompletes nofun, h⟩
    · rintro ⟨check, -, h⟩
      cases check with
      | keyConsistency => exact .inl (.inl (.inl h))
      | requiredProperties => exact .inl (.inl (.inr h))
      | dataType => exact .inl (.inr h)
      | htmlEditor => exact .inr h
  | keysSkipped other hother hkeys =>
    rw [hp] at hother
    cases hother
    simp only [List.mem_append, Check.mem_reports_iff]
    constructor
    · rintro ((h | h) | h)
      · exact ⟨.requiredProperties, hcompletes nofun, h⟩
      · exact ⟨.dataType, hcompletes nofun, h⟩
      · exact ⟨.htmlEditor, hcompletes nofun, h⟩
    · rintro ⟨check, hcheck, h⟩
      cases check with
      | keyConsistency => exact absurd hcheck hkeys
      | requiredProperties => exact .inl (.inl h)
      | dataType => exact .inl (.inr h)
      | htmlEditor => exact .inr h

/-- A field of a document that breaks a rule is diagnosed, unless the rule is about keys and the
document is nested as deeply as is read. -/
theorem Verdict.diagnosis_mem {text : Text} {found : List Diagnostic} (h : Verdict text found)
    {root : Container} (hp : Json.parse text = .ok (.obj root)) {check : Check} {f : Field}
    (hf : f ∈ root.preorder) (hbreaks : check.Breaks f)
    (hlimit : (Json.obj root).depth < Json.maxDepth ∨ check ≠ .keyConsistency) :
    check.diagnosis text f ∈ found := by
  refine (h.mem_iff hp).mpr ⟨check, ?_, f, hf, hbreaks, rfl⟩
  rcases hlimit with hdepth | hne
  · exact Check.completes_of_depth_lt (Json.readable_of_parse hp) hdepth check
  · exact Check.completes_of_parse hp hne

/-- A document without findings is one whose fields break no rule, at any depth, of a check that
gets through the document. -/
theorem Verdict.eq_nil_iff {text : Text} {found : List Diagnostic} (h : Verdict text found) :
    found = [] ↔
      ∃ root, Json.parse text = .ok (.obj root) ∧
        ∀ f ∈ Container.preorder root, ∀ check : Check, check.Completes root → ¬ check.Breaks f := by
  have hdocument {root : Container} (hp : Json.parse text = .ok (.obj root)) :
      found = [] ↔ ∀ f ∈ root.preorder, ∀ check : Check, check.Completes root →
        ¬ check.Breaks f := by
    rw [List.eq_nil_iff_forall_not_mem]
    constructor
    · intro hempty f hf check hcheck hbreaks
      exact hempty _ ((h.mem_iff hp).mpr ⟨check, hcheck, f, hf, hbreaks, rfl⟩)
    · intro hkeeps d hd
      obtain ⟨check, hcheck, f, hf, hbreaks, -⟩ := (h.mem_iff hp).mp hd
      exact hkeeps f hf check hcheck hbreaks
  constructor
  · intro hempty
    -- only a document can be without findings
    cases h with
    | notJson | notObject => cases hempty
    | document root hp | keysSkipped root hp =>
      exact ⟨root, hp, (hdocument hp).mp hempty⟩
  · rintro ⟨root, hp, hkeeps⟩
    exact (hdocument hp).mpr hkeeps

/-- A finding that names the rule of a check is the diagnosis of a field that breaks it. -/
theorem Verdict.exists_of_ruleId {text : Text} {found : List Diagnostic} (h : Verdict text found)
    {d : Diagnostic} (hd : d ∈ found) {check : Check} (hid : d.ruleId = check.rule.id) :
    ∃ root, Json.parse text = .ok (.obj root) ∧
      ∃ f ∈ Container.preorder root, check.Breaks f ∧ d = check.diagnosis text f := by
  have hverdict := h
  -- the two verdicts on the root have identifiers of their own
  cases h with
  | notJson fault hp =>
    rw [List.mem_singleton.mp hd] at hid
    exact absurd hid.symm check.rule_id_ne.1
  | notObject value hp hne =>
    rw [List.mem_singleton.mp hd] at hid
    exact absurd hid.symm check.rule_id_ne.2
  | document root hp | keysSkipped root hp =>
    obtain ⟨other, -, f, hf, hbreaks, rfl⟩ := (hverdict.mem_iff hp).mp hd
    rw [Check.ruleId_diagnosis] at hid
    obtain rfl := Check.eq_of_rule_id_eq hid
    exact ⟨root, hp, f, hf, hbreaks, rfl⟩

/-- Whatever is found is an error by one of the rules. -/
theorem Verdict.exists_eq_error {text : Text} {found : List Diagnostic} (h : Verdict text found)
    {d : Diagnostic} (hd : d ∈ found) :
    ∃ (range : Range) (message : Text) (rule : Rule), d = .error range message rule.id := by
  have hverdict := h
  -- every finding is an error with the identifier of a rule
  cases h with
  | notJson fault hp => exact ⟨_, _, .invalidJson, List.mem_singleton.mp hd⟩
  | notObject value hp hne => exact ⟨_, _, .rootObject, List.mem_singleton.mp hd⟩
  | document root hp | keysSkipped root hp =>
    obtain ⟨check, -, f, -, -, rfl⟩ := (hverdict.mem_iff hp).mp hd
    cases check with
    | keyConsistency => exact ⟨_, _, .keyMismatch, rfl⟩
    | requiredProperties => exact ⟨_, _, .missingProperties, rfl⟩
    | dataType => exact ⟨_, _, .dataType, rfl⟩
    | htmlEditor => exact ⟨_, _, .htmlEditor, rfl⟩

/-! ## Section 2: The four checks -/

/-- The pass of a check contributes its reports on a document that the check gets through, and gives
up on any other. -/
theorem Check.contribution?_pass (check : Check) (root : Container) (text : Text) :
    check.pass.contribution? root text =
      if check.Completes root then some (check.reports root text) else none := by
  rw [Pass.contribution?, pass, Action.contribution?]
  split_ifs with h
  · simp [findings_of_completes h, Except.toOption, Action.contribution?]
  · obtain ⟨fault, hfault⟩ := findings_of_not_completes h text
    simp [hfault, Except.toOption]

/-- A document that is nested less deeply than is read is told the reports of all checks. -/
theorem diagnose_of_depth_lt {text : Text} {root : Container}
    (hp : Json.parse text = .ok (.obj root)) (hdepth : (Json.obj root).depth < Json.maxDepth) :
    diagnose Pass.defaults text = Check.all.flatMap fun check => check.reports root text := by
  have hcompletes := Check.completes_of_depth_lt (Json.readable_of_parse hp) hdepth
  rw [diagnose_document hp, Pass.defaults, List.flatMap_map]
  refine List.flatMap_congr fun check _ => ?_
  rw [Check.contribution?_pass, if_pos (hcompletes check), Option.getD_some]

/-- With the four checks every text gets its verdict. -/
theorem verdict_diagnose_defaults (text : Text) : Verdict text (diagnose Pass.defaults text) := by
  cases hp : Json.parse text with
  | error fault =>
    simp only [diagnose, hp]
    exact .notJson fault hp
  | ok value =>
    cases value with
    | obj root =>
      have hcompletes (check : Check) (hne : check ≠ .keyConsistency) :
          check.pass.contribution? root text = some (check.reports root text) := by
        rw [Check.contribution?_pass, if_pos (Check.completes_of_parse hp hne)]
      rw [diagnose_document hp]
      simp only [Pass.defaults, Check.all, List.map_cons, List.map_nil, List.flatMap_cons,
        List.flatMap_nil, Option.getD_some, List.append_nil, Check.contribution?_pass .keyConsistency,
        hcompletes .requiredProperties (by decide), hcompletes .dataType (by decide),
        hcompletes .htmlEditor (by decide)]
      -- only the check of keys can give up, and then it has no part in the verdict
      by_cases hkeys : Check.keyConsistency.Completes root
      · rw [if_pos hkeys, Option.getD_some, ← List.append_assoc, ← List.append_assoc]
        exact .document root hp hkeys
      · rw [if_neg hkeys, Option.getD_none, List.nil_append, ← List.append_assoc]
        exact .keysSkipped root hp hkeys
    | _ =>
      simp only [diagnose, hp]
      exact .notObject _ hp (by simp)

/-- A text field with a given key, and nothing else. -/
def keyed (key : Json) : Container :=
  [("f", .obj [("data_type", .str "text"), ("key", key), ("label", .str "x")])]

private theorem depth_keyed_le_iff {key : Json} {n : Nat} :
    (Json.obj (keyed key)).depth ≤ n + 1 + 1 ↔ key.depth ≤ n := by
  rw [keyed, Json.depth_obj_le_iff, List.forall_mem_singleton, Json.depth_obj_le_iff]
  simp [Json.depth]

private theorem preorder_keyed (key : Json) :
    (keyed key).preorder =
      [⟨"f", [("data_type", .str "text"), ("key", key), ("label", .str "x")]⟩] := by
  rw [keyed, Container.preorder_cons_flat rfl, Container.preorder]

/-- What holds of the key, of both objects around it and of strings holds of the whole document. -/
private theorem every_keyed {p : Json → Prop} {key : Json} (hroot : p (.obj (keyed key)))
    (hfield : ∀ e ∈ keyed key, p e.2) (hstr : ∀ s, p (.str s)) (hkey : key.Every p) :
    (Json.obj (keyed key)).Every p := by
  have htext (s : Text) : (Json.str s).Every p := Json.every_of_parts_eq rfl (hstr s)
  simp only [keyed, Json.every_obj, List.forall_mem_cons] at hroot hfield ⊢
  exact ⟨hroot, ⟨hfield.1, htext _, hkey, htext _, nofun⟩, nofun⟩

end FormSchema
