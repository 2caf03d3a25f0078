import FormSchema.Check
import FormSchema.Proofs.Anchor
import FormSchema.Proofs.Walk
import Mathlib.Data.List.Basic

/-!
# What the checks report

A rule is a condition on one field, said without the code of its check.  A check reports on exactly
the fields that break its rule, one finding for each occurrence of such a field, in pre-order.

It does so if the anchors of all its reports can be searched for.  Otherwise it fails and reports
nothing, on other fields no more than on the one whose anchor is at fault.  On a document that was
read this can happen to the check of keys only, and only at the very limit of the reader.
-/

namespace FormSchema

/-- The comparison with a text is equality, for values of every kind. -/
theorem Json.isText_iff {s : Text} {v : Json} : v.isText s = true ↔ v = .str s := by
  cases v <;> simp [Json.isText]

namespace Field

variable {f : Field} {name : Text}

/-- A property that is there is read as its value; one that is missing would be read as null. -/
theorem prop_eq_of_get? {v : Json} (h : f.props.get? name = some v) : f.prop name = v := by
  rw [prop, h, Option.getD_some]

/-- What stands under a name is a given string exactly if the field has it there; a name without an
entry counts as null. -/
theorem prop_isText_iff {s : Text} :
    (f.prop name).isText s = true ↔ f.props.get? name = some (.str s) := by
  rw [Json.isText_iff]
  unfold prop
  cases f.props.get? name <;> simp

/-- The container nested in a field stands under its `schema`. -/
theorem mem_of_nested? {inner : Container} (h : f.nested? = some inner) :
    (("schema" : Text), Json.obj inner) ∈ f.props := by
  obtain ⟨value, hvalue, hentries⟩ := Option.bind_eq_some_iff.mp h
  -- only an object is nested
  cases value with
  | obj es =>
    cases hentries
    exact Entries.mem_of_get? hvalue
  | _ => cases hentries

end Field

namespace Check

/-! ## Section 1: The rules -/

/-- Whether a field breaks the rule of a check: its key is there and is not its name; a required
property is absent; its data type is there and is none of the five; it is shown in the HTML editor
and is no area. -/
def Breaks : Check → Field → Prop
  | keyConsistency, f => ∃ key, f.props.get? "key" = some key ∧ key ≠ .str f.name
  | requiredProperties, f =>
    ∃ name ∈ (["data_type", "key", "label"] : List Text), f.props.get? name = none
  | dataType, f =>
    ∃ value, f.props.get? "data_type" = some value ∧
      ∀ name ∈ (["text", "image", "dropdown", "area", "nested"] : List Text), value ≠ .str name
  | htmlEditor, f =>
    f.props.get? "display" = some (.str "html-editor") ∧
      f.props.get? "data_type" ≠ some (.str "area")

/-- What is reported about a field that breaks the rule of a check. -/
def diagnosis (text : Text) (f : Field) : Check → Diagnostic
  | keyConsistency =>
    .error (Anchor.rangeOf text "key" (f.prop "key")) (keyMessage f.name (f.prop "key"))
      "WS_KEY_MISMATCH_001"
  | requiredProperties =>
    .error (Anchor.rangeOf text f.name .null)
      (missingMessage ((["data_type", "key", "label"] : List Text).filter fun name => !f.has name))
      "WS_MISSING_PROPS_001"
  | dataType =>
    .error (Anchor.rangeOf text "data_type" (f.prop "data_type")) dataTypeMessage
      "WS_DATA_TYPE_001"
  | htmlEditor =>
    .error (Anchor.rangeOf text "display" (.str "html-editor")) htmlEditorMessage
      "WS_HTML_EDITOR_001"

/-- The name that a check searches for in its report on a field. -/
def searched : Check → Field → Text
  | keyConsistency, _ => "key"
  | requiredProperties, f => f.name
  | dataType, _ => "data_type"
  | htmlEditor, _ => "display"

/-- The value that a check expects with this name; null stands for no expectation. -/
def expected : Check → Field → Json
  | keyConsistency, f => f.prop "key"
  | requiredProperties, _ => .null
  | dataType, f => f.prop "data_type"
  | htmlEditor, _ => .str "html-editor"

/-- The range of a diagnosis is the anchor of what the check searches for. -/
theorem range_diagnosis (check : Check) (text : Text) (f : Field) :
    (check.diagnosis text f).range =
      Anchor.rangeOf text (check.searched f) (check.expected f) := by
  cases check <;> rfl

/-- Whether the anchor of a check's report on a field can be searched for. -/
def Anchorable (check : Check) (f : Field) : Prop := (check.expected f).Fits check.room

/-- The rule that a check is about. -/
def rule : Check → Rule
  | keyConsistency => .keyMismatch
  | requiredProperties => .missingProperties
  | dataType => .dataType
  | htmlEditor => .htmlEditor

/-- A diagnosis names the rule of its check. -/
theorem ruleId_diagnosis (check : Check) (text : Text) (f : Field) :
    (check.diagnosis text f).ruleId = check.rule.id := by
  cases check <;> rfl

/-- A rule is about one check only. -/
theorem eq_of_rule_id_eq {a b : Check} (h : a.rule.id = b.rule.id) : a = b := by
  cases a <;> cases b <;> simp [rule, Rule.id, Text.ofString] at h ⊢

/-- The rules about whole texts are not those of the checks. -/
theorem rule_id_ne (check : Check) :
    check.rule.id ≠ Rule.invalidJson.id ∧ check.rule.id ≠ Rule.rootObject.id := by
  cases check <;> simp [rule, Rule.id, Text.ofString]

/-! ## Section 2: One field -/

private theorem isDataType_iff {v : Json} :
    Catalog.isDataType v = true ↔
      ∃ name ∈ (["text", "image", "dropdown", "area", "nested"] : List Text), v = .str name := by
  have hids : Catalog.dataTypeIds = (["text", "image", "dropdown", "area", "nested"] : List Text) :=
    rfl
  cases v with
  | str s => simp only [Catalog.isDataType, hids, List.contains_iff_mem, Json.str.injEq,
      exists_eq_right']
  | _ => simp [Catalog.isDataType]

/-- Whether a check says nothing about a field, and does not fail. -/
def Finding.isClear : Finding → Bool
  | .ok none => true
  | _ => false

/-- What is found on a field that breaks the rule of a check: its diagnosis, once its anchor has
been searched for. -/
def report (check : Check) (text : Text) (f : Field) : Finding :=
  (Anchor.locate check.room text (check.searched f) (check.expected f)).map fun range =>
    some { check.diagnosis text f with range := range }

/-- The check of keys finds something on a field exactly if the key is there and is not the name. -/
private theorem keyFinding_cases (text : Text) (f : Field) :
    ¬ Breaks keyConsistency f ∧ keyFinding text f = .ok none ∨
      Breaks keyConsistency f ∧ keyFinding text f = report keyConsistency text f := by
  unfold keyFinding
  -- no key, a key that is the name, and one that is not
  split
  · next h => exact .inl ⟨by simp [Breaks, h], rfl⟩
  · next key h =>
    have hkey : f.prop "key" = key := Field.prop_eq_of_get? h
    split
    · next hname =>
      have heq : key = .str f.name := Json.isText_iff.mp hname
      exact .inl ⟨by simp [Breaks, h, heq], rfl⟩
    · next hname =>
      have hne : key ≠ .str f.name := fun heq => hname (Json.isText_iff.mpr heq)
      refine .inr ⟨⟨key, h, hne⟩, ?_⟩
      rw [report, expected, diagnosis, hkey]
      rfl

/-- The check of properties finds something on a field exactly if a required one is missing. -/
private theorem missingFinding_cases (text : Text) (f : Field) :
    ¬ Breaks requiredProperties f ∧ missingFinding text f = .ok none ∨
      Breaks requiredProperties f ∧
        missingFinding text f = report requiredProperties text f := by
  -- nothing is missing exactly if the field keeps the rule
  have hempty : f.missing.isEmpty = true ↔ ¬ Breaks requiredProperties f := by
    rw [List.isEmpty_iff, Field.missing, List.filter_eq_nil_iff]
    simp only [Breaks, Field.has, Entries.has, not_exists, not_and, Bool.not_eq_true',
      Bool.not_eq_false, Option.isSome_iff_ne_none, ne_eq]
    rfl
  unfold missingFinding
  split
  · next h => exact .inl ⟨hempty.mp h, rfl⟩
  · next h => exact .inr ⟨not_not.mp fun hb => h (hempty.mpr hb), rfl⟩

/-- The check of data types finds something on a field exactly if its data type is not in the
catalog. -/
private theorem dataTypeFinding_cases (text : Text) (f : Field) :
    ¬ Breaks dataType f ∧ dataTypeFinding text f = .ok none ∨
      Breaks dataType f ∧ dataTypeFinding text f = report dataType text f := by
  unfold dataTypeFinding
  split
  · next h => exact .inl ⟨by simp [Breaks, h], rfl⟩
  · next value h =>
    have hvalue : f.prop "data_type" = value := Field.prop_eq_of_get? h
    -- with a data type at hand, the rule is about that one value
    have hbreaks : Breaks dataType f ↔ ¬ Catalog.isDataType value = true := by
      rw [isDataType_iff]
      simp only [Breaks, h, Option.some.injEq, exists_eq_left', not_exists, not_and, ne_eq]
    split
    · next htype => exact .inl ⟨fun hb => hbreaks.mp hb htype, rfl⟩
    · next htype =>
      refine .inr ⟨hbreaks.mpr htype, ?_⟩
      rw [report, expected, diagnosis, hvalue]
      rfl

/-- The check of the HTML editor finds something on a field exactly if it is shown there and is no
area. -/
private theorem htmlEditorFinding_cases (text : Text) (f : Field) :
    ¬ Breaks htmlEditor f ∧ htmlEditorFinding text f = .ok none ∨
      Breaks htmlEditor f ∧ htmlEditorFinding text f = report htmlEditor text f := by
  -- the test of the check is the rule itself
  have hbreaks : ((f.prop "display").isText Catalog.htmlEditorMarker &&
      !(f.prop "data_type").isText "area") = true ↔ Breaks htmlEditor f := by
    rw [Bool.and_eq_true, Bool.not_eq_true', ← Bool.not_eq_true, Field.prop_isText_iff,
      Field.prop_isText_iff]
    rfl
  unfold htmlEditorFinding
  split
  · next h => exact .inr ⟨hbreaks.mp h, rfl⟩
  · next h => exact .inl ⟨mt hbreaks.mpr h, rfl⟩

/-- A check says nothing about a field that keeps its rule, and goes on to a report on any other. -/
theorem finding_cases (check : Check) (text : Text) (f : Field) :
    ¬ check.Breaks f ∧ check.finding text f = .ok none ∨
      check.Breaks f ∧ check.finding text f = check.report text f := by
  cases check with
  | keyConsistency => exact keyFinding_cases text f
  | requiredProperties => exact missingFinding_cases text f
  | dataType => exact dataTypeFinding_cases text f
  | htmlEditor => exact htmlEditorFinding_cases text f

private theorem report_of_anchorable {check : Check} {f : Field} (h : check.Anchorable f)
    (text : Text) :
    check.report text f = .ok (some (check.diagnosis text f)) := by
  rw [report, Anchor.locate_of_fits h, Except.map, ← range_diagnosis]

private theorem report_of_not_anchorable {check : Check} {f : Field} (h : ¬ check.Anchorable f)
    (text : Text) : ∃ fault, check.report text f = .error fault := by
  rw [report]
  cases hrange : Anchor.locate check.room text (check.searched f) (check.expected f) with
  | ok range => exact absurd (Anchor.locate_eq_ok_iff.mp hrange).1 h
  | error fault => exact ⟨fault, rfl⟩

/-! ## Section 3: Whole documents -/

instance (check : Check) (f : Field) : Decidable (check.Breaks f) :=
  decidable_of_iff (¬ (check.finding [] f).isClear = true) (by
    rcases check.finding_cases [] f with ⟨hkeeps, hclear⟩ | ⟨hbreaks, hreport⟩
    · rw [hclear]
      exact iff_of_false (not_not.mpr rfl) hkeeps
    · refine iff_of_true ?_ hbreaks
      rw [hreport, report]
      cases Anchor.locate check.room [] (check.searched f) (check.expected f) <;> nofun)

instance (check : Check) (f : Field) : Decidable (check.Anchorable f) :=
  inferInstanceAs (Decidable ((check.expected f).Fits check.room))

/-- One report for each field of a document that breaks the rule of a check, in pre-order. -/
def reports (check : Check) (root : Container) (text : Text) : List Diagnostic :=
  (root.preorder.filter fun f => check.Breaks f).map fun f => check.diagnosis text f

/-- Whether a check gets through a document: the anchors of all its reports can be searched for. -/
def Completes (check : Check) (root : Container) : Prop :=
  ∀ f ∈ root.preorder, check.Breaks f → check.Anchorable f

instance (check : Check) (root : Container) : Decidable (check.Completes root) :=
  inferInstanceAs (Decidable (∀ f ∈ root.preorder, check.Breaks f → check.Anchorable f))

/-- The reports of a check are the diagnoses of the fields that break its rule, and nothing else. -/
theorem mem_reports_iff {check : Check} {root : Container} {text : Text} {d : Diagnostic} :
    d ∈ check.reports root text ↔
      ∃ f ∈ root.preorder, check.Breaks f ∧ d = check.diagnosis text f := by
  simp only [reports, List.mem_map, List.mem_filter, decide_eq_true_eq, and_assoc]
  exact exists_congr fun f => and_congr_right fun _ => and_congr_right fun _ => eq_comm

/-- A check reports nothing exactly if no field breaks its rule. -/
theorem reports_eq_nil_iff {check : Check} {root : Container} {text : Text} :
    check.reports root text = [] ↔ ∀ f ∈ root.preorder, ¬ check.Breaks f := by
  rw [reports, List.map_eq_nil_iff, List.filter_eq_nil_iff]
  simp only [decide_eq_true_eq]

/-- A check that gets through some fields gives the diagnoses of those that break its rule. -/
theorem findingsOn_of_anchorable {check : Check} {text : Text} {fields : List Field}
    (h : ∀ f ∈ fields, check.Breaks f → check.Anchorable f) :
    check.findingsOn text fields =
      .ok ((fields.filter fun f => check.Breaks f).map fun f => check.diagnosis text f) := by
  -- field by field; a finding is put in front of those on the fields behind
  induction fields with
  | nil => rfl
  | cons f rest ih =>
    obtain ⟨hf, hrest⟩ := List.forall_mem_cons.mp h
    rw [findingsOn]
    rcases check.finding_cases text f with ⟨hkeeps, hclear⟩ | ⟨hbreaks, hreport⟩
    · simp [hclear, ih hrest, hkeeps, Except.map]
    · simp [hreport, report_of_anchorable (hf hbreaks), ih hrest, hbreaks, Except.map]

/-- One field whose anchor cannot be searched for is enough to make a check fail. -/
theorem findingsOn_of_not_anchorable {check : Check} {text : Text} {fields : List Field}
    {f : Field} (hf : f ∈ fields) (hbreaks : check.Breaks f) (h : ¬ check.Anchorable f) :
    ∃ fault, check.findingsOn text fields = .error fault := by
  induction fields with
  | nil => cases hf
  | cons g rest ih =>
    rw [findingsOn]
    rcases List.mem_cons.mp hf with rfl | hrest
    · -- what is found on the fields behind is not looked at
      obtain ⟨fault, hfault⟩ := report_of_not_anchorable h text
      have hreport := (check.finding_cases text f).resolve_left fun hkeeps => hkeeps.1 hbreaks
      exact ⟨fault, by rw [hreport.2, hfault]⟩
    · cases check.finding text g with
      | error fault => exact ⟨fault, rfl⟩
      | ok found =>
        obtain ⟨fault, hfault⟩ := ih hrest
        exact ⟨fault, by simp only [hfault, Except.map]⟩

/-- A check that gets through a document finds what breaks its rule, and nothing else. -/
theorem findings_of_completes {check : Check} {root : Container} (h : check.Completes root)
    (text : Text) : check.findings root text = .ok (check.reports root text) := by
  rw [findings, Container.walk_eq_preorder]
  exact findingsOn_of_anchorable h

/-- A check that does not get through a document fails there, whatever else it would report. -/
theorem findings_of_not_completes {check : Check} {root : Container} (h : ¬ check.Completes root)
    (text : Text) : ∃ fault, check.findings root text = .error fault := by
  obtain ⟨f, hf, hbreaks, hanchor⟩ : ∃ f ∈ root.preorder, check.Breaks f ∧ ¬ check.Anchorable f := by
    simpa [Completes] using h
  rw [findings, Container.walk_eq_preorder]
  exact findingsOn_of_not_anchorable hf hbreaks hanchor

end Check

/-! ## Section 4: Documents that were read -/

/-- What stands in a field lies two levels below the document at least, and four if the field is
nested in another. -/
theorem Container.fits_of_mem_preorder {root : Container} {f : Field} (hf : f ∈ root.preorder)
    {room : Nat} : (Json.obj root).Fits (room + 1) →
      (Json.obj f.props).Fits room ∧
        ((f.name, Json.obj f.props) ∈ root ∨ (Json.obj f.props).Fits (room - 2)) := by
  revert room
  -- a field is the entry at the front, below it, or behind it
  fun_induction Container.preorder root with
  | case1 => cases hf
  | case2 name rest props field inner hnested ihinner ihrest =>
    intro room h
    obtain ⟨hfield, hrest⟩ := List.forall_mem_cons.mp (Json.fits_obj.mp h)
    rcases List.mem_cons.mp hf with rfl | hf
    · exact ⟨hfield, .inl List.mem_cons_self⟩
    rcases List.mem_append.mp hf with hinside | hbehind
    · -- the field takes one level, and the container nested in it another
      obtain ⟨m, rfl⟩ := Json.Fits.pos_of_obj hfield
      have hschema := Json.fits_obj.mp hfield _ (Field.mem_of_nested? hnested)
      obtain ⟨n, rfl⟩ := Json.Fits.pos_of_obj hschema
      have hprops := (ihinner hinside hschema).1
      exact ⟨hprops.mono (by omega), .inr hprops⟩
    · have hprops := ihrest hbehind (Json.fits_obj.mpr hrest)
      exact ⟨hprops.1, hprops.2.imp_left (List.mem_cons_of_mem _)⟩
  | case3 name rest props field hnested ihrest =>
    intro room h
    obtain ⟨hfield, hrest⟩ := List.forall_mem_cons.mp (Json.fits_obj.mp h)
    rcases List.mem_cons.mp hf with rfl | hbehind
    · exact ⟨hfield, .inl List.mem_cons_self⟩
    · have hprops := ihrest hbehind (Json.fits_obj.mpr hrest)
      exact ⟨hprops.1, hprops.2.imp_left (List.mem_cons_of_mem _)⟩
  | case4 name value rest hne ih =>
    intro room h
    obtain ⟨-, hrest⟩ := List.forall_mem_cons.mp (Json.fits_obj.mp h)
    have hprops := ih hf (Json.fits_obj.mpr hrest)
    exact ⟨hprops.1, hprops.2.imp_left (List.mem_cons_of_mem _)⟩

/-- A property of a field is one level below the field, and null if it is not there. -/
theorem Field.fits_prop {f : Field} {room : Nat} (h : (Json.obj f.props).Fits (room + 1))
    (name : Text) : (f.prop name).Fits room := by
  rw [prop]
  cases hget : f.props.get? name with
  | none => exact ⟨Nat.zero_le _, Json.every_of_parts_eq rfl trivial⟩
  | some v => exact Json.fits_obj.mp h _ (Entries.mem_of_get? hget)

namespace Check

variable {root : Container} {f : Field}

/-- All checks but that of keys get through every document that was read. -/
theorem anchorable_of_readable (h : (Json.obj root).Readable) (hf : f ∈ root.preorder)
    {check : Check} (hne : check ≠ keyConsistency) : check.Anchorable f := by
  have hprops : (Json.obj f.props).Fits (dataType.room + 1) :=
    (Container.fits_of_mem_preorder hf h).1
  -- what is searched for is nothing, the type, or a fixed word
  cases check with
  | keyConsistency => exact absurd rfl hne
  | requiredProperties => exact ⟨Nat.zero_le _, Json.every_of_parts_eq rfl trivial⟩
  | dataType => exact Field.fits_prop hprops "data_type"
  | htmlEditor => exact Json.fits_str _ _

/-- The check of keys fails on a document that was read only where the document is nested as deeply
as is read, and a field that is not nested in another has the deepest part for its key. -/
theorem depth_of_not_anchorable (h : (Json.obj root).Readable) (hf : f ∈ root.preorder)
    (hkey : ¬ keyConsistency.Anchorable f) :
    (f.name, Json.obj f.props) ∈ root ∧ (f.prop "key").depth + 2 = Json.maxDepth ∧
      (Json.obj root).depth = Json.maxDepth := by
  obtain ⟨hprops, hplace⟩ := @Container.fits_of_mem_preorder root f hf (keyConsistency.room + 2) h
  have hfits := Field.fits_prop hprops "key"
  have hroom : Json.maxDepth = keyConsistency.room + 3 := rfl
  have hdepth : (f.prop "key").depth = keyConsistency.room + 1 := by
    refine Nat.le_antisymm hfits.1 (Nat.lt_of_not_le fun hle => hkey ⟨hle, hfits.2⟩)
  refine ⟨hplace.resolve_right fun hdeep => hkey ?_, by omega, Nat.le_antisymm h.1 ?_⟩
  · -- a field in another field is two levels further down
    obtain ⟨n, hn⟩ := Json.Fits.pos_of_obj hdeep
    exact (Field.fits_prop (hn ▸ hdeep) "key").mono (by omega)
  · -- were the document less deep, then so would be the key
    by_contra hlt
    have hless : (Json.obj root).Fits (keyConsistency.room + 1 + 1) := ⟨by omega, h.2⟩
    have := (Field.fits_prop (Container.fits_of_mem_preorder hf hless).1 "key").1
    omega

/-- What the other checks search for is nested less deeply than the document, by as much as the
search needs. -/
theorem completes_of_readable (h : (Json.obj root).Readable) {check : Check}
    (hne : check ≠ keyConsistency) : check.Completes root :=
  fun _ hf _ => anchorable_of_readable h hf hne

/-- A document that is nested less deeply than is read is reported on by all checks. -/
theorem completes_of_depth_lt (h : (Json.obj root).Readable)
    (hdepth : (Json.obj root).depth < Json.maxDepth) (check : Check) : check.Completes root := by
  intro f hf _
  -- only keys can reach down to the last level that is read
  by_cases hne : check = keyConsistency
  · subst hne
    by_contra hkey
    exact absurd (depth_of_not_anchorable h hf hkey).2.2 (Nat.ne_of_lt hdepth)
  · exact anchorable_of_readable h hf hne

end Check

end FormSchema
