import FormSchema.Proofs.Engine.Anchored
import FormSchema.Proofs.Json.Spelling

/-!
# Missing properties are anchored in every layout

In a text without a backslash every name stands word for word between quotation marks, on one line.
So the search for the name of a field never fails there, however the text is laid out: a finding on
missing properties lies on the first line with the quoted name of the field, and covers it.
-/

namespace FormSchema

/-- Without escapes the name of a field stands in the text as it is, and so it is found. -/
private theorem Check.missing_covers {text : Text} (hplain : .scalar '\\' ∉ text) {root : Container}
    (hp : Json.parse text = .ok (.obj root)) {f : Field} (hf : f ∈ root.preorder) :
    ∃ i, (requiredProperties.diagnosis text f).range.CoversOnFirst text f.name.inQuotes
      (f.name.inQuotes <:+: ·) i := by
  have hspelled := (Container.holdsField_of_mem_preorder hf).entry.spelledIn hp
  obtain ⟨line, hmem, hline⟩ := hspelled.exists_line hplain
  have hnull : Anchor.expectedToken? .null = none := rfl
  exact Anchor.rangeOf_name_covers hmem hline hnull

/-- Validation of a document without a backslash, after any session, reports missing properties for
exactly the fields that lack one.  The range of each report is not empty, lies on the first line
with the quoted name of the field, and covers exactly that name between its quotation marks. -/
theorem Engine.missing_anchored (config : Config) (collection : Collection)
    (steps : List Engine.Step) (snapshot : Snapshot) (root : Container)
    (hplain : .scalar '\\' ∉ snapshot.text)
    (hp : Json.parse snapshot.text = .ok (.obj root)) :
    ∃ found : List Diagnostic,
      ((Engine.session config Pass.defaults collection steps).validate snapshot).answer =
        .ok found ∧
      (∀ d ∈ found, d.ruleId = "WS_MISSING_PROPS_001" →
        ∃ f ∈ root.preorder, Check.requiredProperties.Breaks f ∧
          d = Check.requiredProperties.diagnosis snapshot.text f) ∧
      ∀ f ∈ root.preorder, Check.requiredProperties.Breaks f →
        ∃ d ∈ found, d = Check.requiredProperties.diagnosis snapshot.text f ∧
          d.range.isDegenerate = false ∧
          ∃ i, d.range.CoversOnFirst snapshot.text f.name.inQuotes (f.name.inQuotes <:+: ·) i := by
  have hverdict := verdict_diagnose_defaults snapshot.text
  refine ⟨_, validate_session _ _ _ _ _, fun d hd hid => ?_, fun f hf hbreaks => ?_⟩
  · have hrule : d.ruleId = Check.requiredProperties.rule.id := hid
    obtain ⟨other, hother, f, hf, hbreaks, hd⟩ := hverdict.exists_of_ruleId hd hrule
    rw [hp] at hother
    cases hother
    exact ⟨f, hf, hbreaks, hd⟩
  · -- the name is quoted in the text as it is, so that some line holds it
    have hmem := hverdict.diagnosis_mem hp hf hbreaks (.inr nofun)
    obtain ⟨i, hcovers⟩ := Check.missing_covers hplain hp hf
    exact ⟨_, hmem, rfl, hcovers.covers.not_degenerate, i, hcovers⟩

/-- A field with delimiters in its name and nothing but a nested container. -/
def crowded : Field := ⟨"a: b, ", [("schema", .obj [("", .obj [])])]⟩

/-- A document on three lines with this field, whose name is repeated, and two fields without a
name. -/
def crowdedText : Text :=
  "\x7b\"\":\x7b\x7d,\"a: b, \"\t:1,\n\"a: b, \"\n:\x7b\"schema\":\x7b\"\":\x7b\x7d\x7d\x7d\x7d"

private theorem parse_crowded :
    Json.parse crowdedText = .ok (.obj [("", .obj []), (crowded.name, .obj crowded.props)]) := by
  with_unfolding_all rfl

/-- The finding on the field covers its name where it stands first, beside the member that does not
count. -/
theorem Engine.crowded_anchored :
    .scalar '\\' ∉ crowdedText ∧
      Json.parse crowdedText = .ok (.obj [("", .obj []), (crowded.name, .obj crowded.props)]) ∧
      ∃ found : List Diagnostic, ∃ d ∈ found,
        (Engine.default.validate (.ofText "a.json" crowdedText)).answer = .ok found ∧
        d.ruleId = "WS_MISSING_PROPS_001" ∧
        ∃ i, d.range.CoversOnFirst crowdedText (Text.inQuotes "a: b, ")
          (Text.inQuotes "a: b, " <:+: ·) i := by
  have hplain : .scalar '\\' ∉ crowdedText := by decide +kernel
  obtain ⟨found, hanswer, -, hreported⟩ := Engine.missing_anchored Config.default
    (.empty Collection.defaultName) [] (.ofText "a.json" crowdedText) _ hplain parse_crowded
  -- the first entry is a field as well, so that this one comes second
  have hfield : crowded ∈
      Container.preorder [("", .obj []), (crowded.name, .obj crowded.props)] := by
    rw [Container.preorder_cons_flat rfl, Container.preorder_cons_nested rfl]
    exact List.mem_cons_of_mem _ List.mem_cons_self
  have hbreaks : Check.requiredProperties.Breaks crowded := by decide
  obtain ⟨d, hmem, rfl, -, hcovers⟩ := hreported crowded hfield hbreaks
  exact ⟨hplain, parse_crowded, found, _, hmem, hanswer, rfl, hcovers⟩

end FormSchema
