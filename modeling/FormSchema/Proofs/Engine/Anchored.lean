import FormSchema.Proofs.Anchor
import FormSchema.Proofs.Engine.Verdict
import FormSchema.Proofs.Json.Order
import FormSchema.Proofs.Json.Spelling

/-!
# Findings on canonical texts are anchored

On the canonical text of any value, every finding about a field is anchored on what it is about,
provided that this is written without escapes.  The name and the value of the entry stand on one
line of the text, so the search finds a line with both.
-/

namespace FormSchema

/-! ## Section 1: Fields as entries -/

/-- Whether a field is an entry somewhere inside a value, and so are the entries of the field. -/
structure Json.HoldsField (v : Json) (f : Field) : Prop where
  entry : v.HasEntry f.name (.obj f.props)
  props : ∀ e ∈ f.props, v.HasEntry e.1 e.2

section HoldsField

variable {name : Text} {v : Json} {f : Field} {props es : Entries Json}

/-- An entry of a value is an entry of what holds the value. -/
theorem Json.HasEntry.of_mem {k : Text} {u : Json} (h : v.HasEntry k u) (hmem : (name, v) ∈ es) :
    (obj es).HasEntry k u :=
  hasEntry_obj.mpr (.inr ⟨(name, v), hmem, h⟩)

/-- A field of a value is a field of what holds the value. -/
theorem Json.HoldsField.of_mem (h : v.HoldsField f) (hmem : (name, v) ∈ es) :
    (obj es).HoldsField f :=
  ⟨h.entry.of_mem hmem, fun e he => (h.props e he).of_mem hmem⟩

private theorem Json.holdsField_of_mem (hmem : (name, obj props) ∈ es) :
    (obj es).HoldsField ⟨name, props⟩ :=
  ⟨hasEntry_obj.mpr (.inl hmem), fun _ he => (hasEntry_obj.mpr (.inl he)).of_mem hmem⟩

/-- One entry more in front does not hide those behind it. -/
theorem Json.HasEntry.cons {k : Text} {u : Json} (h : (obj es).HasEntry k u) (e : Text × Json) :
    (obj (e :: es)).HasEntry k u := by
  rw [hasEntry_obj] at h ⊢
  rcases h with hmem | ⟨g, hg, hu⟩
  · exact .inl (List.mem_cons_of_mem e hmem)
  · exact .inr ⟨g, List.mem_cons_of_mem e hg, hu⟩

/-- One entry more in front does not hide the fields behind it. -/
theorem Json.HoldsField.cons (h : (obj es).HoldsField f) (e : Text × Json) :
    (obj (e :: es)).HoldsField f :=
  ⟨h.entry.cons e, fun g hg => (h.props g hg).cons e⟩

end HoldsField

/-- A document holds each of its fields. -/
theorem Container.holdsField_of_mem_preorder {root : Container} {f : Field}
    (h : f ∈ root.preorder) : (Json.obj root).HoldsField f := by
  fun_induction Container.preorder root with
  | case1 => cases h
  -- the field in front, those nested in it, and those behind it
  | case2 name rest props field inner hnested ihinner ihrest =>
    rcases List.mem_cons.mp h with rfl | h
    · exact Json.holdsField_of_mem List.mem_cons_self
    rcases List.mem_append.mp h with hinner | hbehind
    · have hprops := (ihinner hinner).of_mem (Field.mem_of_nested? hnested)
      exact hprops.of_mem List.mem_cons_self
    · exact (ihrest hbehind).cons _
  | case3 name rest props field hnested ihrest =>
    rcases List.mem_cons.mp h with rfl | h
    · exact Json.holdsField_of_mem List.mem_cons_self
    · exact (ihrest h).cons _
  | case4 name value rest hne ih => exact (ih h).cons _

/-! ## Section 2: What a finding is about -/

/-- The token of a property that stands in a field: its value if that is a string without escapes,
and its name if the value is null or the empty string. -/
inductive Field.PropertyToken (f : Field) (name : Text) : Text → Prop
  | value {s : Text} (hs : s ≠ []) (hplain : Json.Unescaped s)
      (h : f.props.get? name = some (.str s)) : PropertyToken f name s.inQuotes
  | name (h : f.props.get? name = some .null ∨ f.props.get? name = some (.str [])) :
      PropertyToken f name name.inQuotes

/-- The token that a check reports on where a field breaks its rule: the key, the name of the field,
the data type, or the mark of the HTML editor. -/
def Check.ReportsOn : Check → Field → Text → Prop
  | keyConsistency, f, token => f.PropertyToken "key" token
  | requiredProperties, f, token => Json.Unescaped f.name ∧ token = f.name.inQuotes
  | dataType, f, token => f.PropertyToken "data_type" token
  | htmlEditor, _, token => token = Text.inQuotes "html-editor"

section Canonical

variable {v : Json} {indent : Option Nat} {root : Container}
  (hp : Json.parse (v.canonical indent) = .ok (.obj root)) {f : Field} (hf : f ∈ root.preorder)
include hp hf

/-- A string property of a field is found on the first line that holds its name and itself, if both
are without escapes. -/
theorem rangeOf_string_covers {name s : Text} (hname : Json.Unescaped name) (hs : s ≠ [])
    (hplain : Json.Unescaped s) (h : f.props.get? name = some (.str s)) :
    ∃ i, (Anchor.rangeOf (v.canonical indent) name (f.prop name)).CoversOnFirst (v.canonical indent)
      s.inQuotes (fun line => name.inQuotes <:+: line ∧ s.inQuotes <:+: line) i := by
  obtain ⟨line, hmem, hline, hvalue⟩ :=
    ((Container.holdsField_of_mem_preorder hf).props _ (Entries.mem_of_get? h)).exists_line hp
  rw [Json.printString_of_unescaped hname] at hline
  have hs' := hvalue s rfl
  rw [Json.printString_of_unescaped hplain] at hs'
  rw [Field.prop_eq_of_get? h]
  exact Anchor.rangeOf_value_covers hs hmem hline hs'

/-- A property of a field stands on a line with its name, if both are without escapes. -/
theorem rangeOf_propertyToken_covers {name token : Text} (hname : Json.Unescaped name)
    (ht : f.PropertyToken name token) :
    (Anchor.rangeOf (v.canonical indent) name (f.prop name)).Covers (v.canonical indent) token := by
  -- the value is marked if it has a token, and else the name
  cases ht with
  | value hs hplain h =>
    obtain ⟨_, hcovers⟩ := rangeOf_string_covers hp hf hname hs hplain h
    exact hcovers.covers
  | name h =>
    have hholds := Container.holdsField_of_mem_preorder hf
    obtain ⟨u, hu, hexpected⟩ : ∃ u, f.props.get? name = some u ∧
        Anchor.expectedToken? u = none := by
      rcases h with h | h
      · exact ⟨_, h, rfl⟩
      · exact ⟨_, h, rfl⟩
    obtain ⟨line, hmem, hline, _⟩ := (hholds.props _ (Entries.mem_of_get? hu)).exists_line hp
    rw [Json.printString_of_unescaped hname] at hline
    rw [Field.prop_eq_of_get? hu]
    obtain ⟨_, hcovers⟩ := Anchor.rangeOf_name_covers hmem hline hexpected
    exact hcovers.covers

private theorem diagnosis_covers {check : Check} (hbreaks : check.Breaks f) {token : Text}
    (ht : check.ReportsOn f token) :
    (check.diagnosis (v.canonical indent) f).range.Covers (v.canonical indent) token := by
  -- three checks point at a property of the field, and the one for missing properties at its name
  cases check with
  | keyConsistency => exact rangeOf_propertyToken_covers hp hf (by decide) ht
  | dataType => exact rangeOf_propertyToken_covers hp hf (by decide) ht
  | requiredProperties =>
    obtain ⟨hplain, rfl⟩ := ht
    obtain ⟨line, hmem, hline, _⟩ :=
      (Container.holdsField_of_mem_preorder hf).entry.exists_line hp
    rw [Json.printString_of_unescaped hplain] at hline
    have hnull : Anchor.expectedToken? .null = none := rfl
    obtain ⟨_, hcovers⟩ := Anchor.rangeOf_name_covers hmem hline hnull
    exact hcovers.covers
  | htmlEditor =>
    have htoken : f.PropertyToken "display" (Text.inQuotes "html-editor") :=
      .value (by decide) (by decide) hbreaks.1
    have hcovers := rangeOf_propertyToken_covers hp hf (by decide) htoken
    rw [Field.prop_eq_of_get? hbreaks.1] at hcovers
    rw [show token = Text.inQuotes "html-editor" from ht]
    exact hcovers

end Canonical

/-! ## Section 3: Whole texts -/

/-- A value that has a canonical text is nested too little for any check to give up. -/
theorem Check.completes_of_dump {v : Json} {indent : Option Nat} {text : Text} {root : Container}
    (hdump : v.dump indent = .ok text) (hp : Json.parse (v.canonical indent) = .ok (.obj root))
    (check : Check) : check.Completes root := by
  refine completes_of_depth_lt (Json.readable_of_parse hp) ?_ check
  calc (Json.obj root).depth ≤ v.depth := Json.depth_of_parse_canonical hp
    _ ≤ Json.conversionDepth := (Json.dump_eq_ok_iff.mp hdump).1.1
    _ < Json.maxDepth := by decide

/-- Validation of a canonical text, after any session, answers with a finding about the whole text,
or else with the diagnoses of the fields that break a rule; and each of these covers the token that
it reports on, in the text that was validated.  Each field that breaks the rule of a check is among
them if the check gets through the document, as all checks do if the text is not only laid out but
can be written. -/
theorem Engine.canonical_anchored (config : Config) (collection : Collection)
    (steps : List Engine.Step) (snapshot : Snapshot) (v : Json) (indent : Option Nat) :
    ∃ found : List Diagnostic,
      ((Engine.session config Pass.defaults collection steps).validate
        { snapshot with text := v.canonical indent }).answer = .ok found ∧
      (∀ d ∈ found, d.ruleId = "WS_INVALID_JSON_001" ∨ d.ruleId = "WS_ROOT_OBJECT_001" ∨
        ∃ root, Json.parse (v.canonical indent) = .ok (.obj root) ∧
          ∃ check : Check, ∃ f ∈ Container.preorder root,
            check.Breaks f ∧ d = check.diagnosis (v.canonical indent) f) ∧
      ∀ root, Json.parse (v.canonical indent) = .ok (.obj root) →
        ∀ check : Check,
          ((∃ text, v.dump indent = .ok text) → check.Completes root) ∧
          ∀ f ∈ Container.preorder root, check.Breaks f →
            (check.Completes root → check.diagnosis (v.canonical indent) f ∈ found) ∧
            ∀ token, check.ReportsOn f token →
              (check.diagnosis (v.canonical indent) f).range.Covers (v.canonical indent) token := by
  have hverdict := verdict_diagnose_defaults (v.canonical indent)
  refine ⟨diagnose Pass.defaults (v.canonical indent), ?_, ?_, ?_⟩
  · rw [(Engine.validate_idle Engine.session_state _).2, Engine.session_passes]
  · intro d hd
    cases hp : Json.parse (v.canonical indent) with
    | error fault =>
      rw [diagnose, hp, List.mem_singleton] at hd
      exact .inl (hd ▸ rfl)
    | ok w =>
      cases w with
      | obj root =>
        obtain ⟨check, -, f, hf, hbreaks, heq⟩ := (hverdict.mem_iff hp).mp hd
        exact .inr (.inr ⟨root, rfl, check, f, hf, hbreaks, heq⟩)
      | _ =>
        rw [diagnose, hp, List.mem_singleton] at hd
        exact .inr (.inl (hd ▸ rfl))
  · intro root hp check
    constructor
    · rintro ⟨text, hdump⟩
      exact Check.completes_of_dump hdump hp check
    · intro f hf hbreaks
      refine ⟨fun hcompletes => ?_, fun token ht => diagnosis_covers hp hf hbreaks ht⟩
      exact (hverdict.mem_iff hp).mpr ⟨check, hcompletes, f, hf, hbreaks, rfl⟩

/-- A field with a misspelt data type. -/
def misspelt : Field :=
  ⟨"title", [("data_type", .str "txt"), ("key", .str "title"), ("label", .str "Title")]⟩

private theorem parse_misspelt :
    Json.parse ((Json.obj [(misspelt.name, .obj misspelt.props)]).canonical (some 2)) =
      .ok (.obj [(misspelt.name, .obj misspelt.props)]) :=
  (Json.parse_canonical_of_increasing (by decide) (by decide) (some 2)).mpr (by decide)

/-- The finding on it covers the misspelt value between its quotation marks. -/
theorem Engine.misspelt_anchored :
    ∃ found : List Diagnostic, ∃ d ∈ found,
      ((Engine.session Config.default Pass.defaults (.empty "shared") []).validate
        { Snapshot.ofText "a.json" [] with
          text := (Json.obj [(misspelt.name, .obj misspelt.props)]).canonical (some 2) }).answer =
            .ok found ∧
      d.ruleId = "WS_DATA_TYPE_001" ∧
      d.range.Covers ((Json.obj [(misspelt.name, .obj misspelt.props)]).canonical (some 2))
        (Text.inQuotes "txt") := by
  obtain ⟨found, hanswer, _, hcovers⟩ := Engine.canonical_anchored Config.default (.empty "shared")
    [] (Snapshot.ofText "a.json" []) (.obj [(misspelt.name, .obj misspelt.props)]) (some 2)
  have hfield : misspelt ∈ Container.preorder [(misspelt.name, .obj misspelt.props)] := by
    rw [Container.preorder_cons_flat rfl]
    exact List.mem_cons_self
  have hbreaks : Check.dataType.Breaks misspelt := ⟨.str "txt", rfl, by simp [Text.ofString]⟩
  have htoken : Check.dataType.ReportsOn misspelt (Text.inQuotes "txt") :=
    .value (by decide) (by decide) rfl
  obtain ⟨hcompletes, hfields⟩ := hcovers _ parse_misspelt .dataType
  obtain ⟨hmem, hrange⟩ := hfields misspelt hfield hbreaks
  have hwritten : Json.dump (some 2) (.obj [(misspelt.name, .obj misspelt.props)]) = .ok _ :=
    Json.dump_of_fits (by decide) (some 2)
  exact ⟨found, _, hmem (hcompletes ⟨_, hwritten⟩), hanswer, rfl, hrange _ htoken⟩

end FormSchema
