import FormSchema.Proofs.Engine.Anchored
import FormSchema.Proofs.Json.Rows

/-!
# On which line a key is anchored

A finding on a key that is a word is anchored on the first line of a laid out text that shows the
name `key` and the word between quotation marks.  That is the line of an entry with this name and
this word, unless a line further up shows both without being one: a data type or another string may
be called `key`, and a name may be the word.
-/

namespace FormSchema

open Json (Row)

section Canonical

variable {v : Json} {n : Nat} {root : Container}
  (hp : Json.parse (v.canonical (some n)) = .ok (.obj root)) {f : Field} (hf : f ∈ root.preorder)
include hp hf

/-- A string in a field that is read of a laid out text has a row there. -/
theorem property_mem_rows {name s : Text} (h : f.props.get? name = some (.str s)) :
    Row.property name s ∈ v.rows := by
  have hentry := (Container.holdsField_of_mem_preorder hf).props _ (Entries.mem_of_get? h)
  obtain ⟨x, hx, hs⟩ := hentry.of_parse_canonical hp
  rw [Json.eq_str_of_reread hs.symm] at hx
  exact List.mem_append_left _ (hx.property_mem none)

/-- The row of the line on which a string of a field is found. -/
theorem rangeOf_string_row {name s : Text} (hname : Json.Unescaped name) (hs : s ≠ [])
    (hplain : Json.Unescaped s) (h : f.props.get? name = some (.str s)) :
    ∃ above row below, v.rows = above ++ row :: below ∧
      (Anchor.rangeOf (v.canonical (some n)) name (f.prop name)).CoversOnFirst
        (v.canonical (some n)) s.inQuotes
        (fun line => name.inQuotes <:+: line ∧ s.inQuotes <:+: line) above.length ∧
      (row = .property name s ↔
        ∃ before after, v.rows = before ++ Row.property name s :: after ∧
          ∀ r ∈ before, ¬ r.Misleads name s) := by
  obtain ⟨i, hcovers⟩ := rangeOf_string_covers hp hf hname hs hplain h
  have hwords (row : Row) (line : Text) (hprints : row.Prints line) :
      name.inQuotes <:+: line ∧ s.inQuotes <:+: line ↔ name ∈ row.words ∧ s ∈ row.words :=
    and_congr (hprints.inQuotes_infix_iff hname) (hprints.inQuotes_infix_iff hplain)
  obtain ⟨hne, before, after, hline, hr, hholds, hfirst⟩ := hcovers
  obtain ⟨above, row, below, hrows, rfl, hrow, habove⟩ :=
    Json.exists_row_of_first hwords (Json.prints_rows_canonical v n) hline hholds hfirst
  refine ⟨above, row, below, hrows, ⟨hne, before, after, hline, hr, hholds, hfirst⟩, ?_⟩
  rw [hrows]
  exact Row.eq_property_iff hname hplain hrow habove

end Canonical

/-- Validation of a laid out canonical text, after any session, anchors a finding on a key that is a
word on the first line that shows the name `key` and the word between quotation marks, and covers
the word there.  This is the line of an entry with this name and this word exactly if none of the
misleading rows of the value stands above some such entry; and there is such an entry. -/
theorem Engine.key_anchored (config : Config) (collection : Collection)
    (steps : List Engine.Step) (snapshot : Snapshot) (v : Json) (n : Nat) :
    List.Forall₂ Row.Prints v.rows (Text.lines (v.canonical (some n))) ∧
    ∃ found : List Diagnostic,
      ((Engine.session config Pass.defaults collection steps).validate
        { snapshot with text := v.canonical (some n) }).answer = .ok found ∧
      ∀ d ∈ found, d.ruleId = "WS_KEY_MISMATCH_001" →
        ∃ root, Json.parse (v.canonical (some n)) = .ok (.obj root) ∧
          ∃ f ∈ Container.preorder root, Check.keyConsistency.Breaks f ∧
            d = Check.keyConsistency.diagnosis (v.canonical (some n)) f ∧
            ∀ s, f.prop "key" = .str s → s ≠ [] → Json.Unescaped s →
              Row.property "key" s ∈ v.rows ∧
              ∃ above row below, v.rows = above ++ row :: below ∧
                d.range.CoversOnFirst (v.canonical (some n)) s.inQuotes
                  (fun line => Text.inQuotes "key" <:+: line ∧ s.inQuotes <:+: line)
                  above.length ∧
                (row = .property "key" s ↔
                  ∃ before after, v.rows = before ++ Row.property "key" s :: after ∧
                    ∀ r ∈ before, ¬ r.Misleads "key" s) := by
  refine ⟨Json.prints_rows_canonical v n, _, validate_session _ _ _ _ _, fun d hd hid => ?_⟩
  have hrule : d.ruleId = Check.keyConsistency.rule.id := hid
  obtain ⟨root, hp, f, hf, hbreaks, rfl⟩ :=
    (verdict_diagnose_defaults (v.canonical (some n))).exists_of_ruleId hd hrule
  refine ⟨root, hp, f, hf, hbreaks, rfl, fun s hkey hs hplain => ?_⟩
  -- from the field to its row in the layout, and to the first line that shows both
  have hget : f.props.get? "key" = some (.str s) :=
    Field.prop_isText_iff.mp (Json.isText_iff.mpr hkey)
  exact ⟨property_mem_rows hp hf hget, rangeOf_string_row hp hf (by decide) hs hplain hget⟩

/-- A document with one field. -/
def Field.document (f : Field) : Json := .obj [(f.name, .obj f.props)]

/-- A field whose key is not its name. -/
def rekeyed : Field :=
  ⟨"title", [("data_type", .str "text"), ("key", .str "alpha"), ("label", .str "Title")]⟩

/-- The same field with a property that is called like the key, and has the string `key`. -/
def aliased : Field := { rekeyed with props := ("alpha", .str "key") :: rekeyed.props }

/-- A document of one flat field has this field and no other. -/
theorem preorder_document {f : Field} (hflat : f.nested? = none) :
    Container.preorder [(f.name, .obj f.props)] = [f] := by
  rw [Container.preorder_cons_flat hflat, Container.preorder]

private theorem mem_diagnose_document {f : Field} (hflat : f.nested? = none) {n : Nat}
    (hp : Json.parse (f.document.canonical (some n)) = .ok f.document)
    (hdepth : f.document.depth < Json.maxDepth) {check : Check} (hbreaks : check.Breaks f) :
    check.diagnosis (f.document.canonical (some n)) f ∈
      diagnose Pass.defaults (f.document.canonical (some n)) := by
  refine (verdict_diagnose_defaults _).diagnosis_mem hp ?_ hbreaks (.inl hdepth)
  rw [preorder_document hflat]
  exact List.mem_cons_self

private theorem parse_rekeyed :
    Json.parse (rekeyed.document.canonical (some 2)) = .ok rekeyed.document :=
  (Json.parse_canonical_of_increasing (by decide) (by decide) (some 2)).mpr (by decide)

/-- The rows of the laid out document, up to the one of the key and behind it. -/
private theorem rows_rekeyed :
    rekeyed.document.rows =
      [Row.blank, ⟨some "title", none⟩, .property "data_type" "text"] ++
        Row.property "key" "alpha" ::
          [.property "label" "Title", Row.blank, Row.blank, Row.blank] := by
  rw [Json.rows, Json.sortNames_of_increasing (by decide)]
  rfl

private theorem parse_aliased :
    Json.parse (aliased.document.canonical (some 2)) = .ok aliased.document :=
  (Json.parse_canonical_of_increasing (by decide) (by decide) (some 2)).mpr (by decide)

/-- The key of the one field is anchored on its own line. -/
theorem Engine.rekeyed_anchored :
    ∃ found : List Diagnostic, ∃ d ∈ found,
      ((Engine.session Config.default Pass.defaults (.empty "shared") []).validate
        { Snapshot.ofText "a.json" [] with text := rekeyed.document.canonical (some 2) }).answer =
          .ok found ∧
      d.ruleId = "WS_KEY_MISMATCH_001" ∧
      ∃ above below, rekeyed.document.rows = above ++ Row.property "key" "alpha" :: below ∧
        d.range.CoversOnFirst (rekeyed.document.canonical (some 2)) (Text.inQuotes "alpha")
          (fun line => Text.inQuotes "key" <:+: line ∧ Text.inQuotes "alpha" <:+: line)
          above.length := by
  obtain ⟨-, found, hanswer, hfound⟩ := Engine.key_anchored Config.default (.empty "shared") []
    (Snapshot.ofText "a.json" []) rekeyed.document 2
  have hbreaks : Check.keyConsistency.Breaks rekeyed :=
    ⟨.str "alpha", rfl, by simp [Text.ofString, rekeyed]⟩
  have hmem := mem_diagnose_document rfl parse_rekeyed (by decide) hbreaks
  have hanswer' := validate_session Config.default Pass.defaults (.empty "shared") []
    { Snapshot.ofText "a.json" [] with text := rekeyed.document.canonical (some 2) }
  rw [← Except.ok.inj (hanswer.symm.trans hanswer')] at hmem
  obtain ⟨root, hp, f, hf, -, -, hkey⟩ := hfound _ hmem rfl
  -- there is no other field
  rw [parse_rekeyed] at hp
  cases hp
  rw [preorder_document rfl, List.mem_singleton] at hf
  subst hf
  obtain ⟨-, above, row, below, hrows, hcovers, hrow⟩ := hkey "alpha" rfl (by decide) (by decide)
  have hclear : row = Row.property "key" "alpha" :=
    hrow.mpr ⟨_, _, rows_rekeyed, by decide⟩
  exact ⟨found, _, hmem, hanswer, rfl, above, below, hclear ▸ hrows, hcovers⟩

/-- The key of the other is anchored on the line of the property that is called like it, which
comes before its own. -/
theorem Engine.aliased_misanchored :
    ∃ found : List Diagnostic, ∃ d ∈ found,
      (Engine.default.validate (.ofText "a.json" (aliased.document.canonical (some 2)))).answer =
        .ok found ∧
      d.ruleId = "WS_KEY_MISMATCH_001" ∧ d.range = .ofCoordinates 2 4 2 11 ∧
      (Text.lines (aliased.document.canonical (some 2)))[2]? =
        some (Text.ofString "    \"alpha\": \"key\",") ∧
      (Text.lines (aliased.document.canonical (some 2)))[4]? =
        some (Text.ofString "    \"key\": \"alpha\",") ∧
      ¬ Text.ofString "\"key\": \"alpha\"" <:+: Text.ofString "    \"alpha\": \"key\"," := by
  have hbreaks : Check.keyConsistency.Breaks aliased :=
    ⟨.str "alpha", rfl, by simp [Text.ofString, aliased, rekeyed]⟩
  -- the names are in order already, so that the layout can be computed
  have hsorted : aliased.document.sortNames = aliased.document :=
    Json.sortNames_of_increasing (by decide)
  refine ⟨_, _, mem_diagnose_document rfl parse_aliased (by decide) hbreaks,
    validate_session Config.default Pass.defaults (.empty Collection.defaultName) [] _, rfl, ?_, ?_,
    ?_, by decide +kernel⟩
  all_goals
    rw [Json.canonical, hsorted]
    with_unfolding_all rfl

end FormSchema
