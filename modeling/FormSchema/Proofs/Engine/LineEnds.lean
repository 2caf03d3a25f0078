import FormSchema.Proofs.Engine.Verdict
import FormSchema.Proofs.Json.Blanks
import FormSchema.Proofs.Json.Order
import FormSchema.Proofs.Text.LineEnds

/-!
# Line ends do not move findings

A document with CR LF at the end of its lines is parsed as the same value as one with LF alone, and
the findings on the two are the same, ranges included: a line break can only stand between tokens,
and what an anchor searches for ends in a quotation mark, so a carriage return at the end of a line
is never part of it.
-/

namespace FormSchema

/-! ## Section 1: Parsing -/

namespace Json

private theorem isBlank_crLf : IsBlank [.carriageReturn, .lineFeed] := by
  simp [IsBlank, isSpace]

/-- A text without carriage returns is parsed as a value exactly if it is so with CR LF at the ends
of its lines. -/
theorem parse_withCrLf_iff {t : Text} (h : CodePoint.carriageReturn ∉ t) (w : Json) :
    parse (Text.withCrLf t) = .ok w ↔ parse t = .ok w := by
  -- both ways a control character is replaced by blanks, and outside of blanks there is none
  have hadd := respaces_replacing (d := .lineFeed) (by decide) isBlank_crLf
  have hdrop := respaces_replacing (d := .carriageReturn) (by decide) isBlank_nil
  constructor
  · intro hparse
    have hback : parse (Text.withoutCr (Text.withCrLf t)) = .ok w := parse_respaced hdrop hparse
    rwa [Text.withoutCr_withCrLf h] at hback
  · exact parse_respaced hadd

end Json

/-! ## Section 2: Anchors -/

namespace Anchor

/-- A quoted token is found in the same place with a return at the end of the line. -/
private theorem find?_inQuotes_return (s line : Text) :
    Text.find? s.inQuotes (line ++ [.carriageReturn]) = Text.find? s.inQuotes line :=
  Text.find?_concat (by decide) (.scalar '"' :: s) line

/-- What is searched for stands between quotation marks. -/
theorem expectedToken?_inQuotes {expected : Json} {t : Text}
    (h : expectedToken? expected = some t) : ∃ s : Text, t = s.inQuotes := by
  -- a string as it is, and any other value as it is written
  have htoken (v : Json) : ∃ s : Text, token v = s.inQuotes := by
    cases v with
    | str s => exact ⟨s, rfl⟩
    | _ => exact ⟨_, rfl⟩
  unfold expectedToken? at h
  split at h
  · cases h
  · cases h
  · cases h
    exact htoken expected

variable (name : Text) (expected : Json)

private theorem onLine?_return (line : Text) :
    onLine? name.inQuotes (expectedToken? expected) (line ++ [.carriageReturn]) =
      onLine? name.inQuotes (expectedToken? expected) line := by
  rw [onLine?, onLine?, find?_inQuotes_return]
  -- what is searched for ends with a quotation mark, so that no return is in it
  cases htoken : expectedToken? expected with
  | none => rfl
  | some token =>
    obtain ⟨s, rfl⟩ := expectedToken?_inQuotes htoken
    simp only [find?_inQuotes_return]

private theorem firstLine?_withReturns (i : Nat) (ls : List Text) :
    firstLine? name.inQuotes (expectedToken? expected) i (Text.withReturns ls) =
      firstLine? name.inQuotes (expectedToken? expected) i ls := by
  fun_induction Text.withReturns ls generalizing i with
  | case1 => rfl
  | case2 l => rfl
  | case3 l m rest ih => simp only [firstLine?.eq_2, onLine?_return, ih]

/-- Carriage returns at the ends of lines do not move an anchor. -/
theorem rangeOf_withCrLf (text : Text) :
    rangeOf (Text.withCrLf text) name expected = rangeOf text name expected := by
  rw [rangeOf, rangeOf, search, search, Text.lines_withCrLf, firstLine?_withReturns]

end Anchor

/-! ## Section 3: Findings -/

private theorem Check.diagnosis_withCrLf (check : Check) (text : Text) (f : Field) :
    check.diagnosis (Text.withCrLf text) f = check.diagnosis text f := by
  cases check <;> simp only [diagnosis, Anchor.rangeOf_withCrLf]

private theorem Check.reports_withCrLf (check : Check) (root : Container) (text : Text) :
    check.reports root (Text.withCrLf text) = check.reports root text := by
  simp only [reports, diagnosis_withCrLf]

/-- What the four checks find in a text that is parsed does not depend on its line ends. -/
theorem diagnose_withCrLf {text : Text} {w : Json} (hparse : Json.parse text = .ok w)
    (hcrlf : Json.parse (Text.withCrLf text) = .ok w) :
    diagnose Pass.defaults (Text.withCrLf text) = diagnose Pass.defaults text := by
  cases w with
  | obj root =>
    rw [diagnose_document hparse, diagnose_document hcrlf]
    simp only [Pass.defaults, List.flatMap_map, Check.contribution?_pass, Check.reports_withCrLf]
  | _ => simp only [diagnose, hparse, hcrlf]

/-- Line ends do not move findings: a document is parsed with CR LF at the ends of its lines exactly
if it is parsed with LF alone, as the same value, and then validation gives the same answer on
both. -/
theorem Engine.line_ends_immaterial (config : Config) (collection : Collection)
    (steps : List Engine.Step) (snapshot : Snapshot)
    (h : CodePoint.carriageReturn ∉ snapshot.text) :
    (∀ w, Json.parse (Text.withCrLf snapshot.text) = .ok w ↔ Json.parse snapshot.text = .ok w) ∧
      ∀ w, Json.parse snapshot.text = .ok w →
        ∃ found : List Diagnostic,
          ((Engine.session config Pass.defaults collection steps).validate snapshot).answer =
            .ok found ∧
          ((Engine.session config Pass.defaults collection steps).validate
            { snapshot with text := Text.withCrLf snapshot.text }).answer = .ok found := by
  refine ⟨Json.parse_withCrLf_iff h, fun w hw => ?_⟩
  have hcrlf := (Json.parse_withCrLf_iff h w).mpr hw
  refine ⟨diagnose Pass.defaults snapshot.text, ?_, ?_⟩
  · rw [(Engine.validate_idle Engine.session_state _).2, Engine.session_passes]
  · rw [(Engine.validate_idle Engine.session_state _).2, Engine.session_passes,
      diagnose_withCrLf hw hcrlf]

/-- A field whose name and key both hold line breaks. -/
def broken : Field := ⟨"a\r\nb", [("key", .str "c\nd")]⟩

/-- A document with this field, laid out on several lines. -/
def brokenText : Text :=
  "\x7b\n  \"a\\r\\nb\": \x7b\n    \"key\": \"c\\nd\"\n  \x7d\n\x7d\n"

private theorem parse_broken :
    Json.parse brokenText = .ok (.obj [(broken.name, .obj broken.props)]) := by
  have hexact : (Json.obj [(broken.name, .obj broken.props)]).Every Json.IsExact := by decide
  have hincreasing : (Json.obj [(broken.name, .obj broken.props)]).Every Json.NamesIncreasing := by
    decide
  -- the text is the canonical one of the document
  have hparse := (Json.parse_canonical_of_increasing hexact hincreasing (some 2)).mpr (by decide)
  rw [Json.canonical, Json.sortNames_of_increasing hincreasing] at hparse
  exact hparse

/-- The wrong key is found in either form of the document, in the same range. -/
theorem Engine.broken_key_found_alike :
    CodePoint.carriageReturn ∉ brokenText ∧
      Json.parse (Text.withCrLf brokenText) = .ok (.obj [(broken.name, .obj broken.props)]) ∧
      ∃ found : List Diagnostic,
        (Engine.default.validate (.ofText "a.json" brokenText)).answer = .ok found ∧
        (Engine.default.validate (.ofText "a.json" (Text.withCrLf brokenText))).answer =
          .ok found ∧
        ∃ d ∈ found, d.ruleId = "WS_KEY_MISMATCH_001" := by
  have hcr : CodePoint.carriageReturn ∉ brokenText := by decide +kernel
  obtain ⟨hparse, hanswers⟩ := Engine.line_ends_immaterial Config.default
    (.empty Collection.defaultName) [] (.ofText "a.json" brokenText) hcr
  obtain ⟨found, hfound, hfound'⟩ := hanswers _ parse_broken
  refine ⟨hcr, (hparse _).mpr parse_broken, found, hfound, hfound', ?_⟩
  have hfield : broken ∈ Container.preorder [(broken.name, .obj broken.props)] := by
    rw [Container.preorder_cons_flat rfl]
    exact List.mem_cons_self
  have hbreaks : Check.keyConsistency.Breaks broken :=
    ⟨.str "c\nd", rfl, by simp [Text.ofString, broken]⟩
  -- the answer on the first form is its diagnosis, which holds the finding on the key
  rw [(Engine.validate_idle Engine.session_state _).2, Engine.session_passes] at hfound
  refine ⟨Check.keyConsistency.diagnosis brokenText broken, ?_, rfl⟩
  rw [← Except.ok.inj hfound]
  exact (verdict_diagnose_defaults _).diagnosis_mem parse_broken hfield hbreaks (.inl (by decide))

end FormSchema
