import FormSchema.Proofs.Contract
import FormSchema.Proofs.Engine.Verdict
import FormSchema.Proofs.Text.Order
import FormSchema.Report
import Mathlib.Algebra.BigOperators.Group.List.Lemmas
import Mathlib.Algebra.GroupWithZero.Nat

/-!
# Reports keep their contract

A report is given out exactly if every finding in it has no negative coordinate, a message and an
identifier of the right form; the rest of a report keeps the contract by itself.  The counts of a
report agree with its list of documents.  Whatever validation finds can be reported.
-/

namespace FormSchema

/-! ## Section 1: Findings that can be reported -/

/-- A finding without negative coordinates, with a message, and with an identifier of the right
form. -/
structure Diagnostic.Reportable (d : Diagnostic) : Prop where
  coordinates : ∀ n ∈ d.range.coordinates, 0 ≤ n
  message : d.message ≠ []
  ruleId : RuleId.Matches d.ruleId

/-! ## Section 2: Counts -/

namespace Report

variable {r : Report} {id : Text} {n : Nat}

/-- How many findings about some documents name a rule. -/
def occurrences (findings : Findings) (id : Text) : Nat :=
  (findings.map fun document => document.2.countP fun d => d.ruleId = id).sum

/-- The count of a rule is the number of its diagnostics in all documents. -/
theorem count_eq_occurrences : r.count id = occurrences r.documents id := by
  rw [count, diagnostics, List.map_flatMap, List.count_flatMap, occurrences]
  refine congrArg List.sum (List.map_congr_left fun document _ => ?_)
  rw [Function.comp_apply, List.count, List.countP_map]
  exact List.countP_congr fun d _ => by simp

/-- The rules of a report are listed in increasing order. -/
theorem ruleIds_increasing : r.ruleIds.Pairwise (· < ·) :=
  Text.sort_strictly_increasing (nodup_eraseDups _)

/-- No rule is counted twice. -/
theorem nodup_ruleIds : r.ruleIds.Nodup :=
  ruleIds_increasing.imp fun {a b} (h : a < b) (heq : a = b) => List.lt_irrefl b (heq ▸ h)

/-- A rule is listed exactly if there is a diagnostic that names it. -/
theorem mem_ruleIds_iff : id ∈ r.ruleIds ↔ 0 < r.count id := by
  rw [ruleIds, Text.mem_sort, List.mem_eraseDups, count, List.count_pos_iff]

/-- The counts by rule tell of each rule with diagnostics how many there are. -/
theorem mem_byRule_iff : (id, n) ∈ r.byRule ↔ 0 < n ∧ n = r.count id := by
  rw [byRule, List.mem_map]
  constructor
  · rintro ⟨other, hmem, heq⟩
    cases heq
    exact ⟨mem_ruleIds_iff.mp hmem, rfl⟩
  · rintro ⟨hpos, rfl⟩
    exact ⟨id, mem_ruleIds_iff.mpr hpos, rfl⟩

/-- The rules that are counted are the rules of the report. -/
theorem map_fst_byRule : r.byRule.map (·.1) = r.ruleIds := by
  rw [byRule, List.map_map]
  exact List.map_id r.ruleIds

/-- The total is the sum of the counts. -/
theorem diagnosticsTotal_eq : r.diagnosticsTotal = (r.byRule.map (·.2)).sum := by
  rw [diagnosticsTotal, List.sum, List.foldr_map]

/-- The counts do not depend on the order of the documents. -/
theorem byRule_eq_of_perm {findings others : Findings} (h : findings.Perm others) :
    byRule ⟨findings⟩ = byRule ⟨others⟩ := by
  have hids : ((diagnostics ⟨findings⟩).map (·.ruleId)).Perm
      ((diagnostics ⟨others⟩).map (·.ruleId)) := (h.flatMap_right _).map _
  have hcount : count ⟨findings⟩ = count ⟨others⟩ := funext fun id => hids.count_eq id
  have hruleIds : ruleIds ⟨findings⟩ = ruleIds ⟨others⟩ := by
    refine Text.sort_eq_of_perm ?_ (nodup_eraseDups _)
    refine (List.perm_ext_iff_of_nodup (nodup_eraseDups _) (nodup_eraseDups _)).mpr fun id => ?_
    rw [List.mem_eraseDups, List.mem_eraseDups, hids.mem_iff]
  rw [byRule, byRule, hcount, hruleIds]

/-- Every finding is counted under its rule, and once. -/
theorem sum_byRule :
    (r.byRule.map (·.2)).sum = (r.documents.map fun document => document.2.length).sum := by
  have hperm : r.ruleIds.Perm (r.diagnostics.map (·.ruleId)).dedup := by
    refine (List.perm_ext_iff_of_nodup nodup_ruleIds (List.nodup_dedup _)).mpr fun id => ?_
    rw [ruleIds, Text.mem_sort, List.mem_eraseDups, List.mem_dedup]
  have hcounts : r.byRule.map (·.2) = r.ruleIds.map r.count := by
    rw [byRule, List.map_map]
    rfl
  have hlength := List.sum_map_count_dedup_eq_length (r.diagnostics.map (·.ruleId))
  rw [List.length_map] at hlength
  rw [hcounts, (hperm.map r.count).sum_eq, ← List.length_flatMap, ← diagnostics, ← hlength]
  -- the two ways to compare identifiers agree
  refine congrArg List.sum (List.map_congr_left fun id _ => ?_)
  simp only [count, List.count]
  exact List.countP_congr fun other _ => by simp

end Report

/-! ## Section 3: Acceptance -/

namespace Contract

/-- The schema of a position asks for no more than numbers that are not negative. -/
theorem accepts_position_iff {p : Position} :
    Accepts position p.toJson ↔ 0 ≤ p.line ∧ 0 ≤ p.character := by
  rw [position, Position.toJson, accepts_closed_iff (by decide) rfl]
  simp [accepts_integer_iff]

/-- The schema of a diagnostic accepts what can be reported. -/
theorem accepts_diagnostic_iff {d : Diagnostic} : Accepts diagnostic d.toJson ↔ d.Reportable := by
  -- what the schema asks of the constants holds, so that the range, the message and the rule are
  -- left
  have hrange : Accepts (closed [("start", position), ("end", position)]) d.range.toJson ↔
      ∀ n ∈ d.range.coordinates, 0 ≤ n := by
    rw [Range.toJson, accepts_closed_iff (by decide) rfl]
    simp [accepts_position_iff, Range.coordinates, and_assoc]
  have hseverity : d.severity.word ∈ Severity.all.map (·.word) := by
    cases d.severity <;> decide
  rw [diagnostic, Diagnostic.toJson, accepts_closed_iff (by decide) rfl]
  simp only [List.forall₂_cons, hrange, accepts_nonEmptyText_iff, accepts_oneOf_iff, hseverity,
    accepts_ruleId_iff, accepts_text, List.forall₂_nil_left_iff, true_and, and_true]
  exact ⟨fun ⟨hr, hm, hi⟩ => ⟨hr, hm, hi⟩, fun h => ⟨h.coordinates, h.message, h.ruleId⟩⟩

/-- A document is accepted with any address, if its diagnostics are. -/
theorem accepts_document_iff {uri : Text} {ds : List Diagnostic} :
    Accepts document (.obj [("uri", .str uri), ("diagnostics", .arr (ds.map (·.toJson)))]) ↔
      ∀ d ∈ ds, d.Reportable := by
  rw [document, accepts_closed_iff (by decide) rfl]
  simp only [List.forall₂_cons, accepts_text, accepts_array_iff, List.forall_mem_map,
    accepts_diagnostic_iff, List.forall₂_nil_left_iff, true_and, and_true]

/-- The schema refuses a report only because of one of its diagnostics. -/
theorem accepts_report_iff {r : Report} :
    Accepts report r.toJson ↔ ∀ document ∈ r.documents, ∀ d ∈ document.2, d.Reportable := by
  have hcount : ∀ e ∈ r.byRule, 1 ≤ (e.2 : Int) :=
    fun e he => Int.natCast_pos.mpr (Report.mem_byRule_iff.mp he).1
  -- the summary is accepted whatever the documents are
  have hsummary : Accepts (closed [
      ("documents_total", .integer 0), ("diagnostics_total", .integer 0),
      ("by_rule", .object [] [] (some (.integer 1)))]) (.obj [
        ("documents_total", .int r.documentsTotal), ("diagnostics_total", .int r.diagnosticsTotal),
        ("by_rule", .obj (r.byRule.map fun e => (e.1, .int e.2)))]) := by
    rw [accepts_closed_iff (by decide) rfl]
    simp only [List.forall₂_cons, accepts_integer_iff, accepts_others_iff, List.forall_mem_map,
      List.forall₂_nil_left_iff, and_true]
    exact ⟨Int.natCast_nonneg _, Int.natCast_nonneg _, hcount⟩
  rw [report, Report.toJson, accepts_closed_iff (by decide) rfl]
  simp only [List.forall₂_cons, accepts_constant_iff, accepts_text, accepts_array_iff,
    List.forall_mem_map, accepts_document_iff, hsummary, List.forall₂_nil_left_iff,
    true_and, and_true]

end Contract

/-! ## Section 4: What validation finds -/

/-- What is found on a line lies within the text, and so behind its start. -/
theorem Anchor.coordinates_firstLine_nonneg {name : Text} {value : Option Text} {lines : List Text}
    {i : Nat} {r : Range} (h : firstLine? name value i lines = some r) :
    ∀ n ∈ r.coordinates, 0 ≤ n := by
  -- the line is this one, or one of those behind it
  induction lines generalizing i with
  | nil => cases h
  | cons line rest ih =>
    rw [firstLine?] at h
    split at h
    · cases h
      simp [Range.coordinates, Range.ofCoordinates]
      omega
    · exact ih h

theorem Anchor.coordinates_rangeOf_nonneg (text name : Text) (expected : Json) :
    ∀ n ∈ (rangeOf text name expected).coordinates, 0 ≤ n := by
  rw [rangeOf, search]
  cases h : firstLine? name.inQuotes (expectedToken? expected) 0 text.lines with
  | none => decide
  | some r => exact coordinates_firstLine_nonneg h

/-- The diagnoses of the checks always can be reported. -/
theorem Check.reportable_diagnosis (check : Check) (text : Text) (f : Field) :
    (check.diagnosis text f).Reportable where
  coordinates := by
    rw [range_diagnosis]
    exact Anchor.coordinates_rangeOf_nonneg _ _ _
  message := by
    cases check <;> nofun
  ruleId := by
    rw [ruleId_diagnosis]
    exact RuleId.matches_id check.rule

/-- Whatever validation finds can be reported. -/
theorem Verdict.reportable {text : Text} {found : List Diagnostic} (h : Verdict text found)
    {d : Diagnostic} (hd : d ∈ found) : d.Reportable := by
  have hverdict := h
  have hstart : ∀ n ∈ (Range.ofCoordinates 0 0 0 1).coordinates, 0 ≤ n := by decide
  -- a document that is not gone through has one finding at its start
  cases h with
  | notJson fault hp =>
    rw [List.mem_singleton.mp hd]
    exact ⟨hstart, nofun, RuleId.matches_id .invalidJson⟩
  | notObject value hp hne =>
    rw [List.mem_singleton.mp hd]
    exact ⟨hstart, nofun, RuleId.matches_id .rootObject⟩
  | document root hp | keysSkipped root hp =>
    obtain ⟨check, -, f, -, -, rfl⟩ := (hverdict.mem_iff hp).mp hd
    exact check.reportable_diagnosis text f

/-! ## Section 5: Building a report -/

namespace Report

/-- A report is built of all findings as they are, exactly if each can be reported. -/
theorem build_eq_ok_iff {findings : Findings} {r : Report} :
    build findings = .ok r ↔
      (∀ document ∈ findings, ∀ d ∈ document.2, d.Reportable) ∧ r = ⟨findings⟩ := by
  have haccepts := Contract.accepts_report_iff (r := ⟨findings⟩)
  rw [← haccepts, ← Contract.validate_eq_ok_iff, build]
  cases Contract.validate Contract.report (toJson ⟨findings⟩) with
  | error violation => exact iff_of_false nofun fun h => nomatch h.1
  | ok _ => exact ⟨fun h => ⟨rfl, (Except.ok.inj h).symm⟩, fun h => congrArg Except.ok h.2.symm⟩

/-- A report is refused exactly if one of the findings cannot be reported. -/
theorem build_eq_error_iff {findings : Findings} :
    (∃ violation, build findings = .error violation) ↔
      ∃ document ∈ findings, ∃ d ∈ document.2, ¬ d.Reportable := by
  constructor
  · rintro ⟨violation, herror⟩
    -- the other way round: without such a finding there is a report
    by_contra hnone
    have hall : ∀ document ∈ findings, ∀ d ∈ document.2, d.Reportable := by
      simpa only [not_exists, not_and, not_not] using hnone
    rw [build_eq_ok_iff.mpr ⟨hall, rfl⟩] at herror
    cases herror
  · rintro ⟨document, hdocument, d, hd, hnot⟩
    cases hbuild : build findings with
    | error violation => exact ⟨violation, rfl⟩
    | ok r => exact absurd ((build_eq_ok_iff.mp hbuild).1 document hdocument d hd) hnot

/-- The counts of some findings by rule: each rule that occurs, in increasing order of the
identifiers, with the number of its findings about all documents; and together these are all
findings. -/
structure CountsByRule (findings : Findings) (counts : List (Text × Nat)) : Prop where
  increasing : (counts.map (·.1)).Pairwise (· < ·)
  mem_iff : ∀ id n, (id, n) ∈ counts ↔ 0 < n ∧ n = occurrences findings id
  sum_eq : (counts.map (·.2)).sum = (findings.map fun document => document.2.length).sum

/-- The counts of a report are the counts of its diagnostics. -/
theorem countsByRule_byRule (r : Report) : CountsByRule r.documents r.byRule where
  increasing := map_fst_byRule ▸ ruleIds_increasing
  mem_iff _ _ := count_eq_occurrences (r := r) ▸ mem_byRule_iff
  sum_eq := sum_byRule

/-- A report on any findings is refused exactly if one of them has a negative coordinate, no message
or an identifier of another form.  Otherwise it lists the documents in order, each with its findings
in order, the number of documents, the counts by rule, and their sum.  And whatever validations have
found in any documents is reported. -/
theorem build_keeps_contract (findings : Findings) (config : Config) (collection : Collection)
    (steps : List Engine.Step) (documents : List (Text × Snapshot)) :
    ((∃ violation, build findings = .error violation) ↔
      ∃ document ∈ findings, ∃ d ∈ document.2, ¬ d.Reportable) ∧
    (∀ r, build findings = .ok r → ∃ counts, CountsByRule findings counts ∧
      r.toJson = .obj [
        ("schema_version", .str "diagnostics_v1"),
        ("tool_version", .str toolVersion),
        ("documents", .arr (findings.map fun document =>
          .obj [("uri", .str document.1), ("diagnostics", .arr (document.2.map (·.toJson)))])),
        ("summary", .obj [
          ("documents_total", .int findings.length),
          ("diagnostics_total", .int ((counts.map (·.2)).sum : Nat)),
          ("by_rule", .obj (counts.map fun e => (e.1, .int e.2)))])]) ∧
    ∃ found : Findings,
      List.Forall₂ (fun document e => e.1 = document.1 ∧
        ((Engine.session config Pass.defaults collection steps).validate document.2).answer =
          .ok e.2) documents found ∧
      ∃ r, build found = .ok r := by
  refine ⟨build_eq_error_iff, fun r hr => ?_, ?_⟩
  · obtain ⟨-, rfl⟩ := build_eq_ok_iff.mp hr
    refine ⟨_, countsByRule_byRule ⟨findings⟩, ?_⟩
    rw [← diagnosticsTotal_eq]
    rfl
  · -- every engine answers with the verdict on the text, and a verdict can be reported
    refine ⟨documents.map fun document => (document.1, diagnose Pass.defaults document.2.text),
      ?_, _, build_eq_ok_iff.mpr ⟨?_, rfl⟩⟩
    · rw [List.forall₂_map_right_iff, List.forall₂_same]
      exact fun document _ => ⟨rfl, Engine.validate_session _ _ _ _ _⟩
    · rw [List.forall_mem_map]
      exact fun document _ d hd => (verdict_diagnose_defaults document.2.text).reportable hd

end Report

end FormSchema
