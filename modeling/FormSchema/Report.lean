import FormSchema.Contract.Diagnostics

/-!
# Reports

A report lists the documents with their findings and counts them: how many documents, how many
findings, and how many by each rule in the order of the identifiers.  A report that breaks its
contract is not given out.
-/

namespace FormSchema

/-- The version of the tool that reports name. -/
def toolVersion : Text := "0.1.0"

/-- The findings of a number of documents, each address once. -/
abbrev Findings := Entries (List Diagnostic)

/-- A report: the documents with their findings, in order. -/
structure Report where
  documents : Findings

namespace Report

/-- All findings of a report, in order. -/
def diagnostics (r : Report) : List Diagnostic := r.documents.flatMap (·.2)

/-- The identifiers of the broken rules, in increasing order. -/
def ruleIds (r : Report) : List Text := Text.sort (r.diagnostics.map (·.ruleId)).eraseDups

/-- How many findings name a rule. -/
def count (r : Report) (id : Text) : Nat := (r.diagnostics.map (·.ruleId)).count id

def byRule (r : Report) : List (Text × Nat) := r.ruleIds.map fun id => (id, r.count id)

def documentsTotal (r : Report) : Nat := r.documents.length

/-- The number of findings: the sum over the rules. -/
def diagnosticsTotal (r : Report) : Nat := r.byRule.foldr (fun e total => e.2 + total) 0

def toJson (r : Report) : Json :=
  .obj [
    ("schema_version", .str Contract.reportVersion),
    ("tool_version", .str toolVersion),
    ("documents", .arr (r.documents.map fun d =>
      -- in the order of the report; only the counts are sorted
      .obj [("uri", .str d.1), ("diagnostics", .arr (d.2.map (·.toJson)))])),
    ("summary", .obj [
      ("documents_total", .int r.documentsTotal),
      ("diagnostics_total", .int r.diagnosticsTotal),
      ("by_rule", .obj (r.byRule.map fun e => (e.1, .int e.2)))])]

/-- The report on some findings, or where it breaks its contract. -/
def build (findings : Findings) : Except Contract.Violation Report :=
  match Contract.validate Contract.report (toJson ⟨findings⟩) with
  | .error v => .error v
  | .ok () => .ok ⟨findings⟩

end Report

end FormSchema
