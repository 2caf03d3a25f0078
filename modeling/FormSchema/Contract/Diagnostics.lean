import FormSchema.Contract.Schema
import FormSchema.Diagnostic
import FormSchema.Disk.Tree

/-!
# The contract of reports

The schema that every report keeps, and the directory in which it stands: a schema is a file there,
and its name is a path seen from that directory.
-/

namespace FormSchema.Contract

/-! ## Section 1: The schema -/

/-- The version that every report names. -/
def reportVersion : Text := "diagnostics_v1"

/-- An object with exactly the described entries. -/
def closed (described : List (Text × Schema)) : Schema :=
  .object (described.map (·.1)) described none

def position : Schema := closed [("line", .integer 0), ("character", .integer 0)]

def diagnostic : Schema := closed [
  ("range", closed [("start", position), ("end", position)]),
  ("message", .nonEmptyText),
  ("severity", .oneOf (Severity.all.map (·.word))),
  ("rule_id", .ruleId),
  ("source", .text)]

/-- The findings about one document. -/
def document : Schema := closed [("uri", .text), ("diagnostics", .array diagnostic)]

def report : Schema := closed [
  ("schema_version", .constant reportVersion),
  ("tool_version", .text),
  ("documents", .array document),
  ("summary", closed [
    ("documents_total", .integer 0),
    ("diagnostics_total", .integer 0),
    ("by_rule", .object [] [] (some (.integer 1)))])]

/-! ## Section 2: Schemas by name -/

/-- The name of the schema of reports. -/
def reportName : Text := "diagnostics.schema.json"

/-- The directory in which the schemas stand. -/
def schemaDirectory : List Text := ["widget_schema", "data", "schemas"]

/-- The schemas on a disk of their own; what they say is kept elsewhere. -/
def shelf : Disk where
  root := (Disk.Node.file []).under (schemaDirectory ++ [reportName])
  current := schemaDirectory

/-- The schema to which a name leads. -/
def ofName? (name : Text) : Option Schema :=
  match shelf.locate (Path.ofText name) with
  | .ok ⟨_, .file _⟩ => some report
  | _ => none

end FormSchema.Contract
