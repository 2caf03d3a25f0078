import FormSchema.Assist.Completion
import FormSchema.Assist.Insertion
import FormSchema.Check
import FormSchema.Config
import FormSchema.Datum.Value
import FormSchema.Engine
import FormSchema.Log

/-!
# Domain objects as data

The findings, documents, settings and catalog entries of this library as data that a host can hand
over.  The mappings of the catalog are views, except for the bodies of templates.
-/

namespace FormSchema

/-! ## Section 1: Enumerations -/

def Severity.toDatum (s : Severity) : Datum := .wordMember "Severity" s.name s.word

def Check.toDatum (c : Check) : Datum := .wordMember "PassType" c.name c.id

/-- A kind of insertion as a datum. -/
def InsertionKind.toDatum (k : InsertionKind) : Datum := .wordMember "InsertionKind" k.name k.word

/-- A kind of completion as a datum. -/
def CompletionKind.toDatum (k : CompletionKind) : Datum :=
  .wordMember "CompletionKind" k.name k.word

/-- The name of an exit code in capitals. -/
def ExitCode.name : ExitCode → Text
  | success => "SUCCESS"
  | violation => "VIOLATION"
  | error => "ERROR"

def ExitCode.toDatum (c : ExitCode) : Datum := .numberMember "ExitCode" c.name c.code

/-! ## Section 2: Findings and offers -/

def Position.toDatum (p : Position) : Datum :=
  .record "Position" true [("line", .int p.line), ("character", .int p.character)]

def Range.toDatum (r : Range) : Datum :=
  .record "Range" true [("start", r.start.toDatum), ("end", r.stop.toDatum)]

def Diagnostic.toDatum (d : Diagnostic) : Datum :=
  .record "Diagnostic" true [("range", d.range.toDatum), ("message", .str d.message),
    ("rule_id", .str d.ruleId), ("severity", d.severity.toDatum), ("source", .str d.source)]

def CompletionItem.toDatum (i : CompletionItem) : Datum :=
  .record "CompletionItem" true [("label", .str i.label), ("kind", i.kind.toDatum),
    ("detail", .str i.detail), ("documentation", .str i.documentation),
    ("insert_text", .str i.insertText), ("documentation_format", .str i.documentationFormat)]

/-- An insertion of a text at a line and column as a datum. -/
def Datum.insertion (text : Text) (line character : Int) : Datum :=
  .record "Insertion" true
    [("text", .str text), ("line", .int line), ("character", .int character)]

/-! ## Section 3: Documents and settings -/

def Snapshot.toDatum (s : Snapshot) : Datum :=
  .record "DocumentSnapshot" false [("uri", .str s.uri), ("text", .str s.text),
    ("language_id", .str s.languageId), ("version", .int s.version)]

def Config.toDatum (c : Config) : Datum :=
  .record "ValidationConfig" false [("language_ids", .tuple (c.languageIds.map .str)),
    ("file_suffixes", .tuple (c.fileSuffixes.map .str)),
    ("max_document_bytes", .int c.maxDocumentBytes)]

/-- A field with some name and properties as a datum. -/
def Datum.field (name props : Datum) : Datum :=
  .record "FieldNode" false [("name", name), ("props", props)]

/-! ## Section 4: The catalog -/

mutual

/-- A JSON value as a datum whose mappings are views. -/
def Datum.viewOfJson : Json → Datum
  | .arr items => .list (Datum.viewsOfItems items)
  | .obj es => .view (Datum.viewsOfEntries es)
  | .null => .null
  | .bool b => .bool b
  | .int n => .int n
  | .float x => .float x
  | .str s => .str s

/-- JSON values as data whose mappings are views. -/
def Datum.viewsOfItems : List Json → List Datum
  | [] => []
  | v :: rest => Datum.viewOfJson v :: Datum.viewsOfItems rest

/-- The entries of an object with values whose mappings are views. -/
def Datum.viewsOfEntries : List (Text × Json) → List (Datum × Datum)
  | [] => []
  | (k, v) :: rest => (.str k, Datum.viewOfJson v) :: Datum.viewsOfEntries rest

end

/-- What the catalog says of a data type, as a datum. -/
def DataType.toDatum (d : DataType) : Datum :=
  .record "DataTypeDescriptor" false [("identifier", .str d.identifier), ("detail", .str d.detail),
    ("description", .str d.description),
    ("example", (d.sample.map Datum.viewOfJson).getD .null)]

def Template.toDatum (t : Template) : Datum :=
  .record "TemplateFragment" false [("name", .str t.name), ("detail", .str t.detail),
    ("description", .str t.description), ("body", .ofJson t.body)]

end FormSchema
