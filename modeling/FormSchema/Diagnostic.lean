import FormSchema.Json.Value

/-!
# Diagnostics

A diagnostic is a finding about one document: a range of the document, a message, the rule that is
broken, and how severe that is.
-/

namespace FormSchema

/-! ## Section 1: Severity -/

/-- How severe a finding is. -/
inductive Severity
  | error
  | warning
  | information
  | hint
  deriving DecidableEq

namespace Severity

/-- All severities, the most severe first. -/
def all : List Severity := [error, warning, information, hint]

/-- The word for a severity in reports. -/
def word : Severity → Text
  | error => "error"
  | warning => "warning"
  | information => "information"
  | hint => "hint"

/-- The name of a severity in capitals. -/
def name : Severity → Text
  | error => "ERROR"
  | warning => "WARNING"
  | information => "INFORMATION"
  | hint => "HINT"

/-- The number of a severity in editors, one for the most severe. -/
def code : Severity → Nat
  | error => 1
  | warning => 2
  | information => 3
  | hint => 4

def ofWord? (w : Text) : Option Severity := all.find? fun s => s.word = w

end Severity

/-! ## Section 2: Ranges -/

/-- A position in a document: line and column, both counted from zero. -/
structure Position where
  line : Int
  character : Int
  deriving DecidableEq

/-- The half-open span between two positions. -/
structure Range where
  start : Position
  stop : Position
  deriving DecidableEq

namespace Range

def ofCoordinates (startLine startCharacter stopLine stopCharacter : Int) : Range :=
  ⟨⟨startLine, startCharacter⟩, ⟨stopLine, stopCharacter⟩⟩

/-- The empty range at the start of a document. -/
def zero : Range := ofCoordinates 0 0 0 0

/-- The first column of the first line, where findings about a whole document stand. -/
def documentStart : Range := ofCoordinates 0 0 0 1

/-- Whether a range is empty because it ends where it starts. -/
def isDegenerate (r : Range) : Bool := r.start = r.stop

def coordinates (r : Range) : List Int :=
  [r.start.line, r.start.character, r.stop.line, r.stop.character]

end Range

/-! ## Section 3: Findings -/

/-- The source that findings name unless they give another. -/
def Diagnostic.defaultSource : Text := "widget-schema"

/-- A finding about a document. -/
structure Diagnostic where
  range : Range
  message : Text
  ruleId : Text
  severity : Severity
  source : Text
  deriving DecidableEq

/-- An error found by a rule. -/
def Diagnostic.error (range : Range) (message ruleId : Text) : Diagnostic :=
  ⟨range, message, ruleId, .error, Diagnostic.defaultSource⟩

/-! ## Section 4: JSON form -/

def Position.toJson (p : Position) : Json :=
  .obj [("line", .int p.line), ("character", .int p.character)]

def Range.toJson (r : Range) : Json :=
  .obj [("start", r.start.toJson), ("end", r.stop.toJson)]

def Diagnostic.toJson (d : Diagnostic) : Json :=
  .obj [("range", d.range.toJson), ("message", .str d.message), ("severity", .str d.severity.word),
    ("rule_id", .str d.ruleId), ("source", .str d.source)]

end FormSchema
