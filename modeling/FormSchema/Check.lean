import FormSchema.Anchor
import FormSchema.Field
import FormSchema.Json.Display
import FormSchema.Rule

/-!
# The checks

The four checks of a schema document.  Each goes through all fields in the order of the walk and
gives one finding for every field that breaks its rule, whatever the other checks find.  A check
fails as a whole where the anchor of one of its findings cannot be searched for.
-/

namespace FormSchema

/-- The checks, in the order in which they report. -/
inductive Check
  | keyConsistency
  | requiredProperties
  | dataType
  | htmlEditor
  deriving DecidableEq

namespace Check

/-- The checks in the order of their reports. -/
def all : List Check := [keyConsistency, requiredProperties, dataType, htmlEditor]

/-- The identifier of a check. -/
def id : Check → Text
  | keyConsistency => "key_consistency"
  | requiredProperties => "required_properties"
  | dataType => "data_type"
  | htmlEditor => "html_editor"

/-- The name of a check in capitals. -/
def name : Check → Text
  | keyConsistency => "KEY_CONSISTENCY"
  | requiredProperties => "REQUIRED_PROPERTIES"
  | dataType => "DATA_TYPE"
  | htmlEditor => "HTML_EDITOR"

/-- The calls that lie between a document and the writer of a searched value in a check.  The reader
of the document takes as many but for these: three more where the key has a search of its own, and
two more elsewhere. -/
def callsAbove : Check → Nat
  | keyConsistency => 3
  | _ => 2

/-- The calls that the stack has left where a check writes a value that it searches for. -/
def room (check : Check) : Nat := Json.callsLeft - check.callsAbove

/-- The check of an identifier. -/
def ofId? (t : Text) : Option Check := all.find? fun c => c.id = t

/-! ## Section 1: Messages -/

/-- The message about a field whose key differs from its name. -/
def keyMessage (name : Text) (key : Json) : Text :=
  "Keys should equal object names! Expected: \"" ++ name ++ "\", Found: \"" ++ key.display ++ "\""

def missingMessage (names : List Text) : Text :=
  "Missing required properties: " ++ Text.join ", " names

/-- The message about an unknown data type. -/
def dataTypeMessage : Text :=
  "Invalid data_type. Expected one of: " ++ Text.join ", " Catalog.dataTypeIds

/-- The message about an HTML editor in a field that is no area. -/
def htmlEditorMessage : Text := "data_type area is required for display html editor!"

/-! ## Section 2: Findings on one field -/

/-- The outcome of a check on one field: a finding or none, unless an anchor cannot be searched. -/
abbrev Finding := Except Json.WriteFault (Option Diagnostic)

/-- A finding at a range, if there is a range. -/
def findingAt (range : Except Json.WriteFault Range) (message : Text) (rule : Rule) : Finding :=
  range.map fun range => some (.error range message rule.id)

/-- A field's key, if it has one, is its name. -/
def keyFinding (text : Text) (f : Field) : Finding :=
  match f.props.get? "key" with
  | none => .ok none
  | some key =>
    if key.isText f.name then .ok none
    else
      findingAt (Anchor.locateKey keyConsistency.room text key) (keyMessage f.name key)
        Rule.keyMismatch

/-- A field has all required properties. -/
def missingFinding (text : Text) (f : Field) : Finding :=
  if f.missing.isEmpty then .ok none
  else
    findingAt (Anchor.locate requiredProperties.room text f.name .null) (missingMessage f.missing)
      Rule.missingProperties

/-- A field's data type, if it has one, is in the catalog. -/
def dataTypeFinding (text : Text) (f : Field) : Finding :=
  match f.props.get? "data_type" with
  | none => .ok none
  | some value =>
    if Catalog.isDataType value then .ok none
    else
      findingAt (Anchor.locate dataType.room text "data_type" value) dataTypeMessage Rule.dataType

/-- A field shown in the HTML editor is an area. -/
def htmlEditorFinding (text : Text) (f : Field) : Finding :=
  if (f.prop "display").isText Catalog.htmlEditorMarker && !(f.prop "data_type").isText "area" then
    findingAt (Anchor.locate htmlEditor.room text "display" (.str Catalog.htmlEditorMarker))
      htmlEditorMessage Rule.htmlEditor
  else .ok none

/-! ## Section 3: Findings on a document -/

/-- What a check finds on one field. -/
def finding : Check → Text → Field → Finding
  | keyConsistency => keyFinding
  | requiredProperties => missingFinding
  | dataType => dataTypeFinding
  | htmlEditor => htmlEditorFinding

/-- What a check finds on some fields, one after the other.  The first anchor that cannot be
searched for ends the check, and with it go the findings on the fields before. -/
def findingsOn (check : Check) (text : Text) : List Field → Except Json.WriteFault (List Diagnostic)
  | [] => .ok []
  | f :: rest =>
    match check.finding text f with
    | .error fault => .error fault
    | .ok found => (findingsOn check text rest).map (found.toList ++ ·)

/-- What a check finds in a document, with `text` as the text in which findings are anchored. -/
def findings (check : Check) (root : Container) (text : Text) :
    Except Json.WriteFault (List Diagnostic) :=
  check.findingsOn text root.walk

end Check

end FormSchema
