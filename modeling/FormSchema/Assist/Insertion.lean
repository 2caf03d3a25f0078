import FormSchema.Catalog
import FormSchema.Json.Display
import FormSchema.Json.Printer
import FormSchema.Text.Lines

/-!
# Insertion

Text that completes a `"data_type": ` at the cursor: the quoted identifier of the data type, then
the sample that the catalog has for it, without its outer braces and indented like the line of the
cursor.  A comma follows if more properties come before the enclosing object closes.
-/

namespace FormSchema

/-! ## Section 1: Kinds and errors -/

/-- What can be inserted. -/
inductive InsertionKind
  | dropdown
  | htmlEditor
  deriving DecidableEq

namespace InsertionKind

def all : List InsertionKind := [dropdown, htmlEditor]

def word : InsertionKind → Text
  | dropdown => "dropdown"
  | htmlEditor => "html-editor"

/-- The name of a kind in capitals. -/
def name : InsertionKind → Text
  | dropdown => "DROPDOWN"
  | htmlEditor => "HTML_EDITOR"

/-- The data type of the field that a kind completes. -/
def dataType : InsertionKind → DataType
  | dropdown => Catalog.dropdown
  | htmlEditor => Catalog.area

def ofWord? (w : Text) : Option InsertionKind := all.find? fun k => k.word = w

def ofJson? : Json → Option InsertionKind
  | .str w => ofWord? w
  | _ => none

end InsertionKind

/-- Why nothing can be inserted.  The last is none of the library's own: a sample that cannot be
written fails with the fault of the writer. -/
inductive InsertionError
  | unknownKind (value : Json)
  | lineOutside (line : Int) (count : Nat)
  | columnOutside (column line : Int)
  | noSample (identifier : Text)
  | emptySample (identifier : Text)
  | unwritable (f : Json.WriteFault)

def InsertionError.message : InsertionError → Text
  | .unknownKind value => "unknown insertion kind: " ++ value.inspect
  | .lineOutside line count =>
    "cursor line " ++ Text.ofInt line ++ " is outside the document (" ++ Text.ofNat count ++
      " lines)"
  | .columnOutside column line =>
    "cursor column " ++ Text.ofInt column ++ " is outside line " ++ Text.ofInt line
  | .noSample identifier =>
    "data type " ++ Quoted.quote identifier ++ " has no example fragment"
  | .emptySample identifier => "example for " ++ Quoted.quote identifier ++ " is empty"
  | .unwritable f => f.message

/-- Text to be inserted at a line and column. -/
structure Insertion where
  text : Text
  line : Nat
  character : Nat
  deriving DecidableEq

namespace Insertion

def toJson (i : Insertion) : Json :=
  .obj [("text", .str i.text), ("line", .int i.line), ("character", .int i.character)]

/-- A text with the insertion made on its line. -/
def applyTo (i : Insertion) (text : Text) : Text :=
  Text.unlines (text.lines.modify i.line fun line => line.spliceAt i.character i.text)

/-! ## Section 2: What surrounds the cursor -/

/-- The spaces and tabs at the front of a line. -/
def indentation (line : Text) : Text :=
  line.takeWhile fun c => c = .scalar ' ' || c = .scalar '\t'

/-- Whether a line holds nothing but a closing brace, perhaps with a comma. -/
def isClosing (line : Text) : Bool := line.strip = "\x7d" || line.strip = "\x7d,"

/-- Whether a line holds a quoted token, that is, two quotation marks. -/
def hasToken (line : Text) : Bool := 2 ≤ line.count (.scalar '"')

/-- Whether a quoted token comes before the first closing line. -/
def tokenBeforeClosing : List Text → Bool
  | [] => false
  | line :: rest =>
    if isClosing line then false else if hasToken line then true else tokenBeforeClosing rest

/-- The lines behind the cursor line.  A negative line counts from the end. -/
def linesAfter (lines : List Text) (cursor : Int) : List Text :=
  let start := cursor + 1
  lines.drop (if start < 0 then start + lines.length else start).toNat

/-- Whether more properties follow the cursor line. -/
def hasMoreProperties (lines : List Text) (cursor : Int) : Bool :=
  tokenBeforeClosing (linesAfter lines cursor)

/-! ## Section 3: The inserted text -/

/-- The spaces for each depth in which samples are printed. -/
def sampleIndent : Nat := 4

/-- The lines of the sample of a data type, without the outer brackets and with another
indentation. -/
def sampleLines (d : DataType) (indentation : Text) : Except InsertionError (List Text) :=
  match d.sample with
  | none => .error (.noSample d.identifier)
  | some sample =>
    match sample.writeFault? with
    | some f => .error (.unwritable f)
    | none =>
      let rendered := (sample.print ⟨some sampleIndent, true, " "⟩).lines
      -- a sample without entries, or one that is no collection, has no lines between brackets
      if rendered.length < 3 then .error (.emptySample d.identifier)
      else .ok (rendered.tail.dropLast.map fun line => indentation ++ line.drop sampleIndent)

/-- The text that completes a field of a data type. -/
def build (d : DataType) (indentation : Text) (hasMore : Bool) : Except InsertionError Text :=
  match sampleLines d indentation with
  | .error e => .error e
  | .ok body =>
    let comma : Text := if hasMore then "," else []
    .ok (d.identifier.inQuotes ++ ",\n" ++ Text.unlines body ++ comma)

/-- The insertion for a cursor in a text. -/
def plan (text : Text) (line character : Int) (kind : InsertionKind) :
    Except InsertionError Insertion :=
  let lines := text.lines
  if line < 0 || lines.length ≤ line then .error (.lineOutside line lines.length)
  else
    let current := lines.getD line.toNat []
    if character < 0 || current.length < character then .error (.columnOutside character line)
    else
      -- only the lines behind the cursor decide on the comma
      match build kind.dataType (indentation current) (hasMoreProperties lines line) with
      | .error e => .error e
      | .ok inserted => .ok ⟨inserted, line.toNat, character.toNat⟩

/-- The insertion for a kind given as a value; the kind is looked at before the cursor. -/
def planFor (text : Text) (line character : Int) (kind : Json) : Except InsertionError Insertion :=
  match InsertionKind.ofJson? kind with
  | none => .error (.unknownKind kind)
  | some k => plan text line character k

end Insertion

end FormSchema
