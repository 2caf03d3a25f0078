import FormSchema.Assist.Insertion
import FormSchema.Service.IntegerField
import FormSchema.Text.Encoding
import FormSchema.Text.LowerCase

/-!
# Bodies of requests

The JSON object in the body of a request and its fields.  A body is judged as a whole first; then
all fields are judged, and the complaints about them are collected in the order of the fields.
-/

namespace FormSchema.Service

/-! ## Section 1: Fields -/

/-- A string in a field. -/
def textOf : Json → Except Problem Text
  | .str s => .ok s
  | _ => .error .notText

/-- A kind of insertion in a field. -/
def kindOf (v : Json) : Except Problem InsertionKind :=
  match InsertionKind.ofJson? v, v with
  | some k, _ => .ok k
  | none, .str s =>
    .error (if s.any CodePoint.isSurrogate then .notScalars
      else .notListed (InsertionKind.all.map (·.word)))
  | none, _ => .error (.notListed (InsertionKind.all.map (·.word)))

/-- A field, read as it should be. -/
def field {α : Type} (read : Json → Except Problem α) (name : Text) (body : Entries Json) :
    Except Complaint α :=
  match Entries.get? name body with
  | none => .error ⟨.field name, .missing, .obj body⟩
  | some v =>
    match read v with
    | .ok a => .ok a
    | .error p => .error ⟨.field name, p, v⟩

/-- A field that has a default. -/
def fieldOr {α : Type} (read : Json → Except Problem α) (name : Text) (other : α)
    (body : Entries Json) : Except Complaint α :=
  if Entries.has name body then field read name body else .ok other

/-- The complaint about a field, if there is one. -/
def complaints {α : Type} : Except Complaint α → List Complaint
  | .ok _ => []
  | .error c => [c]

/-! ## Section 2: Content types -/

/-- The text of a header, each octet of which is a code point. -/
def headerText (octets : Octets) : Text := octets.map fun o => CodePoint.ofNat o.toNat

/-- The main and the sub type that a content type names, in lower case. -/
def mediaType? (contentType : Text) : Option (Text × Text) :=
  let essence : Text := Text.strip (contentType.takeWhile (· ≠ .scalar ';'))
  match Text.split (.scalar '/') essence.lower with
  | [main, sub] => some (main, sub)
  | _ => none

/-- Whether a content type is one of JSON. -/
def isJsonType (contentType : Text) : Bool :=
  match mediaType? contentType with
  | some (main, sub) => main = "application" && (sub = "json" || sub.endsWith "+json")
  | none => false

/-! ## Section 3: Bodies -/

/-- Why a body has no fields. -/
inductive BodyFault
  | complaint (c : Complaint)
  | unreadable

/-- The fields of a text that is JSON. -/
def fieldsOfText (text : Text) : Except BodyFault (Entries Json) :=
  match Json.parseLenient text with
  | .ok (.obj es) => .ok es
  | .ok v => .error (.complaint ⟨.body, .notObject, v⟩)
  | .error (.atPlace cause rest) =>
    .error (.complaint ⟨.offset (text.length - rest.length), .notJson cause, .obj []⟩)
  | .error _ => .error .unreadable

def jsonFields (body : Octets) : Except BodyFault (Entries Json) :=
  match (Encoding.ofOctets body).decode? body with
  | some text => fieldsOfText text
  | none => .error .unreadable

/-- The fields of a body with a content type. -/
def fieldsOf (contentType body : Octets) : Except BodyFault (Entries Json) :=
  if body.isEmpty then .error (.complaint ⟨.body, .missing, .null⟩)
  else if isJsonType (headerText contentType) then jsonFields body
  else .error (.complaint ⟨.body, .notObject, .str (Utf8.decodeLossy body)⟩)

end FormSchema.Service
