import FormSchema.Datum.Display
import FormSchema.Decimal.Layout
import FormSchema.Json.Printer

/-!
# Data as JSON without conversion

What JSON can write of a datum as it is: lists, tuples and mappings with simple keys.  A view is
written only after it has been made plain, which turns views into mappings and tuples into lists
wherever these contain one another.  Both are done by recursion, and fail on a datum that is nested
too deeply.
-/

namespace FormSchema.Datum

/-! ## Section 1: Writing -/

/-- Why a datum cannot be written. -/
inductive PlainFault
  | unsupported (kind : Text)
  | unsupportedKey (kind : Text)
  | write (f : Json.WriteFault)

def PlainFault.message : PlainFault → Text
  | .unsupported kind => "Object of type " ++ kind ++ " is not JSON serializable"
  | .unsupportedKey kind => "keys must be str, int, float, bool or None, not " ++ kind
  | .write f => f.message

/-- An integer, if it can be written. -/
def writtenInt (n : Int) : Except PlainFault Int :=
  if Json.fitsDigits n then .ok n else .error (.write .longInteger)

/-- The name under which a key is written. -/
def keyName : Datum → Except PlainFault Text
  | str s => .ok s
  | wordMember _ _ word => .ok word
  | int n => (writtenInt n).map Text.ofInt
  | numberMember _ _ n => (writtenInt n).map Text.ofInt
  | float x => .ok (x.text .json)
  | bool true => .ok "true"
  | bool false => .ok "false"
  | null => .ok "null"
  | d => .error (.unsupportedKey d.kindName)

mutual

/-- The JSON value that a datum is written as with so many calls left.  The names of an object are
not compared. -/
def toJson (calls : Nat) : Datum → Except PlainFault Json
  | null => .ok .null
  | bool b => .ok (.bool b)
  | int n => (writtenInt n).map .int
  | float x => .ok (.float x)
  | str s => .ok (.str s)
  | wordMember _ _ word => .ok (.str word)
  | numberMember _ _ n => (writtenInt n).map .int
  | list items =>
    -- the writer itself: it knows these two collections, mappings and nothing else
    if calls < 1 then .error (.write .tooDeepToWrite)
    else (itemsToJson (calls - 1) items).map .arr
  | tuple items =>
    if calls < 1 then .error (.write .tooDeepToWrite)
    else (itemsToJson (calls - 1) items).map .arr
  | mapping es =>
    if calls < 1 then .error (.write .tooDeepToWrite)
    else (entriesToJson (calls - 1) es).map .obj
  | d => .error (.unsupported d.kindName)

/-- The JSON values of some items. -/
def itemsToJson (calls : Nat) : List Datum → Except PlainFault (List Json)
  | [] => .ok []
  | d :: rest =>
    match toJson calls d with
    | .error f => .error f
    | .ok v =>
      match itemsToJson calls rest with
      | .error f => .error f
      | .ok vs => .ok (v :: vs)

/-- The entries of the object that a mapping is written as. -/
def entriesToJson (calls : Nat) :
    List (Datum × Datum) → Except PlainFault (List (Text × Json))
  | [] => .ok []
  | (k, d) :: rest =>
    match keyName k with
    | .error f => .error f
    | .ok name =>
      match toJson calls d with
      | .error f => .error f
      | .ok v =>
        match entriesToJson calls rest with
        | .error f => .error f
        | .ok es => .ok ((name, v) :: es)

end

/-! ## Section 2: Making plain -/

mutual

/-- A datum in which views are mappings and tuples are lists, made with so many calls left. -/
def plain (calls : Nat) : Datum → Except PlainFault Datum
  | mapping es =>
    if calls < Json.conversionCalls then .error (.write .tooDeepToConvert)
    else (plainEntries (calls - Json.conversionCalls) es).map .mapping
  | view es =>
    if calls < Json.conversionCalls then .error (.write .tooDeepToConvert)
    else (plainEntries (calls - Json.conversionCalls) es).map .mapping
  | list items =>
    if calls < Json.conversionCalls then .error (.write .tooDeepToConvert)
    else (plainItems (calls - Json.conversionCalls) items).map .list
  | tuple items =>
    if calls < Json.conversionCalls then .error (.write .tooDeepToConvert)
    else (plainItems (calls - Json.conversionCalls) items).map .list
  -- sets and records are left as they are
  | d => .ok d

/-- Items made plain. -/
def plainItems (calls : Nat) : List Datum → Except PlainFault (List Datum)
  | [] => .ok []
  | d :: rest =>
    match plain calls d with
    | .error f => .error f
    | .ok p => (plainItems calls rest).map (p :: ·)

/-- Entries with plain values. -/
def plainEntries (calls : Nat) :
    List (Datum × Datum) → Except PlainFault (List (Datum × Datum))
  | [] => .ok []
  | (k, d) :: rest =>
    match plain calls d with
    | .error f => .error f
    | .ok p => (plainEntries calls rest).map ((k, p) :: ·)

end

/-- The JSON value of a datum that is made plain first. -/
def plainJson (d : Datum) : Except PlainFault Json :=
  match d.plain Json.callsLeft with
  | .error f => .error f
  | .ok p => p.toJson Json.callsLeft

/-! ## Section 3: Tokens -/

/-- A datum between quotation marks, as it is searched for in a text: strings as they are, and what
JSON can write as JSON.  Anything else is shown, unless it is nested too deeply to be written. -/
def token : Datum → Except Json.WriteFault Text
  | str s => .ok s.inQuotes
  | wordMember type member _ => .ok (memberName type member).inQuotes
  | d =>
    match d.toJson Json.callsLeft with
    -- what cannot be written is shown, unless it was too deep
    | .ok v => .ok v.compact.inQuotes
    | .error (.write f) =>
      if f.isTooDeep then .error f else (d.shown Json.callsLeft).map Text.inQuotes
    | .error _ => (d.shown Json.callsLeft).map Text.inQuotes

end FormSchema.Datum
