import FormSchema.Diagnostic
import FormSchema.Json.Display
import FormSchema.Json.Printer
import FormSchema.Text.Lines

/-!
# Anchors

A parsed document does not tell where its parts stood, so a finding is anchored by a search in the
text: on the first line that holds the quoted name and, if a value is expected, the quoted value as
well.  The range is the leftmost occurrence of the value on that line, or of the name if no value is
expected.

An expected value that is no string is written as JSON for the search, and that can fail.  Only one
of the two ways to fail is answered by showing the value as messages do, and there showing it fails
just as well; so there is no range, not even the empty one, for a value that cannot be written.
-/

namespace FormSchema.Anchor

/-! ## Section 1: Tokens -/

/-- What is searched for a value with so many calls left: the value between quotation marks, a
string as it is and any other value as JSON. -/
def quote (calls : Nat) : Json → Except Json.WriteFault Text
  | .str s => .ok s.inQuotes
  | v =>
    match v.encode calls with
    | .ok written => .ok written.inQuotes
    | .error f =>
      -- a value without a JSON form is shown instead, but a full stack ends the search
      if f.isTooDeep then .error f else (v.shown calls).map Text.inQuotes

/-- The token of an expected value, if one is expected; null and the empty string stand for no
expectation. -/
def expectedToken (calls : Nat) : Json → Except Json.WriteFault (Option Text)
  | .null => .ok none
  | .str [] => .ok none
  | v => (quote calls v).map some

/-! ## Section 2: The search -/

/-- A column and a width on one line: the leftmost occurrence of the value token, or of the name
token if there is no value token.  The line has to hold both. -/
def onLine? (name : Text) (value : Option Text) (line : Text) : Option (Nat × Nat) :=
  match Text.find? name line with
  | none => none
  | some column =>
    match value with
    | none => some (column, name.length)
    | some v => (Text.find? v line).map fun column => (column, v.length)

/-- The range of the tokens on the first of some lines that holds them; the lines are counted from
`i`. -/
def firstLine? (name : Text) (value : Option Text) (i : Nat) : List Text → Option Range
  | [] => none
  | line :: rest =>
    match onLine? name value line with
    | some (column, width) => some (Range.ofCoordinates i column i (column + width : Nat))
    | none => firstLine? name value (i + 1) rest

/-- The range of the tokens in a text; the empty range at the start if no line holds them. -/
def search (text name : Text) (value : Option Text) : Range :=
  (firstLine? name value 0 text.lines).getD Range.zero

/-- The range of a property in a text, or of the expected value of the property, with so many calls
left.  The token of the value is made before the text is looked at. -/
def locate (calls : Nat) (text name : Text) (expected : Json) : Except Json.WriteFault Range :=
  (expectedToken calls expected).map (search text name.inQuotes)

/-- The range of the value of a property `key`. -/
def locateKey (calls : Nat) (text : Text) (value : Json) : Except Json.WriteFault Range :=
  locate calls text "key" value

end FormSchema.Anchor
