import FormSchema.Text.Lines

/-!
# The rules

The rules that a schema document can break, their identifiers, and the form that every rule
identifier has: two to four capitals, an underscore, a word that begins with a capital, an
underscore and three digits.
-/

namespace FormSchema

/-! ## Section 1: Rules -/

/-- A rule that a document can break. -/
inductive Rule
  | invalidJson
  | rootObject
  | keyMismatch
  | missingProperties
  | dataType
  | htmlEditor
  deriving DecidableEq

namespace Rule

def all : List Rule :=
  [invalidJson, rootObject, keyMismatch, missingProperties, dataType, htmlEditor]

def id : Rule → Text
  | invalidJson => "WS_INVALID_JSON_001"
  | rootObject => "WS_ROOT_OBJECT_001"
  | keyMismatch => "WS_KEY_MISMATCH_001"
  | missingProperties => "WS_MISSING_PROPS_001"
  | dataType => "WS_DATA_TYPE_001"
  | htmlEditor => "WS_HTML_EDITOR_001"

end Rule

/-! ## Section 2: The form of identifiers -/

namespace RuleId

def isCapital : CodePoint → Bool
  | .scalar c => 'A' ≤ c && c ≤ 'Z'
  | .surrogate _ => false

/-- What the middle word of an identifier is made of: capitals, digits and underscores. -/
def isWordPart (c : CodePoint) : Bool := isCapital c || c.isDigit || c = .scalar '_'

/-- An underscore and three digits. -/
def isNumberPart : Text → Bool
  | [u, a, b, c] => u = .scalar '_' && a.isDigit && b.isDigit && c.isDigit
  | _ => false

/-- The middle word, then an underscore and three digits. -/
def isTail (t : Text) : Bool :=
  let word := t.take (t.length - 4)
  (match word with
    | [] => false
    | c :: _ => isCapital c) &&
    word.all isWordPart && isNumberPart (t.drop (t.length - 4))

/-- A whole identifier. -/
def isWhole (t : Text) : Bool :=
  let area := t.takeWhile isCapital
  2 ≤ area.length && area.length ≤ 4 &&
    (match t.drop area.length with
      | [] => false
      | u :: rest => u = .scalar '_' && isTail rest)

/-- Whether a text has the form of an identifier; one line feed may follow it. -/
def isValid (t : Text) : Bool := isWhole t.dropFinalLineFeed

/-- The form of identifiers as a regular expression. -/
def pattern : Text := "^[A-Z]\x7b2,4\x7d_[A-Z][A-Z0-9_]*_[0-9]\x7b3\x7d$"

end RuleId

end FormSchema
