import FormSchema.Json.Limits
import FormSchema.Text.Lines

/-!
# Why a text is not JSON

The causes for which reading a JSON text fails.  Most causes hold at a place in the text, given as
the part of the text that begins there; the message counts lines and columns from one.
-/

namespace FormSchema.Json

/-! ## Section 1: Causes -/

/-- What is wrong at a place of the text. -/
inductive Cause
  | expectingValue
  | expectingName
  | expectingColon
  | expectingComma
  | extraData
  | unterminatedString
  | controlCharacter
  | badEscape
  | badCodeUnit
  | byteOrderMark
  deriving DecidableEq

/-- Why reading failed: a cause at the place where `rest` begins, a constant that strict JSON does
not have, an integer of too many digits, or brackets nested too deeply. -/
inductive Fault
  | atPlace (cause : Cause) (rest : Text)
  | constant (name : Text)
  | tooManyDigits (count : Nat)
  | tooDeep

/-! ## Section 2: Messages -/

def Cause.message : Cause → Text
  | .expectingValue => "Expecting value"
  | .expectingName => "Expecting property name enclosed in double quotes"
  | .expectingColon => "Expecting ':' delimiter"
  | .expectingComma => "Expecting ',' delimiter"
  | .extraData => "Extra data"
  | .unterminatedString => "Unterminated string starting at"
  | .controlCharacter => "Invalid control character at"
  | .badEscape => "Invalid \\escape"
  | .badCodeUnit => "Invalid \\uXXXX escape"
  | .byteOrderMark => "Unexpected UTF-8 BOM (decode using utf-8-sig)"

/-- A place in a text: its offset, and its line and column counted from one. -/
structure Place where
  line : Nat
  column : Nat
  offset : Nat

/-- The place that lies behind the part `before` of a text. -/
def Place.after (before : Text) : Place where
  line := before.count .lineFeed + 1
  column := (before.reverse.takeWhile (· ≠ .lineFeed)).length + 1
  offset := before.length

/-- The place in `text` at which its final part `rest` begins. -/
def Place.ofRest (text rest : Text) : Place :=
  Place.after (text.take (text.length - rest.length))

/-- A place in words. -/
def Place.message (p : Place) : Text :=
  "line " ++ Text.ofNat p.line ++ " column " ++ Text.ofNat p.column ++
    " (char " ++ Text.ofNat p.offset ++ ")"

/-- The wording for an integer literal of `count` digits, more than are read. -/
def tooManyDigitsMessage (count : Nat) : Text :=
  "Exceeds the limit (" ++ Text.ofNat maxIntegerDigits ++
    " digits) for integer string conversion: value has " ++ Text.ofNat count ++
    " digits; use sys.set_int_max_str_digits() to increase the limit"

/-- The message of a fault found while reading `text`. -/
def Fault.message (text : Text) : Fault → Text
  | .atPlace cause rest => cause.message ++ ": " ++ (Place.ofRest text rest).message
  | .constant name => "Unexpected token " ++ name
  | .tooManyDigits count => tooManyDigitsMessage count
  | .tooDeep => "maximum nesting depth exceeded"

/-- Whether a fault names a place in the text. -/
def Fault.hasPlace : Fault → Bool
  | .atPlace _ _ => true
  | _ => false

end FormSchema.Json
