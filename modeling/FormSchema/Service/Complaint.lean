import FormSchema.Json.Fault
import FormSchema.Text.Quoted

/-!
# Complaints

What can be wrong with the body of a request and with its fields, and how a response says so: what
is wrong, where, in which words, and with which part of the body.
-/

namespace FormSchema.Service

/-! ## Section 1: Problems -/

/-- What is wrong with a body or a field. -/
inductive Problem
  | missing
  | notJson (cause : Json.Cause)
  | notObject
  | notText
  | notScalars
  | notInteger
  | notNumeral
  | tooManyDigits
  | fractional
  | notFinite
  | negative
  | notListed (choices : List Text)

def Problem.word : Problem → Text
  | .missing => "missing"
  | .notJson _ => "json_invalid"
  | .notObject => "model_attributes_type"
  | .notText => "string_type"
  | .notScalars => "string_unicode"
  | .notInteger => "int_type"
  | .notNumeral => "int_parsing"
  | .tooManyDigits => "int_parsing_size"
  | .fractional => "int_from_float"
  | .notFinite => "finite_number"
  | .negative => "greater_than_equal"
  | .notListed _ => "literal_error"

/-- The choices of a field in words. -/
def inWords (choices : List Text) : Text := Text.join " or " (choices.map Quoted.quote)

def Problem.message : Problem → Text
  | .missing => "Field required"
  | .notJson _ => "JSON decode error"
  | .notObject => "Input should be a valid dictionary or object to extract fields from"
  | .notText => "Input should be a valid string"
  | .notScalars =>
    "Input should be a valid string, unable to parse raw data as a unicode string"
  | .notInteger => "Input should be a valid integer"
  | .notNumeral => "Input should be a valid integer, unable to parse string as an integer"
  | .tooManyDigits => "Unable to parse input string as an integer, exceeded maximum size"
  | .fractional => "Input should be a valid integer, got a number with a fractional part"
  | .notFinite => "Input should be a finite number"
  | .negative => "Input should be greater than or equal to 0"
  | .notListed choices => "Input should be " ++ inWords choices

/-- What a problem says apart from its message, if anything. -/
def Problem.context? : Problem → Option Json
  | .notJson cause => some (.obj [("error", .str cause.message)])
  | .negative => some (.obj [("ge", .int 0)])
  | .notListed choices => some (.obj [("expected", .str (inWords choices))])
  | _ => none

/-! ## Section 2: Complaints -/

/-- Where in a request a problem lies: the body, a field of it, or an offset in its text. -/
inductive Spot
  | body
  | field (name : Text)
  | offset (n : Nat)

def Spot.toJson : Spot → Json
  | .body => .arr [.str "body"]
  | .field name => .arr [.str "body", .str name]
  | .offset n => .arr [.str "body", .int n]

/-- A complaint: a spot, what is wrong there, and the value that is found there. -/
structure Complaint where
  spot : Spot
  problem : Problem
  input : Json

def Complaint.toJson (c : Complaint) : Json :=
  let entries : Entries Json := [("type", .str c.problem.word), ("loc", c.spot.toJson),
    ("msg", .str c.problem.message), ("input", c.input)]
  match c.problem.context? with
  | none => .obj entries
  | some context => .obj (entries.put "ctx" context)

end FormSchema.Service
