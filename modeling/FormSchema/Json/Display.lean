import FormSchema.Decimal.Layout
import FormSchema.Json.Limits
import FormSchema.Text.Lines
import FormSchema.Text.Quoted

/-!
# JSON values in messages

How a message shows a value: a string at the top as it is, strings inside brackets quoted, and the
words `None`, `True` and `False` for the constants.
-/

namespace FormSchema.Json

mutual

/-- A value with its strings quoted. -/
def inspect : Json → Text
  | .null => "None"
  | .bool true => "True"
  | .bool false => "False"
  | .int n => Text.ofInt n
  | .float x => x.text .display
  | .str s => Quoted.quote s
  | .arr items => "[" ++ Text.join ", " (inspectItems items) ++ "]"
  | .obj es => "\x7b" ++ Text.join ", " (inspectEntries es) ++ "\x7d"

/-- The items of an array with their strings quoted. -/
def inspectItems : List Json → List Text
  | [] => []
  | v :: rest => inspect v :: inspectItems rest

/-- The entries of an object with their names and strings quoted. -/
def inspectEntries : List (Text × Json) → List Text
  | [] => []
  | (k, v) :: rest => (Quoted.quote k ++ ": " ++ inspect v) :: inspectEntries rest

end

/-- A value as a message shows it. -/
def display : Json → Text
  | .str s => s
  | v => inspect v

/-- A value as a message shows it, with so many calls left. -/
def shown (calls : Nat) (v : Json) : Except WriteFault Text :=
  match v.showFault? calls with
  | some f => .error f
  | none => .ok v.display

end FormSchema.Json
