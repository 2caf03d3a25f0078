import FormSchema.Json.Printer
import FormSchema.Text.Utf8

/-!
# Delivery of responses

A response is delivered as JSON in UTF-8.  Neither writes everything that a value can hold: JSON has
no infinite numbers, and UTF-8 has no surrogates.  A successful response is written string by string
and any other as a whole, which shows in the places that are reported.
-/

namespace FormSchema.Service

/-! ## Section 1: Responses -/

/-- A response: its status, and its body if it has one. -/
structure Response where
  status : Nat
  body : Option Json

/-- Why a response cannot be delivered: a number that is infinite or none, surrogates in its text,
or surrogates in one of its strings. -/
inductive DeliveryFault
  | notFinite
  | surrogates (u : Utf8.Unencodable)
  | surrogatesInString (u : Utf8.Unencodable)

def DeliveryFault.message : DeliveryFault → Text
  | .notFinite => "Out of range float values are not JSON compliant"
  | .surrogates u => u.message
  | .surrogatesInString u => "Error serializing to JSON: UnicodeEncodeError: " ++ u.message

/-! ## Section 2: What a value holds -/

mutual

/-- The values inside a value that are neither arrays nor objects, in order. -/
def scalars : Json → List Json
  | .arr items => scalarsOfItems items
  | .obj es => scalarsOfEntries es
  | v => [v]

/-- The scalars in the items of an array. -/
def scalarsOfItems : List Json → List Json
  | [] => []
  | v :: rest => scalars v ++ scalarsOfItems rest

/-- The scalars under some names. -/
def scalarsOfEntries : List (Text × Json) → List Json
  | [] => []
  | (_, v) :: rest => scalars v ++ scalarsOfEntries rest

end

/-- Whether a value is a number that is infinite or none. -/
def isUnbounded : Json → Bool
  | .float x => !x.isFinite
  | _ => false

/-- The first surrogates in a string. -/
def surrogatesIn? : Json → Option Utf8.Unencodable
  | .str s => Utf8.unencodable? s
  | _ => none

/-- What the names begin with whose values are never sent back. -/
def withheldStart : Text := "_sa"

mutual

/-- A value without all that is never sent back. -/
def disclosed : Json → Json
  | .arr items => .arr (disclosedItems items)
  | .obj es => .obj (disclosedEntries es)
  | v => v

/-- The items of an array without all that is never sent back. -/
def disclosedItems : List Json → List Json
  | [] => []
  | v :: rest => disclosed v :: disclosedItems rest

/-- Entries without those that are never sent back. -/
def disclosedEntries : List (Text × Json) → List (Text × Json)
  | [] => []
  | (k, v) :: rest =>
    if Text.startsWith k withheldStart then disclosedEntries rest
    else (k, disclosed v) :: disclosedEntries rest

end

/-! ## Section 3: Delivery -/

/-- Why the body of a successful response cannot be delivered, if so. -/
def faultByString? (body : Json) : Option DeliveryFault :=
  ((scalars body).findSome? surrogatesIn?).map .surrogatesInString

/-- Why the body of any other response cannot be delivered, if so. -/
def faultAsWhole? (body : Json) : Option DeliveryFault :=
  if (scalars body).any isUnbounded then some .notFinite
  else (Utf8.unencodable? body.dense).map .surrogates

/-- A response, if it can be delivered. -/
def Response.deliver (r : Response) : Except DeliveryFault Response :=
  match r.body.bind (if r.status = 200 then faultByString? else faultAsWhole?) with
  | some fault => .error fault
  | none => .ok r

end FormSchema.Service
