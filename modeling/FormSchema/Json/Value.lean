import FormSchema.Decimal.Binary64
import FormSchema.Text.CodePoint

/-!
# JSON values

The values that a JSON text denotes.  Integers are exact and apart from fractional numbers, and an
object is the list of its entries in order, each name once.  An association list keeps the place
of the first entry of a name and the value of the last.
-/

namespace FormSchema

/-! ## Section 1: Entries -/

/-- The entries of an object: names with what stands under them, in order. -/
abbrev Entries (α : Type) := List (Text × α)

namespace Entries

/-- What stands under a name. -/
def get? {α : Type} (name : Text) : Entries α → Option α
  | [] => none
  | (k, v) :: rest => if k = name then some v else get? name rest

def has {α : Type} (name : Text) (es : Entries α) : Bool := (get? name es).isSome

/-- The entries with `value` under `name`: in the place of the old value, or at the end. -/
def put {α : Type} (name : Text) (value : α) : Entries α → Entries α
  | [] => [(name, value)]
  | (k, v) :: rest => if k = name then (k, value) :: rest else (k, v) :: put name value rest

/-- The entries that a list of members describes, a repeated name taking its last value in its
first place. -/
def ofMembers {α : Type} (members : List (Text × α)) : Entries α :=
  members.foldl (fun es m => put m.1 m.2 es) []

def names {α : Type} (es : Entries α) : List Text := es.map (·.1)

end Entries

/-! ## Section 2: Values -/

/-- A JSON value. -/
inductive Json
  | null
  | bool (b : Bool)
  | int (n : Int)
  | float (x : Binary64)
  | str (s : Text)
  | arr (items : List Json)
  | obj (entries : List (Text × Json))
  deriving Inhabited

namespace Json

/-- Whether a value is the string `s`. -/
def isText (s : Text) : Json → Bool
  | str t => t = s
  | _ => false

/-- The entries of an object. -/
def entries? : Json → Option (Entries Json)
  | obj es => some es
  | _ => none

/-- The name of the kind of a value, as messages give it. -/
def kindName : Json → Text
  | null => "NoneType"
  | bool _ => "bool"
  | int _ => "int"
  | float _ => "float"
  | str _ => "str"
  | arr _ => "list"
  | obj _ => "dict"

/-- The least depth of nesting that a value needs: nothing for a scalar, one more than its parts
for an array or an object. -/
def depth : Json → Nat
  | arr items => depthOfItems items + 1
  | obj es => depthOfEntries es + 1
  | _ => 0
where
  /-- The greatest depth among the items of an array. -/
  depthOfItems : List Json → Nat
    | [] => 0
    | v :: rest => max (depth v) (depthOfItems rest)
  /-- The greatest depth among the values of an object. -/
  depthOfEntries : List (Text × Json) → Nat
    | [] => 0
    | (_, v) :: rest => max (depth v) (depthOfEntries rest)

end Json

end FormSchema
