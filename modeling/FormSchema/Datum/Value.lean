import FormSchema.Json.Value
import FormSchema.Path
import FormSchema.Text.Utf8

/-!
# Data

The values that a host can hand over to be written as JSON.  There are more kinds of them than JSON
has: tuples and sets beside lists, mappings whose keys need not be strings, octets, paths, members
of enumerations, records with named fields, and types.  A set is given in the order in which it is
gone through.
-/

namespace FormSchema

/-- A value of a host.  A member of an enumeration has the name of its type, its own name, and the
word or number that it stands for.  A record that is `ownForm` brings a JSON form of its own, the
object of its fields; any other record is copied field by field. -/
inductive Datum
  | null
  | bool (b : Bool)
  | int (n : Int)
  | float (x : Binary64)
  | str (s : Text)
  | list (items : List Datum)
  | tuple (items : List Datum)
  | set (items : List Datum)
  | frozenSet (items : List Datum)
  | mapping (entries : List (Datum × Datum))
  | view (entries : List (Datum × Datum))
  | octets (content : Octets)
  | path (p : Path)
  | wordMember (type member word : Text)
  | numberMember (type member : Text) (number : Int)
  | record (type : Text) (ownForm : Bool) (fields : List (Text × Datum))
  | typeName (name : Text)
  deriving Inhabited

namespace Datum

/-- The name of the kind of a value, as messages give it. -/
def kindName : Datum → Text
  | null => "NoneType"
  | bool _ => "bool"
  | int _ => "int"
  | float _ => "float"
  | str _ => "str"
  | list _ => "list"
  | tuple _ => "tuple"
  | set _ => "set"
  | frozenSet _ => "frozenset"
  | mapping _ => "dict"
  | view _ => "mappingproxy"
  | octets _ => "bytes"
  | path _ => "PosixPath"
  | wordMember type _ _ => type
  | numberMember type _ _ => type
  | record type _ _ => type
  | typeName _ => "type"

mutual

def ofJson : Json → Datum
  | .null => null
  | .bool b => bool b
  | .int n => int n
  | .float x => float x
  | .str s => str s
  | .arr items => list (ofJsonItems items)
  | .obj es => mapping (ofJsonEntries es)

def ofJsonItems : List Json → List Datum
  | [] => []
  | v :: rest => ofJson v :: ofJsonItems rest

/-- The entries of an object as those of a mapping. -/
def ofJsonEntries : List (Text × Json) → List (Datum × Datum)
  | [] => []
  | (k, v) :: rest => (str k, ofJson v) :: ofJsonEntries rest

end

end Datum

end FormSchema
