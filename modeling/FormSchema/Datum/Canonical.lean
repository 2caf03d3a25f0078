import FormSchema.Datum.Display
import FormSchema.Json.Printer

/-!
# Canonical texts of data

Every datum has a normal form in JSON: members of enumerations are what they stand for, paths are
strings, collections are arrays in the order in which they are gone through, mappings and records
are objects, and what is left is shown as in messages.  The canonical text of a datum is that of its
normal form, with the entries of all objects sorted by name.

A record without a form of its own is copied first, and the copy fails on a view, or on a record
within a key.  A datum that is nested too deeply fails on its way to a normal form, as do a key that
cannot be shown, and an integer of too many digits when the text is written.
-/

namespace FormSchema.Datum

/-! ## Section 1: Normal forms -/

mutual

/-- The normal form of a datum.  Of two keys that are shown alike the last value is kept, in the
first place. -/
def normalForm : Datum → Json
  | null => .null
  | bool b => .bool b
  | int n => .int n
  | float x => .float x
  | str s => .str s
  | wordMember _ _ word => .str word
  | numberMember _ _ n => .int n
  | path p => .str p.text
  | list items => .arr (normalItems items)
  | tuple items => .arr (normalItems items)
  | set items => .arr (normalItems items)
  | frozenSet items => .arr (normalItems items)
  -- keys become names before they are sorted, so that two of them can become one
  | mapping es => .obj (Entries.ofMembers (normalEntries es))
  | view es => .obj (Entries.ofMembers (normalEntries es))
  | record _ _ fields => .obj (normalFields fields)
  | octets content => .str (octets content).display
  | typeName name => .str (typeName name).display

/-- The normal forms of some items. -/
def normalItems : List Datum → List Json
  | [] => []
  | d :: rest => normalForm d :: normalItems rest

/-- The entries of a mapping with shown keys and normal values. -/
def normalEntries : List (Datum × Datum) → List (Text × Json)
  | [] => []
  | (k, d) :: rest => (k.display, normalForm d) :: normalEntries rest

/-- The fields of a record with normal values. -/
def normalFields : List (Text × Datum) → List (Text × Json)
  | [] => []
  | (name, d) :: rest => (name, normalForm d) :: normalFields rest

end

/-! ## Section 2: Faults -/

/-- Why a datum has no canonical text. -/
inductive Fault
  | view
  | recordInKey
  | write (f : Json.WriteFault)
  deriving DecidableEq

def Fault.message : Fault → Text
  | .view => "cannot pickle 'mappingproxy' object"
  | .recordInKey => "unhashable type: 'dict'"
  | .write f => f.message

/-- The fault of a datum that is nested too deeply. -/
def Fault.tooDeep : Fault := .write .tooDeepToConvert

/-! ## Section 3: Copies -/

mutual

/-- Whether a key is a record or a tuple with one in it. -/
def hasRecord : Datum → Bool
  | record _ _ _ => true
  | tuple items => anyHasRecord items
  | _ => false

/-- Whether one of some keys is a record or a tuple with one in it. -/
def anyHasRecord : List Datum → Bool
  | [] => false
  | d :: rest => hasRecord d || anyHasRecord rest

end

/-- The calls that the copy of a list, a tuple or a mapping takes. -/
def copyCalls : Nat := 2

/-- The calls that the copy of a set takes, which is taken apart and built again. -/
def rebuildCalls : Nat := 5

mutual

/-- The first fault in a part of a record that is copied with so many calls left. -/
def copyFault? (calls : Nat) : Datum → Option Fault
  | view _ => some .view
  | list items =>
    if calls < copyCalls then some .tooDeep else copyFaultOfItems? (calls - copyCalls) items
  | tuple items =>
    if calls < copyCalls then some .tooDeep else copyFaultOfItems? (calls - copyCalls) items
  | set items =>
    if calls < rebuildCalls then some .tooDeep else copyFaultOfItems? (calls - rebuildCalls) items
  | frozenSet items =>
    if calls < rebuildCalls then some .tooDeep else copyFaultOfItems? (calls - rebuildCalls) items
  | mapping es =>
    if calls < copyCalls then some .tooDeep else copyFaultOfEntries? (calls - copyCalls) es
  | record _ _ fields => if calls < 1 then some .tooDeep else copyFaultOfFields? (calls - 1) fields
  | _ => none

/-- The first fault in some items. -/
def copyFaultOfItems? (calls : Nat) : List Datum → Option Fault
  | [] => none
  | d :: rest => (copyFault? calls d).or (copyFaultOfItems? calls rest)

/-- The first fault in some entries.  The copy of a record is no key. -/
def copyFaultOfEntries? (calls : Nat) : List (Datum × Datum) → Option Fault
  | [] => none
  | (k, d) :: rest =>
    ((copyFault? calls k).or ((copyFault? calls d).or
      (if hasRecord k then some .recordInKey else none))).or (copyFaultOfEntries? calls rest)

/-- The first fault in some fields. -/
def copyFaultOfFields? (calls : Nat) : List (Text × Datum) → Option Fault
  | [] => none
  | (_, d) :: rest => (copyFault? calls d).or (copyFaultOfFields? calls rest)

end

/-! ## Section 4: Conversion -/

/-- The calls that the conversion of a record takes: that of the object of its fields, and one to
make the object. -/
def recordCalls : Nat := Json.conversionCalls + 1

mutual

/-- The first fault that is met when a datum is converted to its normal form with so many calls
left.  The fields of a record without a form of its own are copied before they are converted. -/
def fault? (calls : Nat) : Datum → Option Fault
  | list items =>
    if calls < Json.conversionCalls then some .tooDeep
    else faultOfItems? (calls - Json.conversionCalls) items
  | tuple items =>
    if calls < Json.conversionCalls then some .tooDeep
    else faultOfItems? (calls - Json.conversionCalls) items
  | set items =>
    if calls < Json.conversionCalls then some .tooDeep
    else faultOfItems? (calls - Json.conversionCalls) items
  | frozenSet items =>
    if calls < Json.conversionCalls then some .tooDeep
    else faultOfItems? (calls - Json.conversionCalls) items
  | mapping es =>
    if calls < Json.conversionCalls then some .tooDeep
    else faultOfEntries? (calls - Json.conversionCalls) es
  | view es =>
    if calls < Json.conversionCalls then some .tooDeep
    else faultOfEntries? (calls - Json.conversionCalls) es
  | record _ ownForm fields =>
    if calls < recordCalls then some .tooDeep
    else
      -- without a form of its own the record is copied as a whole first
      (if ownForm then none else copyFaultOfFields? (calls - 1) fields).or
        (faultOfFields? (calls - recordCalls) fields)
  | _ => none

/-- The first fault in some items. -/
def faultOfItems? (calls : Nat) : List Datum → Option Fault
  | [] => none
  | d :: rest => (fault? calls d).or (faultOfItems? calls rest)

/-- The first fault in some entries, each key of which is shown before its value is converted. -/
def faultOfEntries? (calls : Nat) : List (Datum × Datum) → Option Fault
  | [] => none
  | (k, d) :: rest =>
    ((showFault? calls k).map .write).or ((fault? calls d).or (faultOfEntries? calls rest))

/-- The first fault in some fields. -/
def faultOfFields? (calls : Nat) : List (Text × Datum) → Option Fault
  | [] => none
  | (_, d) :: rest => (fault? calls d).or (faultOfFields? calls rest)

end

/-! ## Section 5: Canonical texts -/

/-- The canonical text of a datum, or why it has none: the datum is converted, and then its normal
form is written with the names of all objects sorted. -/
def canonical (indent : Option Nat) (d : Datum) : Except Fault Text :=
  match d.fault? Json.callsLeft with
  | some f => .error f
  | none =>
    match d.normalForm.sortNames.encodeFault? Json.callsLeft with
    | some f => .error (.write f)
    | none => .ok (d.normalForm.canonical indent)

end FormSchema.Datum
