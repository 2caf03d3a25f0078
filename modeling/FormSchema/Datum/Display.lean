import FormSchema.Datum.Value
import FormSchema.Decimal.Layout
import FormSchema.Json.Limits
import FormSchema.Text.Lines
import FormSchema.Text.Quoted

/-!
# Data in messages

How a message shows a datum: strings inside other data are quoted, a collection shows its items
between the brackets of its kind, and a record shows its fields by name.
-/

namespace FormSchema.Datum

/-! ## Section 1: Octets -/

/-- An octet between quotation marks: as a character if it is printable ASCII, else escaped. -/
def escapeOctet (mark : Char) (b : UInt8) : Text :=
  if b.toNat = mark.toNat then [.scalar '\\', .scalar mark]
  else if b.toNat = 0x5C then "\\\\"
  else if b.toNat = 0x09 then "\\t"
  else if b.toNat = 0x0A then "\\n"
  else if b.toNat = 0x0D then "\\r"
  else if 0x20 ≤ b.toNat && b.toNat < 0x7F then [CodePoint.ofNat b.toNat]
  else "\\x" ++ Quoted.hexPadded 2 b.toNat

/-- The quotation mark that octets are put between: single unless a single one and no double one
is among them. -/
def octetMark (content : Octets) : Char :=
  if content.contains 0x27 && !content.contains 0x22 then '"' else '\x27'

/-- Octets in a message. -/
def inspectOctets (content : Octets) : Text :=
  let mark := octetMark content
  .scalar 'b' :: .scalar mark :: content.flatMap (escapeOctet mark) ++ [.scalar mark]

/-! ## Section 2: Data -/

/-- Shown items between two brackets. -/
def between (opening closing : Text) (shown : List Text) : Text :=
  opening ++ Text.join ", " shown ++ closing

/-- A member of an enumeration by its type and name. -/
def memberName (type member : Text) : Text := type ++ "." ++ member

/-- Shown items of a tuple; a lone one is followed by a comma. -/
def inTuple : List Text → Text
  | [shown] => "(" ++ shown ++ ",)"
  | shown => between "(" ")" shown

/-- Shown items of a set; the empty one is shown by its constructor. -/
def inSet (shown : List Text) : Text :=
  if shown.isEmpty then "set()" else between "\x7b" "\x7d" shown

/-- Shown items of a frozen set. -/
def inFrozenSet (shown : List Text) : Text :=
  if shown.isEmpty then "frozenset()" else between "frozenset(\x7b" "\x7d)" shown

mutual

/-- A datum with its strings quoted. -/
def inspect : Datum → Text
  | null => "None"
  | bool true => "True"
  | bool false => "False"
  | int n => Text.ofInt n
  | float x => x.text .display
  | str s => Quoted.quote s
  | list items => between "[" "]" (inspectItems items)
  | tuple items => inTuple (inspectItems items)
  | set items => inSet (inspectItems items)
  | frozenSet items => inFrozenSet (inspectItems items)
  | mapping es => between "\x7b" "\x7d" (inspectEntries es)
  | view es => between "mappingproxy(\x7b" "\x7d)" (inspectEntries es)
  | octets content => inspectOctets content
  | path p => "PosixPath(" ++ Quoted.quote p.text ++ ")"
  | wordMember type member word =>
    "<" ++ memberName type member ++ ": " ++ Quoted.quote word ++ ">"
  | numberMember type member number =>
    "<" ++ memberName type member ++ ": " ++ Text.ofInt number ++ ">"
  | record type _ fields => type ++ between "(" ")" (inspectFields fields)
  | typeName name => "<class " ++ Quoted.quote name ++ ">"

def inspectItems : List Datum → List Text
  | [] => []
  | d :: rest => inspect d :: inspectItems rest

/-- Shown entries of a mapping. -/
def inspectEntries : List (Datum × Datum) → List Text
  | [] => []
  | (k, v) :: rest => (inspect k ++ ": " ++ inspect v) :: inspectEntries rest

/-- Shown fields of a record. -/
def inspectFields : List (Text × Datum) → List Text
  | [] => []
  | (name, v) :: rest => (name ++ "=" ++ inspect v) :: inspectFields rest

end

/-- A datum as a message shows it at the top: strings and paths as they are, a member of an
enumeration of words by its name, one of an enumeration of numbers by its number, and a view like
the mapping behind it. -/
def display : Datum → Text
  | str s => s
  | path p => p.text
  | wordMember type member _ => memberName type member
  | numberMember _ _ number => Text.ofInt number
  | view es => inspect (mapping es)
  | d => inspect d

/-! ## Section 3: What cannot be shown -/

mutual

/-- The first fault that is met when a datum is shown with so many calls left.  Most collections
take one of them while their parts are shown; a frozen set shows a set that is made of it, and a
record is shown through a wrapper and a template. -/
def showFault? (calls : Nat) : Datum → Option Json.WriteFault
  | int n => if Json.fitsDigits n then none else some .longInteger
  | numberMember _ _ n => if Json.fitsDigits n then none else some .longInteger
  | list items => if calls < 1 then some .tooDeepToShow else showFaultOfItems? (calls - 1) items
  | tuple items => if calls < 1 then some .tooDeepToShow else showFaultOfItems? (calls - 1) items
  | set items => if calls < 1 then some .tooDeepToShow else showFaultOfItems? (calls - 1) items
  | frozenSet items =>
    -- one call for the collection, and one for the set that it shows
    if calls < 2 then some .tooDeepToShow else showFaultOfItems? (calls - 2) items
  | mapping es => if calls < 1 then some .tooDeepToShow else showFaultOfEntries? (calls - 1) es
  | view es => if calls < 1 then some .tooDeepToShow else showFaultOfEntries? (calls - 1) es
  | record _ _ fields =>
    if calls < 3 then some .tooDeepToShow else showFaultOfFields? (calls - 3) fields
  | _ => none

/-- The first fault in some items. -/
def showFaultOfItems? (calls : Nat) : List Datum → Option Json.WriteFault
  | [] => none
  | d :: rest => (showFault? calls d).or (showFaultOfItems? calls rest)

/-- The first fault in the keys and values of some entries. -/
def showFaultOfEntries? (calls : Nat) : List (Datum × Datum) → Option Json.WriteFault
  | [] => none
  | (k, d) :: rest =>
    (showFault? calls k).or ((showFault? calls d).or (showFaultOfEntries? calls rest))

/-- The first fault in some fields. -/
def showFaultOfFields? (calls : Nat) : List (Text × Datum) → Option Json.WriteFault
  | [] => none
  | (_, d) :: rest => (showFault? calls d).or (showFaultOfFields? calls rest)

end

/-- A datum as a message shows it at the top, with so many calls left. -/
def shown (calls : Nat) (d : Datum) : Except Json.WriteFault Text :=
  match d.showFault? calls with
  | some f => .error f
  | none => .ok d.display

end FormSchema.Datum
