import FormSchema.Decimal.Layout
import FormSchema.Json.Limits
import FormSchema.Text.Lines

/-!
# Writing JSON texts

The layout of JSON values, on one line or with one item a line, with every code point above ASCII
escaped or written as it is.  The canonical text of a value has its entries sorted by name, writes
all printable code points as they are and ends with a line feed.

Every value has a layout, but a writer gives it only within the limits of its host: `encode` and
`dump` are the writers, and fail where the value is nested too deeply or has an integer of too many
digits.
-/

namespace FormSchema.Json

/-! ## Section 1: Strings -/

/-- A digit of a number below 16. -/
def hexDigit (n : Nat) : CodePoint := .scalar (Nat.digitChar n)

/-- A code unit as a backslash, the letter `u` and four hexadecimal digits. -/
def escapeUnit (n : Nat) : Text :=
  [.scalar '\\', .scalar 'u', hexDigit (n / 0x1000 % 16), hexDigit (n / 0x100 % 16),
    hexDigit (n / 0x10 % 16), hexDigit (n % 16)]

/-- A code point as one escaped code unit, or as the two of its surrogate pair. -/
def escapeCodePoint (c : CodePoint) : Text :=
  if c.toNat < 0x10000 then escapeUnit c.toNat
  else
    let n := c.toNat - 0x10000
    escapeUnit (0xD800 + n / 0x400) ++ escapeUnit (0xDC00 + n % 0x400)

/-- A code point inside a string.  Quotation mark, backslash and control characters are escaped
always, everything outside printable ASCII only if `ascii` asks for it. -/
def escapeInString (ascii : Bool) (c : CodePoint) : Text :=
  if c = .scalar '"' then "\\\""
  else if c = .scalar '\\' then "\\\\"
  else if c = .scalar '\n' then "\\n"
  else if c = .scalar '\x0d' then "\\r"
  else if c = .scalar '\t' then "\\t"
  else if c = .scalar '\x08' then "\\b"
  else if c = .scalar '\x0c' then "\\f"
  else if c.toNat < 0x20 then escapeUnit c.toNat
  -- a delete character counts as outside of ASCII here
  else if ascii && 0x7E < c.toNat then escapeCodePoint c
  else [c]

/-- A string between quotation marks. -/
def printString (ascii : Bool) (s : Text) : Text :=
  .scalar '"' :: s.flatMap (escapeInString ascii) ++ [.scalar '"']

/-! ## Section 2: Values -/

/-- How a value is laid out: on one line, or with `indent` spaces for each depth; whether only ASCII
may be used; and what stands behind a colon, and on one line behind a comma. -/
structure Style where
  indent : Option Nat
  ascii : Bool
  gap : Text

/-- The start of a line at a depth, if the style breaks lines. -/
def Style.newline (style : Style) (depth : Nat) : Text :=
  match style.indent with
  | none => []
  | some n => .lineFeed :: List.replicate (n * depth) (.scalar ' ')

/-- What stands between neighbours at a depth. -/
def Style.separator (style : Style) (depth : Nat) : Text :=
  match style.indent with
  | none => .scalar ',' :: style.gap
  | some _ => .scalar ',' :: style.newline depth

/-- Printed parts of an array or object between its brackets; without parts nothing stands between
the brackets. -/
def Style.enclose (style : Style) (depth : Nat) (opening closing : Char) (parts : List Text) :
    Text :=
  if parts.isEmpty then [.scalar opening, .scalar closing]
  else
    .scalar opening :: style.newline (depth + 1) ++
      Text.join (style.separator (depth + 1)) parts ++ style.newline depth ++ [.scalar closing]

mutual

/-- The layout of a value at a depth. -/
def printAt (style : Style) (depth : Nat) : Json → Text
  | .null => "null"
  | .bool true => "true"
  | .bool false => "false"
  | .int n => Text.ofInt n
  | .float x => x.text .json
  | .str s => printString style.ascii s
  | .arr items => style.enclose depth '[' ']' (printItems style (depth + 1) items)
  | .obj es => style.enclose depth '\x7b' '\x7d' (printEntries style (depth + 1) es)

/-- The layouts of the items of an array, each at a depth. -/
def printItems (style : Style) (depth : Nat) : List Json → List Text
  | [] => []
  | v :: rest => printAt style depth v :: printItems style depth rest

/-- The layouts of the entries of an object, each at a depth. -/
def printEntries (style : Style) (depth : Nat) : List (Text × Json) → List Text
  | [] => []
  | (k, v) :: rest =>
    (printString style.ascii k ++ .scalar ':' :: style.gap ++ printAt style depth v) ::
      printEntries style depth rest

end

/-- The layout of a value. -/
def print (style : Style) (v : Json) : Text := printAt style 0 v

/-- A value on one line of ASCII. -/
def compact (v : Json) : Text := print ⟨none, true, " "⟩ v

/-- A value on one line of any code points, without any space between its parts. -/
def dense (v : Json) : Text := print ⟨none, false, []⟩ v

/-- A value in ASCII with four spaces for each depth. -/
def pretty (v : Json) : Text := print ⟨some 4, true, " "⟩ v

/-! ## Section 3: Canonical texts -/

/-- Entries in the order of their names. -/
def sortByName (es : List (Text × Json)) : List (Text × Json) :=
  es.mergeSort fun a b => Text.le a.1 b.1

mutual

/-- A value with the entries of all its objects sorted by name. -/
def sortNames : Json → Json
  | .arr items => .arr (sortNamesOfItems items)
  | .obj es => .obj (sortByName (sortNamesOfEntries es))
  | v => v

/-- The items of an array with the entries of all objects in them sorted. -/
def sortNamesOfItems : List Json → List Json
  | [] => []
  | v :: rest => sortNames v :: sortNamesOfItems rest

/-- Entries with the entries of all objects under them sorted. -/
def sortNamesOfEntries : List (Text × Json) → List (Text × Json)
  | [] => []
  | (k, v) :: rest => (k, sortNames v) :: sortNamesOfEntries rest

end

/-- The canonical layout of a value, with a line feed behind it. -/
def canonical (indent : Option Nat) (v : Json) : Text :=
  print ⟨indent, false, " "⟩ (sortNames v) ++ [.lineFeed]

/-! ## Section 4: Writers -/

/-- A value written on one line of ASCII with so many calls left. -/
def encode (calls : Nat) (v : Json) : Except WriteFault Text :=
  match v.encodeFault? calls with
  | some f => .error f
  | none => .ok v.compact

/-- The canonical text of a value, which is converted first. -/
def dump (indent : Option Nat) (v : Json) : Except WriteFault Text :=
  match v.writeFault? with
  | some f => .error f
  | none => .ok (v.canonical indent)

end FormSchema.Json
