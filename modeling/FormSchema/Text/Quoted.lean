import FormSchema.Text.CodePoint
import FormSchema.Text.Unprintable

/-!
# Quoted texts

A text between quotation marks, as messages show it.  Single marks are used unless the text holds
one and no double mark.  The marks inside, the backslash, the usual controls and all unprintable
code points are escaped.
-/

namespace FormSchema.Quoted

/-- The lower-case hexadecimal digits of a number, filled up with zeros to a width. -/
def hexPadded (width n : Nat) : Text :=
  let ds := Text.ofHex n
  List.replicate (width - ds.length) (.scalar '0') ++ ds

/-- An unprintable code point, escaped by its number in two, four or eight digits. -/
def escapeNumber (n : Nat) : Text :=
  if n < 0x100 then "\\x" ++ hexPadded 2 n
  else if n < 0x10000 then "\\u" ++ hexPadded 4 n
  else "\\U" ++ hexPadded 8 n

/-- A code point inside a quoted text. -/
def escape (mark : CodePoint) (c : CodePoint) : Text :=
  if c = mark then [.scalar '\\', c]
  else if c = .scalar '\\' then "\\\\"
  else if c = .scalar '\n' then "\\n"
  else if c = .scalar '\x0d' then "\\r"
  else if c = .scalar '\t' then "\\t"
  else if CodePoint.isPrintable c.toNat then [c]
  else escapeNumber c.toNat

/-- The quotation mark that a text is put between. -/
def mark (t : Text) : CodePoint :=
  if t.contains (.scalar '\x27') && !t.contains (.scalar '"') then .scalar '"' else .scalar '\x27'

/-- A text between quotation marks. -/
def quote (t : Text) : Text := mark t :: t.flatMap (escape (mark t)) ++ [mark t]

end FormSchema.Quoted
