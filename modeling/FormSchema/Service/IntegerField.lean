import FormSchema.Json.Reader
import FormSchema.Service.Complaint
import FormSchema.Text.Numeral

/-!
# Integers in fields

An integer in a field may be written as an integer, as a fractional number without a fraction, as a
truth value, or as a string.  A string is first cleaned of everything that does not change the
number (blanks, a plus sign, zeros at the front, zeros behind a point, single underscores), and what
remains has to be an integer as JSON writes it.
-/

namespace FormSchema.Service

/-! ## Section 1: Cleaning -/

/-- A minus sign or a digit other than zero, with which the part of a text that counts begins. -/
def beginsNumber (c : CodePoint) : Bool :=
  c = .scalar '-' || (c.isDigit && c ≠ .scalar '0')

/-- A text behind zeros and underscores, of which `last` is the last.  Before a point, and at the
end of the text, this last one stays. -/
def afterZeros? (last : CodePoint) : Text → Option Text
  | [] => some [last]
  | c :: rest =>
    if c = .scalar '0' || c = .scalar '_' then afterZeros? c rest
    else if beginsNumber c then some (c :: rest)
    else if c = .scalar '.' then some (last :: c :: rest)
    else none

/-- A text without the zeros at its front, if a number can begin there at all. -/
def withoutZeros? : Text → Option Text
  | [] => none
  | c :: rest =>
    if c = .scalar '0' then afterZeros? c rest
    else if beginsNumber c then some (c :: rest)
    else none

/-- A text without a plus sign and the zeros at its front; a minus sign stays. -/
def withoutFront? : Text → Option Text
  | .scalar '+' :: .scalar '-' :: _ => none
  | .scalar '+' :: rest => withoutZeros? rest
  | .scalar '-' :: rest => (withoutZeros? rest).map (.scalar '-' :: ·)
  | t => withoutZeros? t

/-- A text without its point, if only zeros, and at least one, follow the point. -/
def withoutPlaces (t : Text) : Text :=
  match t.dropWhile (· ≠ .scalar '.') with
  | _ :: c :: places =>
    if (c :: places).all (· = .scalar '0') then t.takeWhile (· ≠ .scalar '.') else t
  | _ => t

/-- A text without its underscores, if none stands at an end or beside another. -/
def withoutUnderscores (t : Text) : Text :=
  let groups := Text.split (.scalar '_') t
  if groups.any List.isEmpty then t else groups.flatten

/-- A text without the blanks around it. -/
def withoutSpacing (t : Text) : Text :=
  ((t.dropWhile Numeral.isSpacing).reverse.dropWhile Numeral.isSpacing).reverse

/-- A text cleaned of all that does not change the number that it writes. -/
def clean? (t : Text) : Option Text :=
  (withoutFront? (withoutSpacing t)).map fun u => withoutUnderscores (withoutPlaces u)

/-! ## Section 2: Reading -/

/-- The integer that a text writes as JSON does.  The digits are counted, without the sign, before
anything behind them is looked at. -/
def readInteger (t : Text) : Except Problem Int :=
  let (negative, unsigned) :=
    match t with
    | .scalar '-' :: rest => (true, rest)
    | other => (false, other)
  let digits := unsigned.takeWhile CodePoint.isDigit
  if digits.isEmpty || (digits.head? = some (.scalar '0') && 1 < digits.length) then
    .error .notNumeral
  else if Json.maxIntegerDigits < digits.length then
    .error .tooManyDigits
  -- digits are counted before anything behind them is looked at
  else if digits.length < unsigned.length then .error .notNumeral
  else .ok (if negative then -(Numeral.value digits : Int) else Numeral.value digits)

/-- An integer written as a string. -/
def integerOfText (t : Text) : Except Problem Int :=
  if t.any CodePoint.isSurrogate then .error .notScalars
  else
    match clean? t with
    | none => .error .notNumeral
    | some cleaned => readInteger cleaned

/-- The bound below which the magnitude of a fractional number has to lie to count as an
integer. -/
def fractionalBound : Nat := 0x8000000000000000

/-- An integer written as a fractional number. -/
def integerOfFraction (x : Binary64) : Except Problem Int :=
  if !x.isFinite then .error .notFinite
  else
    match x.toInt? with
    | none => .error .fractional
    | some n => if n.natAbs < fractionalBound then .ok n else .error .tooManyDigits

/-- An integer in a field. -/
def integerOf : Json → Except Problem Int
  | .int n => .ok n
  | .bool b => .ok (if b then 1 else 0)
  | .str t => integerOfText t
  | .float x => integerOfFraction x
  | _ => .error .notInteger

/-- An integer in a field that may not be negative. -/
def naturalOf (v : Json) : Except Problem Int :=
  match integerOf v with
  | .error p => .error p
  | .ok n => if n < 0 then .error .negative else .ok n

end FormSchema.Service
