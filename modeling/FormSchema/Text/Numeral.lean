import FormSchema.Json.Fault
import FormSchema.Text.CodePoint
import FormSchema.Text.Lines
import FormSchema.Text.Quoted

/-!
# Integers that people write

Reading an integer from a text that a person wrote: blanks around it, one sign, and the decimal
digits of any script, with single underscores between them.
-/

namespace FormSchema.Numeral

/-- Blanks that may stand around an integer: all but the four ASCII separators. -/
def isSpacing (c : CodePoint) : Bool := c.isBlank && !(0x1C ≤ c.toNat && c.toNat ≤ 0x1F)

/-- A sign at the front of a text, and what follows it. -/
def takeSign : Text → Bool × Text
  | .scalar '-' :: rest => (true, rest)
  | .scalar '+' :: rest => (false, rest)
  | t => (false, t)

/-- A digit, or the underscore that may stand between two. -/
def isPart (c : CodePoint) : Bool := c.decimalValue?.isSome || c = .scalar '_'

/-- The number that a run of digits writes. -/
def value (digits : Text) : Nat :=
  digits.foldl (fun n d => 10 * n + d.decimalValue?.getD 0) 0

/-- Why a text is no integer. -/
inductive Fault
  | malformed (t : Text)
  | tooManyDigits (count : Nat)

/-- The most code points of a malformed text that its message shows. -/
def maxShown : Nat := 200

def Fault.message : Fault → Text
  | .malformed t => "invalid literal for int() with base 10: " ++ (Quoted.quote t).take maxShown
  | .tooManyDigits count => Json.tooManyDigitsMessage count

/-- The integer that a text writes.  The digits are counted before anything behind them is looked
at. -/
def read (t : Text) : Except Fault Int :=
  let (negative, unsigned) := takeSign (t.dropWhile isSpacing)
  let groups := Text.split (.scalar '_') (unsigned.takeWhile isPart)
  let digits := groups.flatten
  -- an empty group is an underscore at an end or beside another, or a text without digits
  if groups.any List.isEmpty then .error (.malformed t)
  else if Json.maxIntegerDigits < digits.length then .error (.tooManyDigits digits.length)
  else if !(unsigned.dropWhile isPart).all isSpacing then .error (.malformed t)
  else .ok (if negative then -(value digits : Int) else value digits)

end FormSchema.Numeral
