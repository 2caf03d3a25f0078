import FormSchema.Decimal.Shortest
import FormSchema.Text.CodePoint

/-!
# The text of a double

The shortest decimal of a double laid out as text: positional for exponents from -4 to 15, with a
digit on each side of the point, and scientific outside, with a signed exponent of at least two
digits.
-/

namespace FormSchema

/-- How the values that have no digits are spelled. -/
structure FloatNames where
  infinity : Text
  nan : Text

/-- The spelling of numbers in JSON output. -/
def FloatNames.json : FloatNames := ⟨"Infinity", "NaN"⟩

/-- The spelling of numbers in messages. -/
def FloatNames.display : FloatNames := ⟨"inf", "nan"⟩

namespace Decimal

/-- The least exponent of the first digit that is written positionally. -/
def leastPositional : Int := -4

/-- The least exponent of the first digit above the positional range. -/
def leastScientific : Int := 16

/-- The digits of a decimal without the zeros at its end, first digit first. -/
def significant (d : Decimal) : Text :=
  ((Text.ofNat d.digits).reverse.dropWhile (· = .scalar '0')).reverse

/-- The exponent of the first digit. -/
def leadingExponent (d : Decimal) : Int := d.exponent + ((Text.ofNat d.digits).length - 1 : Nat)

def zeros (n : Nat) : Text := List.replicate n (.scalar '0')

/-- Digits around a point, with a zero where one side would be empty. -/
def positional (ds : Text) (lead : Int) : Text :=
  if lead < 0 then
    "0." ++ zeros (-lead - 1).toNat ++ ds
  else
    let whole := lead.toNat + 1
    -- an integer is filled up with zeros and gets a fraction of zero
    if ds.length ≤ whole then
      ds ++ zeros (whole - ds.length) ++ ".0"
    else
      ds.take whole ++ "." ++ ds.drop whole

/-- An exponent: `e`, its sign and at least two digits. -/
def exponentText (e : Int) : Text :=
  let ds := Text.ofNat e.natAbs
  "e" ++ (if e < 0 then "-" else "+") ++ zeros (2 - ds.length) ++ ds

/-- One digit before the point, the others after it, and the exponent. -/
def scientific (ds : Text) (lead : Int) : Text :=
  (match ds with
    | [] => []
    | [d] => [d]
    | d :: rest => d :: .scalar '.' :: rest) ++ exponentText lead

/-- The text of a positive decimal. -/
def text (d : Decimal) : Text :=
  let ds := significant d
  let lead := leadingExponent d
  if leastPositional ≤ lead && lead < leastScientific then positional ds lead
  else scientific ds lead

end Decimal

/-- A minus sign before a negative number. -/
def signText (negative : Bool) : Text := if negative then "-" else []

/-- The text of a double: its shortest decimal, or the name of a value without digits. -/
def Binary64.text (names : FloatNames) : Binary64 → Text
  | .finite negative 0 _ => signText negative ++ "0.0"
  | .finite negative m e => signText negative ++ (Binary64.shortest m e).text
  | .infinite negative => signText negative ++ names.infinity
  | .nan => names.nan

end FormSchema
