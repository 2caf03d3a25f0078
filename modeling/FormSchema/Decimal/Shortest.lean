import FormSchema.Decimal.Binary64

/-!
# The shortest decimal of a double

The decimal with the fewest digits that rounds to a given double and, among those, the nearest to
it.  On the grid of all decimals with a given last place only the two neighbours of the double need
to be tried, because the numbers that round to a double form an interval around it.
-/

namespace FormSchema.Binary64

/-- The power of ten of the first digit of a positive ratio. -/
def leadingPower (num den : Nat) : Int :=
  -- a ratio below one on this scale shows that the guess is one too high
  let guess : Int := (digitCount num : Int) - digitCount den
  let (n, d) := scale 10 (-guess) num den
  if n < d then guess - 1 else guess

/-- The neighbours of a ratio on the grid of multiples of `10 ^ place`, the nearer first; of two
equally near the even one comes first. -/
def gridNeighbours (place : Int) (num den : Nat) : List Decimal :=
  let (n, d) := scale 10 (-place) num den
  let low := n / d
  let r := n % d
  if 2 * r < d || (2 * r == d && low % 2 == 0) then
    [⟨low, place⟩, ⟨low + 1, place⟩]
  else
    [⟨low + 1, place⟩, ⟨low, place⟩]

/-- The first neighbour that reads back as `mantissa * 2 ^ exponent`, on the grid that has `count`
digits from the leading one. -/
def onGrid? (mantissa : Nat) (exponent : Int) (count : Nat) : Option Decimal :=
  let (n, d) := scale 2 exponent mantissa 1
  -- the last of `count` places, counted down from the first digit
  let place := leadingPower n d - (count - 1 : Nat)
  (gridNeighbours place n d).find? fun c =>
    decide (ofDecimal false c = .finite false mantissa exponent)

/-- The shortest decimal that rounds to the positive double `mantissa * 2 ^ exponent`; seventeen
digits are enough for every double. -/
def shortest (mantissa : Nat) (exponent : Int) : Decimal :=
  ((List.range 17).findSome? fun i => onGrid? mantissa exponent (i + 1)).getD ⟨mantissa, exponent⟩

end FormSchema.Binary64
