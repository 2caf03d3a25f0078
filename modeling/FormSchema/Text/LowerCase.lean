import FormSchema.Text.CodePoint
import FormSchema.Text.LowerCase.Table

/-!
# Lower case

Full lower-casing of texts.  Each code point has its own lower-case form, with two exceptions: the
dotted capital I becomes two code points, and a capital sigma at the end of a word becomes the
final small sigma.
-/

namespace FormSchema.LowerCase

/-- Whether a number lies in one of the ranges. -/
def inRanges (ranges : List (Nat × Nat)) (n : Nat) : Bool :=
  ranges.any fun r => r.1 ≤ n && n ≤ r.2

/-- Whether a code point is passed over in the search for a neighbouring letter. -/
def isPassed (c : CodePoint) : Bool := inRanges passedRanges c.toNat

/-- Whether a code point is a letter that has case. -/
def isCased (c : CodePoint) : Bool := inRanges casedRanges c.toNat

def Run.contains (r : Run) (n : Nat) : Bool :=
  r.first ≤ n && n ≤ r.last && (n - r.first) % r.step == 0

/-- The lower-case form of a code point on its own.  The ASCII letters come first because they are
by far the most frequent. -/
def ofCodePoint (c : CodePoint) : Text :=
  let n := c.toNat
  if n < 0x80 then
    if 0x41 ≤ n && n ≤ 0x5A then [CodePoint.ofNat (n + 0x20)] else [c]
  -- the one capital with two code points in lower case
  else if n == 0x130 then [CodePoint.ofNat 0x69, CodePoint.ofNat 0x307]
  else
    match runs.find? (·.contains n) with
    | some r => [CodePoint.ofNat (n + r.shift).toNat]
    | none => [c]

/-- Whether the nearest code point that is not passed over is a letter that has case. -/
def meetsCased (t : Text) : Bool :=
  match t.dropWhile isPassed with
  | [] => false
  | c :: _ => isCased c

/-- Whether a capital sigma between `before`, given backwards, and `after` ends a word. -/
def isFinal (before after : Text) : Bool := meetsCased before && !meetsCased after

/-- Lower case of the rest of a text; `before` is what precedes it, backwards, and `acc` what has
been made of that, backwards. -/
def lowerFrom (before acc : Text) : Text → Text
  | [] => acc.reverse
  | c :: after =>
    -- only the capital sigma depends on its neighbours
    let form : Text :=
      if c.toNat = 0x3A3 then
        [CodePoint.ofNat (if isFinal before after then 0x3C2 else 0x3C3)]
      else ofCodePoint c
    lowerFrom (c :: before) (form.reverse ++ acc) after

end FormSchema.LowerCase

namespace FormSchema.Text

def lower (t : Text) : Text := LowerCase.lowerFrom [] [] t

end FormSchema.Text
