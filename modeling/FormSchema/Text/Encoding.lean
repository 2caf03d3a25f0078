import FormSchema.Text.Utf8

/-!
# Encodings told by their zeros

A text whose first two code points are ASCII shows by the zeros among its first octets whether it is
written in octets or in units of two or four octets, and in which order the octets of a unit stand.
Wide texts may hold halves of surrogate pairs on their own; in UTF-16 the two halves of a pair are
joined.
-/

namespace FormSchema

/-! ## Section 1: Encodings -/

/-- Whether the octets of a unit begin with the highest or with the lowest. -/
inductive OctetOrder
  | highFirst
  | lowFirst
  deriving DecidableEq

/-- An encoding of texts. -/
inductive Encoding
  | utf8
  | utf16 (order : OctetOrder)
  | utf32 (order : OctetOrder)
  deriving DecidableEq

namespace Encoding

/-- The encoding that the first octets of a text show. -/
def ofOctets : Octets → Encoding
  | a :: b :: c :: d :: _ =>
    if a = 0 then if b = 0 then utf32 .highFirst else utf16 .highFirst
    else if b = 0 then if c = 0 && d = 0 then utf32 .lowFirst else utf16 .lowFirst
    else utf8
  | [a, b] => if a = 0 then utf16 .highFirst else if b = 0 then utf16 .lowFirst else utf8
  | _ => utf8

/-! ## Section 2: Units -/

/-- Two neighbouring units as one, where `base` is the number of values of each. -/
def joinUnits (base : Nat) : OctetOrder → Nat → Nat → Nat
  | .highFirst, a, b => base * a + b
  | .lowFirst, a, b => a + base * b

/-- Units joined two by two behind those that are done, the last of them first; none may be left
over. -/
def pairUp? (join : Nat → Nat → Nat) (done : List Nat) : List Nat → Option (List Nat)
  | [] => some done.reverse
  | [_] => none
  | a :: b :: rest => pairUp? join (join a b :: done) rest

/-- The units of two octets. -/
def units16? (order : OctetOrder) (octets : Octets) : Option (List Nat) :=
  pairUp? (joinUnits 0x100 order) [] (octets.map (·.toNat))

/-- The units of four octets. -/
def units32? (order : OctetOrder) (octets : Octets) : Option (List Nat) :=
  (units16? order octets).bind (pairUp? (joinUnits 0x10000 order) [])

/-! ## Section 3: Texts -/

/-- A code point in front of others, joined with the next if the two are a surrogate pair. -/
def joinHalves (c : CodePoint) : Text → Text
  | d :: rest =>
    if c.isHighSurrogate && d.isLowSurrogate then CodePoint.joinPair c d :: rest else c :: d :: rest
  | [] => [c]

/-- The byte order mark, which may stand before a text in UTF-8. -/
def byteOrderMark : CodePoint := .scalar (Char.ofNat 0xFEFF)

/-- A text without a byte order mark before it. -/
def dropMark : Text → Text
  | [] => []
  | c :: rest => if c = byteOrderMark then rest else c :: rest

/-- The greatest number of a code point. -/
def maxCodePoint : Nat := 0x10FFFF

/-- The text that some octets write in an encoding, if they do. -/
def decode? (octets : Octets) : Encoding → Option Text
  -- only UTF-8 may begin with a mark that does not count
  | utf8 => (Utf8.decode octets).toOption.map dropMark
  | utf16 order =>
    (units16? order octets).map fun units => (units.map CodePoint.ofNat).foldr joinHalves []
  | utf32 order =>
    match units32? order octets with
    | none => none
    | some units =>
      if units.all (· ≤ maxCodePoint) then some (units.map CodePoint.ofNat) else none

end Encoding

end FormSchema
