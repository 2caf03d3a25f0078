import FormSchema.Text.CodePoint

/-!
# UTF-8

Texts as octets and back.  Surrogates are written like other code points of their size; strict UTF-8
has none, so that the first of them can also be looked for.  The decoder goes through the octets one
at a time.  Between code points any lead octet may come; after one, a known number of further octets
is owed, and the next has to lie in a known range.  Where that fails, the octets taken so far are
one malformed sequence, and the octet that did not fit is looked at afresh.
-/

namespace FormSchema

/-- The content of a file. -/
abbrev Octets := List UInt8

namespace Utf8

/-! ## Section 1: Encoding -/

/-- A continuation octet with the six lowest bits of a number. -/
def continuation (n : Nat) : UInt8 := UInt8.ofNat (0x80 + n % 0x40)

def encodeCodePoint (c : CodePoint) : Octets :=
  let n := c.toNat
  if n < 0x80 then [UInt8.ofNat n]
  else if n < 0x800 then [UInt8.ofNat (0xC0 + n / 0x40), continuation n]
  -- surrogates fall in here; they are refused before a text is written
  else if n < 0x10000 then
    [UInt8.ofNat (0xE0 + n / 0x1000), continuation (n / 0x40), continuation n]
  else
    [UInt8.ofNat (0xF0 + n / 0x40000), continuation (n / 0x1000), continuation (n / 0x40),
      continuation n]

def encode (t : Text) : Octets := t.flatMap encodeCodePoint

/-- Surrogates that strict UTF-8 does not write: where they begin in a text, the first of them, and
how many stand there together. -/
structure Unencodable where
  start : Nat
  first : CodePoint
  length : Nat
  deriving DecidableEq

/-- The first surrogate that is not allowed, counted from `i`, with those directly behind it. -/
def unencodableFrom (allowed : CodePoint → Bool) (i : Nat) : Text → Option Unencodable
  | [] => none
  | c :: rest =>
    if c.isSurrogate && !allowed c then
      some ⟨i, c, (rest.takeWhile CodePoint.isSurrogate).length + 1⟩
    else unencodableFrom allowed (i + 1) rest

/-- The first surrogates of a text, which keep it from being written. -/
def unencodable? (t : Text) : Option Unencodable := unencodableFrom (fun _ => false) 0 t

/-! ## Section 2: Decoding -/

/-- Why a sequence of octets is malformed. -/
inductive Reason
  | badStart
  | badContinuation
  | endOfData
  deriving DecidableEq

/-- A malformed sequence: where it begins, its first octet, how many octets it has, and why. -/
structure Malformed where
  start : Nat
  first : Nat
  length : Nat
  reason : Reason

/-- What the decoder finds: a code point or a malformed sequence. -/
inductive Item
  | codePoint (c : CodePoint)
  | malformed (m : Malformed)

/-- A code point begun: the octets owed, the range of the next one, the bits so far, the octets
taken, and the first of them. -/
structure Pending where
  owed : Nat
  low : Nat
  high : Nat
  bits : Nat
  taken : Nat
  first : Nat

/-- What a lead octet begins; nothing if no code point begins with it.  A code point of one octet
owes no others. -/
def lead? (b : Nat) : Option Pending :=
  if b < 0x80 then some ⟨0, 0x80, 0xBF, b, 1, b⟩
  -- continuation octets, and two leads that could only write ASCII in two octets
  else if b < 0xC2 then none
  else if b < 0xE0 then some ⟨1, 0x80, 0xBF, b - 0xC0, 1, b⟩
  -- a smaller second octet would write a shorter code point
  else if b = 0xE0 then some ⟨2, 0xA0, 0xBF, 0, 1, b⟩
  -- a greater second octet would write a surrogate
  else if b = 0xED then some ⟨2, 0x80, 0x9F, b - 0xE0, 1, b⟩
  else if b < 0xF0 then some ⟨2, 0x80, 0xBF, b - 0xE0, 1, b⟩
  else if b = 0xF0 then some ⟨3, 0x90, 0xBF, 0, 1, b⟩
  else if b < 0xF4 then some ⟨3, 0x80, 0xBF, b - 0xF0, 1, b⟩
  -- a greater second octet would go beyond the last code point
  else if b = 0xF4 then some ⟨3, 0x80, 0x8F, b - 0xF0, 1, b⟩
  else none

/-- A begun code point with one octet more. -/
def Pending.push (p : Pending) (b : Nat) : Pending :=
  ⟨p.owed - 1, 0x80, 0xBF, p.bits * 0x40 + (b - 0x80), p.taken + 1, p.first⟩

/-- The malformed sequence that a begun code point is, if it ends before offset `i`. -/
def Pending.malformed (p : Pending) (i : Nat) (reason : Reason) : Item :=
  .malformed ⟨i - p.taken, p.first, p.taken, reason⟩

/-- The state of the decoder: what it has found, the last first, and the code point begun. -/
structure State where
  found : List Item
  pending : Option Pending

/-- A begun code point, which is found as soon as it owes nothing. -/
def State.advance (found : List Item) (p : Pending) : State :=
  if p.owed = 0 then ⟨.codePoint (CodePoint.ofNat p.bits) :: found, none⟩ else ⟨found, some p⟩

/-- An octet at offset `i` between code points. -/
def State.begin (found : List Item) (i b : Nat) : State :=
  match lead? b with
  | some p => State.advance found p
  | none => ⟨.malformed ⟨i, b, 1, .badStart⟩ :: found, none⟩

/-- One octet at offset `i`. -/
def State.step (s : State) (i b : Nat) : State :=
  match s.pending with
  | none => State.begin s.found i b
  | some p =>
    if p.low ≤ b && b ≤ p.high then State.advance s.found (p.push b)
    -- the octet that does not fit may begin a code point of its own
    else State.begin (p.malformed i .badContinuation :: s.found) i b

/-- The octets from offset `i` on. -/
def State.run (s : State) (i : Nat) : Octets → State × Nat
  | [] => (s, i)
  | b :: rest => (s.step i b.toNat).run (i + 1) rest

/-- Everything found in some octets, in order. -/
def scan (octets : Octets) : List Item :=
  let (s, i) := State.run ⟨[], none⟩ 0 octets
  match s.pending with
  | none => s.found.reverse
  | some p => (p.malformed i .endOfData :: s.found).reverse

/-- The text of some octets, with `U+FFFD` for each malformed sequence. -/
def decodeLossy (octets : Octets) : Text :=
  (scan octets).map fun
    | .codePoint c => c
    | .malformed _ => .scalar (Char.ofNat 0xFFFD)

/-- The first malformed sequence among some items. -/
def firstMalformed? (items : List Item) : Option Malformed :=
  items.findSome? fun
    | .codePoint _ => none
    | .malformed m => some m

/-- The text of some octets that hold no malformed sequence, or else the first one. -/
def decode (octets : Octets) : Except Malformed Text :=
  match firstMalformed? (scan octets) with
  | some m => .error m
  | none => .ok (decodeLossy octets)

/-! ## Section 3: Messages -/

def Reason.message : Reason → Text
  | .badStart => "invalid start byte"
  | .badContinuation => "invalid continuation byte"
  | .endOfData => "unexpected end of data"

def Malformed.message (m : Malformed) : Text :=
  let range : Text :=
    if m.length = 1 then
      "byte 0x" ++ Text.ofHex m.first ++ " in position " ++ Text.ofNat m.start
    else
      "bytes in position " ++ Text.ofNat m.start ++ "-" ++ Text.ofNat (m.start + m.length - 1)
  "'utf-8' codec can't decode " ++ range ++ ": " ++ m.reason.message

/-- The message about surrogates that are not written. -/
def Unencodable.message (u : Unencodable) : Text :=
  let range : Text :=
    if u.length = 1 then
      "character '\\u" ++ Text.ofHex u.first.toNat ++ "' in position " ++ Text.ofNat u.start
    else
      "characters in position " ++ Text.ofNat u.start ++ "-" ++ Text.ofNat (u.start + u.length - 1)
  "'utf-8' codec can't encode " ++ range ++ ": surrogates not allowed"

end Utf8

end FormSchema
