/-!
# Code points and texts

A document is a sequence of Unicode code points, and every column, length and cursor of this
library counts them.  A text read from an escaped form may hold half of a surrogate pair on its
own, so a code point is either a scalar value or a surrogate.  Texts are ordered by the numbers of
their code points.
-/

namespace FormSchema

/-! ## Section 1: Code points -/

/-- A Unicode code point: a scalar value, or one of the 2048 surrogates `U+D800` to `U+DFFF`. -/
inductive CodePoint
  | scalar (c : Char)
  | surrogate (s : Fin 0x800)
  deriving DecidableEq, Inhabited

namespace CodePoint

def toNat : CodePoint → Nat
  | scalar c => c.toNat
  | surrogate s => 0xD800 + s.val

/-- The code point of a number; a number above `U+10FFFF` has none and gives `U+0000`. -/
def ofNat (n : Nat) : CodePoint :=
  if h : 0xD800 ≤ n ∧ n < 0xE000 then
    surrogate ⟨n - 0xD800, by omega⟩
  else
    scalar (Char.ofNat n)

/-- Code points are ordered by number. -/
instance : LT CodePoint := ⟨fun a b => a.toNat < b.toNat⟩

instance (a b : CodePoint) : Decidable (a < b) := inferInstanceAs (Decidable (a.toNat < b.toNat))

/-- No scalar value lies among the surrogates, so the number of a code point determines it. -/
theorem toNat_injective {a b : CodePoint} (h : a.toNat = b.toNat) : a = b := by
  cases a with
  | scalar c =>
    cases b with
    | scalar d => exact congrArg scalar (Char.toNat_inj.mp h)
    | surrogate t =>
      -- no character has the number of a surrogate
      have hc : c.toNat < 0xD800 ∨ (0xDFFF < c.toNat ∧ c.toNat < 0x110000) := c.valid
      have ht := t.isLt
      simp only [toNat] at h
      omega
  | surrogate s =>
    cases b with
    | scalar d =>
      have hd : d.toNat < 0xD800 ∨ (0xDFFF < d.toNat ∧ d.toNat < 0x110000) := d.valid
      have hs := s.isLt
      simp only [toNat] at h
      omega
    | surrogate t =>
      simp only [toNat] at h
      exact congrArg surrogate (Fin.ext (by omega))

/-- The first half of a surrogate pair. -/
def isHighSurrogate (c : CodePoint) : Bool := 0xD800 ≤ c.toNat && c.toNat < 0xDC00

/-- The second half of a surrogate pair. -/
def isLowSurrogate (c : CodePoint) : Bool := 0xDC00 ≤ c.toNat && c.toNat < 0xE000

/-- Half of a surrogate pair. -/
def isSurrogate : CodePoint → Bool
  | scalar _ => false
  | surrogate _ => true

/-- The code point that a surrogate pair stands for. -/
def joinPair (high low : CodePoint) : CodePoint :=
  ofNat (0x10000 + (high.toNat - 0xD800) * 0x400 + (low.toNat - 0xDC00))

def isDigit : CodePoint → Bool
  | scalar c => c.isDigit
  | surrogate _ => false

/-- The value of an ASCII decimal digit. -/
def digitValue (c : CodePoint) : Nat := c.toNat - 48

/-- The zeros of all scripts in Unicode 14.  The ten digits of a script are consecutive code points.
-/
def zeroDigits : List Nat := [
    0x30, 0x660, 0x6F0, 0x7C0, 0x966, 0x9E6, 0xA66, 0xAE6, 0xB66, 0xBE6, 0xC66, 0xCE6, 0xD66,
    0xDE6, 0xE50, 0xED0, 0xF20, 0x1040, 0x1090, 0x17E0, 0x1810, 0x1946, 0x19D0, 0x1A80, 0x1A90,
    0x1B50, 0x1BB0, 0x1C40, 0x1C50, 0xA620, 0xA8D0, 0xA900, 0xA9D0, 0xA9F0, 0xAA50, 0xABF0,
    0xFF10, 0x104A0, 0x10D30, 0x11066, 0x110F0, 0x11136, 0x111D0, 0x112F0, 0x11450, 0x114D0,
    0x11650, 0x116C0, 0x11730, 0x118E0, 0x11950, 0x11C50, 0x11D50, 0x11DA0, 0x16A60, 0x16AC0,
    0x16B50, 0x1D7CE, 0x1D7D8, 0x1D7E2, 0x1D7EC, 0x1D7F6, 0x1E140, 0x1E2F0, 0x1E950, 0x1FBF0]

/-- The value of a decimal digit of any script. -/
def decimalValue? (c : CodePoint) : Option Nat :=
  (zeroDigits.find? fun z => z ≤ c.toNat && c.toNat < z + 10).map fun z => c.toNat - z

/-- The line feed, which ends a line. -/
abbrev lineFeed : CodePoint := .scalar '\n'

abbrev carriageReturn : CodePoint := .scalar '\x0d'

end CodePoint

/-! ## Section 2: Texts -/

/-- A text is a list of code points. -/
abbrev Text := List CodePoint

def Text.ofString (s : String) : Text := s.toList.map .scalar

instance : Coe String Text := ⟨Text.ofString⟩

/-- The string of a text, with `U+FFFD` for each surrogate. -/
def Text.toString (t : Text) : String :=
  String.ofList (t.map fun
    | .scalar c => c
    | .surrogate _ => Char.ofNat 0xFFFD)

/-- A text between quotation marks, without any escaping. -/
def Text.inQuotes (t : Text) : Text := .scalar '"' :: t ++ [.scalar '"']

/-- A natural number in decimal. -/
def Text.ofNat (n : Nat) : Text := (Nat.toDigits 10 n).map .scalar

/-- A natural number in hexadecimal, in lower case. -/
def Text.ofHex (n : Nat) : Text := (Nat.toDigits 16 n).map .scalar

/-- An integer in decimal, with a minus sign before a negative one. -/
def Text.ofInt (n : Int) : Text :=
  if n < 0 then .scalar '-' :: Text.ofNat n.natAbs else Text.ofNat n.natAbs

/-! ## Section 3: The order of texts -/

/-- Whether `a` comes before `b` or equals it, as words do in a dictionary: code point by code
point, and a text before all its extensions. -/
def Text.le (a b : Text) : Bool := decide (a ≤ b)

/-- Texts in increasing order; equal texts keep their order. -/
def Text.sort (ts : List Text) : List Text := ts.mergeSort Text.le

/-- A list without the later copies of its members. -/
def Text.dedup (ts : List Text) : List Text :=
  ts.foldl (fun seen t => if seen.contains t then seen else seen ++ [t]) []

end FormSchema
