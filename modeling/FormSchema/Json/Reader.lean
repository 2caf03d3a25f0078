import FormSchema.Json.Fault

/-!
# Reading JSON texts

A reader for JSON texts by recursive descent.  Every step gives the value it read together with the
rest of the text, which is shorter than the text it began with; the loops over strings, arrays and
objects end for that reason.  Nesting is bounded by a fixed depth, and the reader of a value is
structural in the depth that remains: its loops take the reader of the next depth as an argument.
-/

namespace FormSchema.Json

/-! ## Section 1: Steps of the reader -/

/-- What a step of the reader gives: a value and the text behind it, or a fault. -/
abbrev Reading (α : Type) := Except Fault (α × Text)

/-- A reader of values: every value that it reads takes up some of the text. -/
structure Reader where
  read : Text → Reading Json
  shorter : ∀ {s r : Text} {v : Json}, read s = .ok (v, r) → r.length < s.length

/-- White space between tokens: space, tab, line feed and carriage return. -/
def isSpace (c : CodePoint) : Bool :=
  c = .scalar ' ' || c = .scalar '\t' || c = .scalar '\n' || c = .scalar '\x0d'

/-- A text without the white space at its front. -/
def skipSpace (s : Text) : Text := s.dropWhile isSpace

theorem length_dropWhile_le (p : CodePoint → Bool) (s : Text) :
    (s.dropWhile p).length ≤ s.length :=
  (List.dropWhile_suffix p).length_le

/-- No reader goes back, and this is what the recursion of the readers ends by. -/
theorem length_skipSpace_le (s : Text) : (skipSpace s).length ≤ s.length :=
  length_dropWhile_le isSpace s

/-- Behind a token there is less to read. -/
theorem length_lt_of_skipSpace {s r : Text} {c : CodePoint} (h : skipSpace s = c :: r) :
    r.length < s.length := by
  have := length_skipSpace_le s
  rw [h, List.length_cons] at this
  omega

/-! ## Section 2: Numbers -/

/-- A number as it is written: its sign, the digits before the point, the digits after a point,
and the sign and the digits of an exponent. -/
structure Numeral where
  negative : Bool
  whole : Text
  fraction : Option Text
  power : Option (Bool × Text)

/-- The digits at the front of a text, and what follows them. -/
def takeDigits (s : Text) : Text × Text :=
  (s.takeWhile CodePoint.isDigit, s.dropWhile CodePoint.isDigit)

/-- The number that a run of digits writes. -/
def digitsValue (ds : Text) : Nat := ds.foldl (fun n d => 10 * n + d.digitValue) 0

/-- A minus sign at the front of a text. -/
def takeMinus : Text → Bool × Text
  | .scalar '-' :: r => (true, r)
  | s => (false, s)

/-- The digits before the point: a lone zero, or digits that do not begin with zero. -/
def takeWhole? : Text → Option (Text × Text)
  | [] => none
  | c :: r =>
    -- digits behind a leading zero belong to no number
    if c = .scalar '0' then some ([c], r)
    else if c.isDigit then some (takeDigits (c :: r))
    else none

/-- A point and the digits after it; a point without digits is left alone. -/
def takeFraction : Text → Option Text × Text
  | [] => (none, [])
  | c :: r =>
    if c = .scalar '.' && !(takeDigits r).1.isEmpty then
      (some (takeDigits r).1, (takeDigits r).2)
    else (none, c :: r)

/-- The sign of an exponent. -/
def takeSign : Text → Bool × Text
  | .scalar '-' :: r => (true, r)
  | .scalar '+' :: r => (false, r)
  | s => (false, s)

/-- An exponent; the letter without digits behind it is left alone. -/
def takePower : Text → Option (Bool × Text) × Text
  | [] => (none, [])
  | c :: r =>
    if (c = .scalar 'e' || c = .scalar 'E') && !(takeDigits (takeSign r).2).1.isEmpty then
      (some ((takeSign r).1, (takeDigits (takeSign r).2).1), (takeDigits (takeSign r).2).2)
    else (none, c :: r)

/-- The numeral at the front of a text. -/
def takeNumeral? (s : Text) : Option (Numeral × Text) :=
  let (negative, s₁) := takeMinus s
  match takeWhole? s₁ with
  | none => none
  | some (whole, s₂) =>
    let (fraction, s₃) := takeFraction s₂
    let (power, s₄) := takePower s₃
    some (⟨negative, whole, fraction, power⟩, s₄)

/-- The power of ten that an exponent part writes. -/
def powerValue : Option (Bool × Text) → Int
  | none => 0
  | some (negative, ds) => if negative then -(digitsValue ds : Int) else digitsValue ds

/-- The value of a numeral: an integer if it has neither point nor exponent, else the nearest
double. -/
def Numeral.value (n : Numeral) : Except Fault Json :=
  match n.fraction, n.power with
  | none, none =>
    if maxIntegerDigits < n.whole.length then .error (.tooManyDigits n.whole.length)
    else .ok (.int (if n.negative then -(digitsValue n.whole : Int) else digitsValue n.whole))
  | fraction, power =>
    -- the point is dropped, and each digit behind it lowers the power of ten by one
    let places := fraction.getD []
    .ok (.float (Binary64.ofDecimal n.negative
      ⟨digitsValue (n.whole ++ places), powerValue power - places.length⟩))

theorem length_takeMinus_le (s : Text) : (takeMinus s).2.length ≤ s.length := by
  unfold takeMinus
  split <;> simp

theorem length_takeSign_le (s : Text) : (takeSign s).2.length ≤ s.length := by
  unfold takeSign
  split <;> simp

theorem length_takeWhole_lt {s ds r : Text} (h : takeWhole? s = some (ds, r)) :
    r.length < s.length := by
  cases s with
  | nil => simp [takeWhole?] at h
  | cons c t =>
    simp only [takeWhole?] at h
    split at h
    · simp only [Option.some.injEq, Prod.mk.injEq] at h
      simp [← h.2]
    · split at h
      · next hd =>
        simp only [takeDigits, Option.some.injEq, Prod.mk.injEq] at h
        have := length_dropWhile_le CodePoint.isDigit t
        rw [← h.2, List.dropWhile_cons_of_pos hd, List.length_cons]
        omega
      · simp at h

theorem length_takeFraction_le (s : Text) : (takeFraction s).2.length ≤ s.length := by
  fun_cases takeFraction s with
  | case1 => simp
  | case2 c r =>
    have := length_dropWhile_le CodePoint.isDigit r
    simp only [takeDigits, List.length_cons]
    omega
  | case3 => simp

theorem length_takePower_le (s : Text) : (takePower s).2.length ≤ s.length := by
  fun_cases takePower s with
  | case1 => simp
  | case2 c r =>
    have h₁ := length_dropWhile_le CodePoint.isDigit (takeSign r).2
    have h₂ := length_takeSign_le r
    simp only [takeDigits, List.length_cons]
    omega
  | case3 => simp

theorem length_takeNumeral_lt {s r : Text} {n : Numeral} (h : takeNumeral? s = some (n, r)) :
    r.length < s.length := by
  simp only [takeNumeral?] at h
  split at h
  · simp at h
  · next whole s₂ hw =>
    simp only [Option.some.injEq, Prod.mk.injEq] at h
    -- only the whole part has to have a digit; the parts around it can be empty
    have h₁ := length_takeMinus_le s
    have h₂ := length_takeWhole_lt hw
    have h₃ := length_takeFraction_le s₂
    have h₄ := length_takePower_le (takeFraction s₂).2
    rw [← h.2]
    omega

/-- The number at the front of a text. -/
def readNumber (s : Text) : Reading Json :=
  match takeNumeral? s with
  | none => .error (.atPlace .expectingValue s)
  | some (n, r) =>
    match n.value with
    | .error f => .error f
    | .ok v => .ok (v, r)

theorem length_readNumber_lt {s r : Text} {v : Json} (h : readNumber s = .ok (v, r)) :
    r.length < s.length := by
  unfold readNumber at h
  split at h
  · simp at h
  · next n r' hn =>
    split at h
    · simp at h
    · simp only [Except.ok.injEq, Prod.mk.injEq] at h
      exact h.2 ▸ length_takeNumeral_lt hn

/-! ## Section 3: Strings -/

/-- The value of a hexadecimal digit. -/
def hexValue? : CodePoint → Option Nat
  | .surrogate _ => none
  | .scalar c =>
    if '0' ≤ c && c ≤ '9' then some (c.toNat - 48)
    else if 'a' ≤ c && c ≤ 'f' then some (c.toNat - 87)
    else if 'A' ≤ c && c ≤ 'F' then some (c.toNat - 55)
    else none

/-- The number that four hexadecimal digits write. -/
def hexFour? (a b c d : CodePoint) : Option Nat :=
  match hexValue? a, hexValue? b, hexValue? c, hexValue? d with
  | some a, some b, some c, some d => some (((a * 16 + b) * 16 + c) * 16 + d)
  | _, _, _, _ => none

/-- What a backslash and one further code point stand for. -/
def shortEscape? : CodePoint → Option CodePoint
  | .scalar '"' => some (.scalar '"')
  | .scalar '\\' => some (.scalar '\\')
  | .scalar '/' => some (.scalar '/')
  | .scalar 'b' => some (.scalar '\x08')
  | .scalar 'f' => some (.scalar '\x0c')
  | .scalar 'n' => some (.scalar '\n')
  | .scalar 'r' => some (.scalar '\x0d')
  | .scalar 't' => some (.scalar '\t')
  | _ => none

/-- The code point of a high surrogate that was written as an escape, and what follows.  It is
joined with an escaped low surrogate right behind it; that second escape is looked at only if the
text goes on behind it. -/
def readSecondHalf (high : CodePoint) (s : Text) : Reading CodePoint :=
  match s with
  | .scalar '\\' :: .scalar 'u' :: a :: b :: c :: d :: next :: r =>
    match hexFour? a b c d with
    | none => .error (.atPlace .badCodeUnit (.scalar 'u' :: a :: b :: c :: d :: next :: r))
    | some n =>
      if (CodePoint.ofNat n).isLowSurrogate then
        .ok (CodePoint.joinPair high (CodePoint.ofNat n), next :: r)
      -- any other escape stays in place, to be read on its own
      else .ok (high, s)
  | _ => .ok (high, s)

theorem length_readSecondHalf_le {high c : CodePoint} {s r : Text}
    (h : readSecondHalf high s = .ok (c, r)) : r.length ≤ s.length := by
  unfold readSecondHalf at h
  split at h
  · split at h
    · simp at h
    · split at h
      · -- a low surrogate: the pair is one code point
        simp only [Except.ok.injEq, Prod.mk.injEq] at h
        simp only [← h.2, List.length_cons]
        omega
      · simp only [Except.ok.injEq, Prod.mk.injEq] at h
        simp [← h.2]
  · simp only [Except.ok.injEq, Prod.mk.injEq] at h
    simp [← h.2]

/-- The code point of an escape whose letter `u` stands at the front of `s`.  Four hexadecimal
digits have to follow it, and the text may not end with them. -/
def readCodeUnit (s : Text) : Reading CodePoint :=
  match s with
  | _ :: a :: b :: c :: d :: next :: r =>
    -- something has to follow the digits, if only the mark at the end
    match hexFour? a b c d with
    | none => .error (.atPlace .badCodeUnit s)
    | some n =>
      if (CodePoint.ofNat n).isHighSurrogate then readSecondHalf (CodePoint.ofNat n) (next :: r)
      else .ok (CodePoint.ofNat n, next :: r)
  | _ => .error (.atPlace .badCodeUnit s)

/-- The code point of an escape, read behind its backslash.  `opening` is the text from the
quotation mark that opened the string. -/
def readEscape (opening s : Text) : Reading CodePoint :=
  match s with
  | [] => .error (.atPlace .unterminatedString opening)
  | c :: r =>
    match shortEscape? c with
    | some p => .ok (p, r)
    | none =>
      -- the letter is passed on, since the fault of a bad number is at it
      if c = .scalar 'u' then readCodeUnit (c :: r)
      else .error (.atPlace .badEscape (.scalar '\\' :: c :: r))

theorem length_readCodeUnit_lt {s r : Text} {p : CodePoint} (h : readCodeUnit s = .ok (p, r)) :
    r.length < s.length := by
  unfold readCodeUnit at h
  split at h
  · split at h
    · simp at h
    · split at h
      · have := length_readSecondHalf_le h
        simp only [List.length_cons] at this ⊢
        omega
      · simp only [Except.ok.injEq, Prod.mk.injEq] at h
        simp only [← h.2, List.length_cons]
        omega
  · simp at h

theorem length_readEscape_lt {opening s r : Text} {p : CodePoint}
    (h : readEscape opening s = .ok (p, r)) : r.length < s.length := by
  unfold readEscape at h
  split at h
  · simp at h
  · split at h
    · simp only [Except.ok.injEq, Prod.mk.injEq] at h
      simp [← h.2]
    · split at h
      · exact length_readCodeUnit_lt h
      · simp at h

/-- The string behind an opening quotation mark, up to the closing one.  `acc` holds the code points
read so far, the last first. -/
def readString (opening acc s : Text) : Reading Text :=
  match s with
  | [] => .error (.atPlace .unterminatedString opening)
  | c :: r =>
    if c = .scalar '"' then .ok (acc.reverse, r)
    -- the place of a fault is in the text, and the start is kept for an open end
    else if c = .scalar '\\' then
      match _h : readEscape opening r with
      | .error f => .error f
      | .ok (p, rest) => readString opening (p :: acc) rest
    else if c.toNat < 0x20 then .error (.atPlace .controlCharacter (c :: r))
    else readString opening (c :: acc) r
termination_by s.length
decreasing_by
  · have := length_readEscape_lt _h
    simp only [List.length_cons]
    omega
  · simp

/-- A string takes its closing quotation mark at least. -/
theorem length_readString_lt {opening acc s t r : Text}
    (h : readString opening acc s = .ok (t, r)) : r.length < s.length := by
  -- piece by piece, up to the closing quotation mark
  fun_induction readString opening acc s with
  | case1 => simp at h
  | case2 acc r' =>
    simp only [Except.ok.injEq, Prod.mk.injEq] at h
    simp [← h.2]
  | case3 => simp at h
  | case4 acc r' p rest he hq ih =>
    have h₁ := length_readEscape_lt he
    have h₂ := ih h
    simp only [List.length_cons]
    omega
  | case5 => simp at h
  | case6 acc c r' hq hb hc ih =>
    have := ih h
    simp only [List.length_cons]
    omega

/-! ## Section 4: Constants -/

/-- The words that stand for values. -/
inductive Keyword
  | null
  | true
  | false
  | nan
  | infinity
  | negativeInfinity
  deriving DecidableEq

namespace Keyword

def all : List Keyword := [null, true, false, nan, infinity, negativeInfinity]

def text : Keyword → Text
  | null => "null"
  | true => "true"
  | false => "false"
  | nan => "NaN"
  | infinity => "Infinity"
  | negativeInfinity => "-Infinity"

def value : Keyword → Json
  | null => .null
  | true => .bool Bool.true
  | false => .bool Bool.false
  | nan => .float .nan
  | infinity => .float (.infinite Bool.false)
  | negativeInfinity => .float (.infinite Bool.true)

def isStrict : Keyword → Bool
  | null => Bool.true
  | true => Bool.true
  | false => Bool.true
  | _ => Bool.false

/-- No keyword is empty. -/
theorem text_ne_nil (k : Keyword) : k.text ≠ [] := by
  cases k <;> decide

end Keyword

/-- The keyword at the front of a text, and what follows it. -/
def keyword? (s : Text) : Option (Keyword × Text) :=
  Keyword.all.findSome? fun k => (Text.afterStart? k.text s).map fun r => (k, r)

/-- What a text starts with stands at its front. -/
theorem eq_append_of_afterStart {start s r : Text} (h : Text.afterStart? start s = some r) :
    s = start ++ r := by
  induction start generalizing s with
  | nil => simpa [Text.afterStart?] using h
  | cons c start ih =>
    cases s with
    | nil => simp [Text.afterStart?] at h
    | cons d s =>
      simp only [Text.afterStart?] at h
      split at h
      · next hc => rw [hc, ih h, List.cons_append]
      · simp at h

theorem length_keyword_lt {s r : Text} {k : Keyword} (h : keyword? s = some (k, r)) :
    r.length < s.length := by
  obtain ⟨k', _, hk⟩ := List.exists_of_findSome?_eq_some h
  obtain ⟨r', hr, he⟩ := Option.map_eq_some_iff.mp hk
  have hs := eq_append_of_afterStart hr
  have hne := List.length_pos_iff.mpr k'.text_ne_nil
  simp only [Prod.mk.injEq] at he
  rw [hs, ← he.2, List.length_append]
  omega

/-- Whether the constants that strict JSON lacks are read or refused. -/
inductive Dialect
  | strict
  | lenient
  deriving DecidableEq

/-! ## Section 5: Arrays, objects and values -/

/-- The items of an array from the first one up to the closing bracket.  `acc` holds the items read
so far, the last first. -/
def readItems (value : Reader) (acc : List Json) (s : Text) : Reading (List Json) :=
  match _h : value.read s with
  | .error f => .error f
  | .ok (v, rest) =>
    match _hs : skipSpace rest with
    | [] => .error (.atPlace .expectingComma [])
    | c :: r =>
      if c = .scalar ']' then .ok ((v :: acc).reverse, r)
      -- no bracket may close behind a comma, which is why another item is read at once
      else if c = .scalar ',' then readItems value (v :: acc) (skipSpace r)
      else .error (.atPlace .expectingComma (c :: r))
termination_by s.length
decreasing_by
  have h₁ := value.shorter _h
  have h₂ := length_lt_of_skipSpace _hs
  have h₃ := length_skipSpace_le r
  omega

/-- The array behind an opening bracket. -/
def readArray (value : Reader) (s : Text) : Reading Json :=
  match skipSpace s with
  | [] => .error (.atPlace .expectingValue [])
  | c :: r =>
    if c = .scalar ']' then .ok (.arr [], r)
    else
      match readItems value [] (c :: r) with
      | .error f => .error f
      | .ok (items, rest) => .ok (.arr items, rest)

/-- The value of a member, behind its name: a colon and a value. -/
def readMemberValue (value : Reader) (s : Text) : Reading Json :=
  match skipSpace s with
  | [] => .error (.atPlace .expectingColon [])
  | c :: r =>
    if c = .scalar ':' then value.read (skipSpace r)
    else .error (.atPlace .expectingColon (c :: r))

/-- A member of an object: its name, a colon and its value. -/
def readMember (value : Reader) (s : Text) : Reading (Text × Json) :=
  match s with
  | [] => .error (.atPlace .expectingName [])
  | c :: r =>
    if c = .scalar '"' then
      match readString (c :: r) [] r with
      | .error f => .error f
      | .ok (name, rest) =>
        match readMemberValue value rest with
        | .error f => .error f
        | .ok (v, rest') => .ok ((name, v), rest')
    else .error (.atPlace .expectingName (c :: r))

theorem length_readMemberValue_lt {value : Reader} {s r : Text} {v : Json}
    (h : readMemberValue value s = .ok (v, r)) : r.length < s.length := by
  unfold readMemberValue at h
  split at h
  · simp at h
  · next c r' hs =>
    split at h
    · have h₁ := value.shorter h
      have h₂ := length_lt_of_skipSpace hs
      have h₃ := length_skipSpace_le r'
      omega
    · simp at h

/-- A member takes its colon at least. -/
theorem length_readMember_lt {value : Reader} {s r : Text} {m : Text × Json}
    (h : readMember value s = .ok (m, r)) : r.length < s.length := by
  unfold readMember at h
  split at h
  · simp at h
  · next c r' =>
    split at h
    · split at h
      · simp at h
      · next name rest hn =>
        split at h
        · simp at h
        · next v rest' hv =>
          -- the name and the value get shorter one after the other
          have h₁ := length_readString_lt hn
          have h₂ := length_readMemberValue_lt hv
          simp only [Except.ok.injEq, Prod.mk.injEq] at h
          simp only [← h.2, List.length_cons]
          omega
    · simp at h

/-- The members of an object from the first one up to the closing brace.  `acc` holds the members
read so far, the last first. -/
def readMembers (value : Reader) (acc : List (Text × Json)) (s : Text) :
    Reading (List (Text × Json)) :=
  match _h : readMember value s with
  | .error f => .error f
  | .ok (m, rest) =>
    match _hs : skipSpace rest with
    | [] => .error (.atPlace .expectingComma [])
    | c :: r =>
      if c = .scalar '\x7d' then .ok ((m :: acc).reverse, r)
      else if c = .scalar ',' then readMembers value (m :: acc) (skipSpace r)
      else .error (.atPlace .expectingComma (c :: r))
termination_by s.length
decreasing_by
  have h₁ := length_readMember_lt _h
  have h₂ := length_lt_of_skipSpace _hs
  have h₃ := length_skipSpace_le r
  omega

/-- The object behind an opening brace. -/
def readObject (value : Reader) (s : Text) : Reading Json :=
  match skipSpace s with
  | [] => .error (.atPlace .expectingName [])
  | c :: r =>
    if c = .scalar '\x7d' then .ok (.obj [], r)
    else
      match readMembers value [] (c :: r) with
      | .error f => .error f
      -- of a name that is repeated the last value counts, at the place of the first
      | .ok (members, rest) => .ok (.obj (Entries.ofMembers members), rest)

/-- A keyword or a number at the front of a text. -/
def readScalar (dialect : Dialect) (s : Text) : Reading Json :=
  match keyword? s with
  | some (k, r) =>
    if dialect = .strict && !k.isStrict then .error (.constant k.text) else .ok (k.value, r)
  | none => readNumber s

/-- What is inside a bracket, read with the reader of the next depth; without one the limit of
nesting is reached, and no bracket may be opened. -/
def readInside (inner : Option Reader) (read : Reader → Text → Reading Json) (s : Text) :
    Reading Json :=
  match inner with
  | none => .error .tooDeep
  | some value => read value s

/-- A value, with `inner` to read the values inside it. -/
def readWith (dialect : Dialect) (inner : Option Reader) (s : Text) : Reading Json :=
  match s with
  | [] => .error (.atPlace .expectingValue [])
  | c :: r =>
    if c = .scalar '"' then
      match readString (c :: r) [] r with
      | .error f => .error f
      | .ok (t, rest) => .ok (.str t, rest)
    else if c = .scalar '\x7b' then readInside inner readObject r
    else if c = .scalar '[' then readInside inner readArray r
    -- anything else is a keyword, a number or a fault
    else readScalar dialect (c :: r)

/-- Items take the closing bracket at least. -/
theorem length_readItems_lt {value : Reader} {acc items : List Json} {s r : Text}
    (h : readItems value acc s = .ok (items, r)) : r.length < s.length := by
  -- one item for each round: each is shorter by what the inner reader takes
  fun_induction readItems value acc s with
  | case1 => simp at h
  | case2 => simp at h
  | case3 acc s v rest hv r' hs =>
    have h₁ := value.shorter hv
    have h₂ := length_lt_of_skipSpace hs
    simp only [Except.ok.injEq, Prod.mk.injEq] at h
    rw [← h.2]
    omega
  | case4 acc s v rest hv r' hs hc ih =>
    have h₁ := value.shorter hv
    have h₂ := length_lt_of_skipSpace hs
    have h₃ := length_skipSpace_le r'
    have h₄ := ih h
    omega
  | case5 => simp at h

theorem length_readMembers_lt {value : Reader} {acc members : List (Text × Json)} {s r : Text}
    (h : readMembers value acc s = .ok (members, r)) : r.length < s.length := by
  fun_induction readMembers value acc s with
  | case1 => simp at h
  | case2 => simp at h
  | case3 acc s m rest hm r' hs =>
    have h₁ := length_readMember_lt hm
    have h₂ := length_lt_of_skipSpace hs
    simp only [Except.ok.injEq, Prod.mk.injEq] at h
    rw [← h.2]
    omega
  | case4 acc s m rest hm r' hs hc ih =>
    have h₁ := length_readMember_lt hm
    have h₂ := length_lt_of_skipSpace hs
    have h₃ := length_skipSpace_le r'
    have h₄ := ih h
    omega
  | case5 => simp at h

theorem length_readArray_lt {value : Reader} {s r : Text} {v : Json}
    (h : readArray value s = .ok (v, r)) : r.length < s.length := by
  unfold readArray at h
  split at h
  · simp at h
  · next c r' hs =>
    have hl := length_lt_of_skipSpace hs
    split at h
    · -- no items, so that nothing but the bracket is taken
      simp only [Except.ok.injEq, Prod.mk.injEq] at h
      exact h.2 ▸ hl
    · split at h
      · simp at h
      · next items rest hi =>
        have := length_readItems_lt hi
        simp only [Except.ok.injEq, Prod.mk.injEq] at h
        rw [List.length_cons] at this
        rw [← h.2]
        omega

theorem length_readObject_lt {value : Reader} {s r : Text} {v : Json}
    (h : readObject value s = .ok (v, r)) : r.length < s.length := by
  unfold readObject at h
  split at h
  · simp at h
  · next c r' hs =>
    have hl := length_lt_of_skipSpace hs
    split at h
    · -- no members, so that nothing but the brace is taken
      simp only [Except.ok.injEq, Prod.mk.injEq] at h
      exact h.2 ▸ hl
    · split at h
      · simp at h
      · next members rest hm =>
        have := length_readMembers_lt hm
        simp only [Except.ok.injEq, Prod.mk.injEq] at h
        rw [List.length_cons] at this
        rw [← h.2]
        omega

theorem length_readScalar_lt {dialect : Dialect} {s r : Text} {v : Json}
    (h : readScalar dialect s = .ok (v, r)) : r.length < s.length := by
  unfold readScalar at h
  split at h
  · next k r' hk =>
    split at h
    · simp at h
    · simp only [Except.ok.injEq, Prod.mk.injEq] at h
      exact h.2 ▸ length_keyword_lt hk
  · exact length_readNumber_lt h

/-- A value takes its first code point at least. -/
theorem length_readWith_lt {dialect : Dialect} {inner : Option Reader} {s r : Text} {v : Json}
    (h : readWith dialect inner s = .ok (v, r)) : r.length < s.length := by
  unfold readWith at h
  split at h
  · simp at h
  · next c r' =>
    split at h
    · split at h
      · simp at h
      · next t rest ht =>
        have := length_readString_lt ht
        simp only [Except.ok.injEq, Prod.mk.injEq] at h
        simp only [← h.2, List.length_cons]
        omega
    · split at h
      · -- without calls left there is no reader for what is inside, and nothing is read
        cases inner with
        | none => simp [readInside] at h
        | some value =>
          have : r.length < r'.length := length_readObject_lt h
          simp only [List.length_cons]
          omega
      · split at h
        · cases inner with
          | none => simp [readInside] at h
          | some value =>
            have : r.length < r'.length := length_readArray_lt h
            simp only [List.length_cons]
            omega
        · exact length_readScalar_lt h

/-- The reader of values whose brackets are nested at most `room` deep. -/
def reader (dialect : Dialect) : (room : Nat) → Reader
  | 0 => ⟨readWith dialect none, length_readWith_lt⟩
  | room + 1 => ⟨readWith dialect (some (reader dialect room)), length_readWith_lt⟩

/-! ## Section 6: Whole texts -/

/-- The byte order mark, which no JSON text begins with. -/
def byteOrderMark : CodePoint := .scalar (Char.ofNat 0xFEFF)

/-- The value of a text that holds one value and white space around it. -/
def parseDialect (dialect : Dialect) (text : Text) : Except Fault Json :=
  if text.head? = some byteOrderMark then .error (.atPlace .byteOrderMark text)
  else
    match (reader dialect maxDepth).read (skipSpace text) with
    | .error f => .error f
    | .ok (v, rest) =>
      -- blanks may follow the value, and nothing else
      match skipSpace rest with
      | [] => .ok v
      | c :: r => .error (.atPlace .extraData (c :: r))

/-- The value of a strict JSON text. -/
def parse (text : Text) : Except Fault Json := parseDialect .strict text

/-- The value of a JSON text that may also use the constants for infinities and for not-a-number. -/
def parseLenient (text : Text) : Except Fault Json := parseDialect .lenient text

end FormSchema.Json
