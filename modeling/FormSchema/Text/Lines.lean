import FormSchema.Text.CodePoint

/-!
# Lines, occurrences, line ends and blanks

Cutting a text at a separator and joining the pieces again, the leftmost occurrence of one text in
another, the reading of every line end (LF, CR LF or a lone CR) as one line feed, and the removal of
blanks from both ends of a text.
-/

namespace FormSchema

namespace Text

/-! ## Section 1: Cutting and joining -/

/-- One code point put in front of the first piece. -/
def consPiece (c : CodePoint) : List Text → List Text
  | [] => [[c]]
  | p :: ps => (c :: p) :: ps

/-- The pieces of a text between the occurrences of a separator; there is always at least one. -/
def split (sep : CodePoint) (t : Text) : List Text :=
  t.foldr (fun c ps => if c = sep then [] :: ps else consPiece c ps) [[]]

@[simp] theorem split_nil (sep : CodePoint) : split sep [] = [[]] := rfl

theorem split_cons (sep c : CodePoint) (t : Text) :
    split sep (c :: t) = if c = sep then [] :: split sep t else consPiece c (split sep t) := rfl

/-- The lines of a text: its pieces between line feeds. -/
def lines (t : Text) : List Text := split .lineFeed t

/-- Pieces joined with a separator between neighbours. -/
def join (sep : Text) (pieces : List Text) : Text := List.intercalate sep pieces

def unlines (ls : List Text) : Text := join [.lineFeed] ls

/-- A text without one line feed at its end. -/
def dropFinalLineFeed (t : Text) : Text :=
  if t.getLast? = some .lineFeed then t.dropLast else t

/-! ## Section 2: Occurrences -/

/-- The position of the leftmost occurrence of `needle`, counted from `i`. -/
def findFrom (needle : Text) (i : Nat) : Text → Option Nat
  | [] => if needle.isPrefixOf [] then some i else none
  | c :: t => if needle.isPrefixOf (c :: t) then some i else findFrom needle (i + 1) t

/-- The position of the leftmost occurrence of `needle` in a text. -/
def find? (needle t : Text) : Option Nat := findFrom needle 0 t

def occursIn (needle t : Text) : Bool := (find? needle t).isSome

def endsWith (t tail : Text) : Bool := tail.isSuffixOf t

def startsWith (t start : Text) : Bool := start.isPrefixOf t

/-- What follows `start` in a text that begins with it. -/
def afterStart? : Text → Text → Option Text
  | [], t => some t
  | _ :: _, [] => none
  | c :: start, d :: t => if c = d then afterStart? start t else none

/-- A text with `inserted` put in before position `i`. -/
def spliceAt (t : Text) (i : Nat) (inserted : Text) : Text := t.take i ++ inserted ++ t.drop i

/-! ## Section 3: Line ends -/

/-- Every line end read as one line feed: a CR LF pair, a lone CR and a lone LF each give one.
The flag tells whether the next code point of the text is a line feed. -/
def unifyLineEndsStep (c : CodePoint) (after : Bool × Text) : Bool × Text :=
  (c = .lineFeed,
    if c = .carriageReturn then
      if after.1 then after.2 else .lineFeed :: after.2
    else c :: after.2)

/-- The text with every line end read as one line feed. -/
def unifyLineEnds (t : Text) : Text := (t.foldr unifyLineEndsStep (false, [])).2

end Text

/-! ## Section 4: Blanks -/

/-- A code point that Unicode counts as white space, or one of the four ASCII separators `U+001C` to
`U+001F`. -/
def CodePoint.isBlank (c : CodePoint) : Bool :=
  let n := c.toNat
  (0x09 ≤ n && n ≤ 0x0D) || (0x1C ≤ n && n ≤ 0x20) || n == 0x85 || n == 0xA0 || n == 0x1680 ||
    (0x2000 ≤ n && n ≤ 0x200A) || n == 0x2028 || n == 0x2029 || n == 0x202F || n == 0x205F ||
    n == 0x3000

/-- A text without the blanks at its end. -/
def Text.stripEnd (t : Text) : Text := (t.reverse.dropWhile CodePoint.isBlank).reverse

/-- A text without the blanks at its two ends. -/
def Text.strip (t : Text) : Text := Text.stripEnd (t.dropWhile CodePoint.isBlank)

end FormSchema
