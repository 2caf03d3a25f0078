import FormSchema.Text.Lines

/-!
# Paths

Slash-separated paths.  Empty and `.` components are dropped when a path is read, `..` components
are kept, and a path that begins with exactly two slashes keeps both.
-/

namespace FormSchema

/-- A path: how many slashes it begins with, and its components. -/
structure Path where
  slashes : Nat
  parts : List Text
  deriving DecidableEq, Inhabited

namespace Path

/-- The components of a path text without the empty ones and those that are a single dot. -/
def components (t : Text) : List Text :=
  (Text.split (.scalar '/') t).filter fun c => !(c = [] || c = ".")

/-- The number of slashes that a path keeps of those at its front. -/
def leadingSlashes (t : Text) : Nat :=
  match (t.takeWhile (· = .scalar '/')).length with
  | 0 => 0
  | 2 => 2
  | _ => 1

/-- The path that a text writes. -/
def ofText (t : Text) : Path := ⟨leadingSlashes t, components t⟩

/-- Whether a path begins at the root of the tree. -/
def isAbsolute (p : Path) : Bool := p.slashes ≠ 0

/-- The text of a path; the empty relative path is written as a dot. -/
def text (p : Path) : Text :=
  if p.slashes = 0 && p.parts.isEmpty then "."
  else List.replicate p.slashes (.scalar '/') ++ Text.join "/" p.parts

/-- The last component of a path, empty if there is none. -/
def name (p : Path) : Text := p.parts.getLast?.getD []

/-- The path `q` seen from the directory `p`. -/
def append (p q : Path) : Path :=
  if q.isAbsolute then q else ⟨p.slashes, p.parts ++ q.parts⟩

/-- A path with one component more. -/
def child (p : Path) (name : Text) : Path := ⟨p.slashes, p.parts ++ [name]⟩

end Path

end FormSchema
