import FormSchema.Path
import FormSchema.Text.Utf8

/-!
# File trees

A tree of directories, files and symbolic links, and the place to which a path leads.  Links are
followed wherever they stand in a path, up to a number that no sensible path needs.  Neither a path
nor a name in it may have more octets than the system takes.
-/

namespace FormSchema

/-! ## Section 1: Trees -/

/-- A file, a directory or a symbolic link. -/
inductive Disk.Node
  | file (content : Octets)
  | directory (entries : List (Text × Node))
  | link (target : Text)
  deriving Inhabited

/-- A disk: the directory at the root, and the directory from which relative paths start. -/
structure Disk where
  root : Disk.Node
  current : List Text

namespace Disk

/-- The node under a name in a directory. -/
def Node.child? (name : Text) : Node → Option Node
  | .directory entries => (entries.find? fun e => e.1 = name).map (·.2)
  | _ => none

def Node.isDirectory : Node → Bool
  | .directory _ => true
  | _ => false

/-! ## Section 2: Following paths -/

/-- Why a path leads nowhere. -/
inductive Nowhere
  | missing
  | notDirectory
  | tooManyLinks
  | nameTooLong
  deriving DecidableEq

/-- Where a path leads: the components of the place without any link, and what stands there. -/
structure Place where
  parts : List Text
  node : Node

/-- The nodes on the way from the root to a place, the last first, each with its name. -/
abbrev Trail := List (Text × Node)

def endOf (root : Node) (trail : Trail) : Node :=
  match trail with
  | [] => root
  | (_, node) :: _ => node

/-- A surrogate that stands for an octet of a name that is not UTF-8. -/
def isLoneOctet (c : CodePoint) : Bool := 0xDC80 ≤ c.toNat && c.toNat ≤ 0xDCFF

/-- Whether the system knows names with this text: no code point is zero, and every surrogate stands
for an octet. -/
def isNameText (t : Text) : Bool :=
  !t.contains (.scalar '\x00') && (Utf8.unencodableFrom isLoneOctet 0 t).isNone

/-- How many octets a text has as a name. -/
def octetCount (t : Text) : Nat :=
  t.foldl (fun n c => n + if isLoneOctet c then 1 else (Utf8.encodeCodePoint c).length) 0

/-- The most octets that a component of a path may have. -/
def maxNameOctets : Nat := 255

/-- The most octets that the text of a path may have. -/
def maxPathOctets : Nat := 4095

/-- Whether the text of a path has too many octets. -/
def isOverlong (t : Text) : Bool := maxPathOctets < octetCount t

/-- The most links that are followed on one path. -/
def maxLinks : Nat := 40

/-- The step from a directory to itself. -/
def stay : Text := "."

/-- The steps of a link's target.  A slash at the end asks for a directory, too. -/
def stepsOf (target : Text) : List Text :=
  let names := (Text.split (.scalar '/') target).filter fun name => !name.isEmpty
  if target.getLast? = some (.scalar '/') then names ++ [stay] else names

/-- The steps to take for a link: those of its target, then the others. -/
def throughLink (target : Text) (rest : List Text) : List Text := stepsOf target ++ rest

/-- Follows the steps of a path from the end of a trail; `links` more links may be followed. -/
def follow (root : Node) (links : Nat) (trail : Trail) (todo : List Text) :
    Except Nowhere Trail :=
  match todo with
  | [] => .ok trail
  | name :: rest =>
    if !(endOf root trail).isDirectory then .error .notDirectory
    else if name = stay then follow root links trail rest
    -- the root is its own parent
    else if name = ".." then follow root links trail.tail rest
    else if maxNameOctets < octetCount name then .error .nameTooLong
    else
      match (endOf root trail).child? name with
      | none => .error .missing
      | some (.link target) =>
        match links with
        | 0 => .error .tooManyLinks
        | links + 1 =>
          -- a relative target starts from the directory that holds the link
          let start := if (Path.ofText target).isAbsolute then [] else trail
          follow root links start (throughLink target rest)
      | some node => follow root links ((name, node) :: trail) rest
termination_by (links, todo.length)

/-- The place where a trail ends. -/
def Place.ofTrail (root : Node) (trail : Trail) : Place :=
  ⟨(trail.map (·.1)).reverse, endOf root trail⟩

/-- The components that a path stands for, from the root. -/
def fromRoot (disk : Disk) (path : Path) : List Text :=
  if path.isAbsolute then path.parts else disk.current ++ path.parts

/-- The place to which components lead from the root. -/
def reach (disk : Disk) (parts : List Text) : Except Nowhere Place :=
  (follow disk.root maxLinks [] parts).map (Place.ofTrail disk.root)

/-- The place to which a path leads. -/
def locate (disk : Disk) (path : Path) : Except Nowhere Place :=
  if !isNameText path.text then .error .missing
  else if isOverlong path.text then .error .nameTooLong
  else disk.reach (disk.fromRoot path)

/-! ## Section 3: Changing trees -/

mutual

/-- A tree in which the file at some components has another content. -/
def Node.write (content : Octets) (parts : List Text) : Node → Node
  | .file old =>
    match parts with
    -- nothing is created: only a file that is there gets another content
    | [] => .file content
    | _ => .file old
  | .directory entries =>
    match parts with
    | [] => .directory entries
    | name :: rest => .directory (writeIn content name rest entries)
  | .link target => .link target

/-- Entries in which the file at some components below the entry of a name has another content. -/
def writeIn (content : Octets) (name : Text) (rest : List Text) :
    List (Text × Node) → List (Text × Node)
  | [] => []
  | (n, node) :: entries =>
    if n = name then (n, node.write content rest) :: entries
    else (n, node) :: writeIn content name rest entries

end

/-- Nothing but directories on the way to a node. -/
def Node.under (node : Node) : List Text → Node
  | [] => node
  | name :: rest => .directory [(name, node.under rest)]

mutual

/-- A tree with a node put at some components, in the place of what stands there; missing
directories on the way are made.  A file or a link on the way gives way to a directory. -/
def Node.put (new : Node) (parts : List Text) : Node → Node
  | .directory entries =>
    match parts with
    | [] => new
    | name :: rest => .directory (putIn new name rest entries)
  | _ => new.under parts

/-- Entries with a node put at some components below the entry of a name. -/
def putIn (new : Node) (name : Text) (rest : List Text) :
    List (Text × Node) → List (Text × Node)
  | [] => [(name, new.under rest)]
  | (n, node) :: entries =>
    if n = name then (n, Node.put new rest node) :: entries
    else (n, node) :: putIn new name rest entries

end

/-- A disk in which the file at a place has another content. -/
def write (disk : Disk) (place : List Text) (content : Octets) : Disk :=
  { disk with root := disk.root.write content place }

end Disk

end FormSchema
