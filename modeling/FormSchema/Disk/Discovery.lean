import FormSchema.Config
import FormSchema.Disk.Access
import FormSchema.Text.CodePoint

/-!
# Discovery

The schema documents below a directory: the files whose names match the settings, that are not too
large, and none of whose components below the directory is excluded.  Links to files count as the
files to which they lead, links to directories are not entered, and every file is listed once, in
the order of the components of its path.

Directories may be nested as deeply as one likes here.  A host that goes down by recursion stops
where its stack is full, after about a thousand levels; that limit is left out.
-/

namespace FormSchema.Disk

/-! ## Section 1: What lies below a directory -/

def defaultExcludes : List Text :=
  [".git", ".github", ".venv", "venv", "__pycache__", "node_modules", "dist", "build", ".tox",
    ".mypy_cache", ".pytest_cache", ".ruff_cache", ".vscode"]

mutual

/-- Everything below a node whose components are `above`, each with its components. -/
def below (above : List Text) : Node → List Place
  | .file _ => []
  | .link _ => []
  | .directory entries => belowEntries above entries

/-- The entries of a directory and everything below them. -/
def belowEntries (above : List Text) : List (Text × Node) → List Place
  | [] => []
  | (name, node) :: rest =>
    ⟨above ++ [name], node⟩ :: (below (above ++ [name]) node ++ belowEntries above rest)

end

/-! ## Section 2: Candidates -/

/-- The text under which an entry below a directory is met: its directory, a slash, its name. -/
def entryText (directory : Path) (parts : List Text) : Text :=
  (directory.append ⟨0, parts.dropLast⟩).text ++ "/" ++ parts.getLast?.getD []

/-- What an entry below the directory at some components leads to.  Directories and links are looked
at by their texts, which fails for one that is too long; a file that cannot be looked at is passed
over. -/
def lookAtEntry (disk : Disk) (directory : Path) (base : List Text) (entry : Place) :
    Except Fault (Option Place) :=
  let here : Text := (directory.append ⟨0, entry.parts⟩).text
  match entry.node with
  | .link _ =>
    let met := entryText directory entry.parts
    if isOverlong met then .error (.nowhere .nameTooLong met)
    else found met (disk.reach (base ++ entry.parts))
  | .directory entries =>
    if isOverlong here then .error (.nowhere .nameTooLong here)
    else .ok (some ⟨base ++ entry.parts, .directory entries⟩)
  | .file content =>
    -- a file whose path is too long is passed over, and only that
    .ok (if isOverlong here then none else some ⟨base ++ entry.parts, .file content⟩)

/-- Whether an entry that leads to a file of some size is a document to be listed. -/
def isWanted (config : Config) (excluded : List Text) (parts : List Text) (size : Nat) : Bool :=
  config.matchesSuffix (parts.getLast?.getD []) && !parts.any (fun p => excluded.contains p) &&
    (size : Int) ≤ config.maxDocumentBytes

/-- The place of an entry that is a document to be listed, given what the entry leads to. -/
def wantedPlace? (config : Config) (excluded : List Text) (parts : List Text) :
    Option Place → Option (List Text)
  | some ⟨place, .file content⟩ =>
    if isWanted config excluded parts content.length then some place else none
  | _ => none

/-- The places of the documents among some entries. -/
def wantedPlaces (disk : Disk) (config : Config) (excluded : List Text) (directory : Path)
    (base : List Text) : List Place → Except Fault (List (List Text))
  | [] => .ok []
  | entry :: rest =>
    match lookAtEntry disk directory base entry with
    | .error f => .error f
    | .ok target =>
      match wantedPlaces disk config excluded directory base rest with
      | .error f => .error f
      -- the name of the link is judged, but the place to which it leads is listed
      | .ok places =>
        match wantedPlace? config excluded entry.parts target with
        | some place => .ok (place :: places)
        | none => .ok places

/-! ## Section 3: Discovery -/

/-- Places in the order of their components, each once. -/
def inOrder (places : List (List Text)) : List (List Text) :=
  (places.mergeSort fun a b => decide (a ≤ b)).eraseDups

/-- The documents to which a path leads: a file itself, or those below a directory, however deeply
they are nested there. -/
def discover (disk : Disk) (root : Path) (config : Config) (exclude : List Text) :
    Except Fault (List Path) :=
  match disk.look root with
  | .error f => .error f
  | .ok none => .ok []
  | .ok (some ⟨parts, .directory entries⟩) =>
    match wantedPlaces disk config (defaultExcludes ++ exclude) root parts
      (belowEntries [] entries) with
    | .error f => .error f
    | .ok places => .ok ((inOrder places).map fun place => ⟨1, place⟩)
  -- a file that is named itself is taken as it is, whatever its name and its size
  | .ok (some ⟨parts, .file _⟩) => .ok [⟨1, parts⟩]
  | .ok (some ⟨_, .link _⟩) => .ok []

end FormSchema.Disk
