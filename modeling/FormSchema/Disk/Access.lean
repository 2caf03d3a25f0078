import FormSchema.Disk.Tree
import FormSchema.Text.Quoted

/-!
# Access to files

Looking for what a path leads to, and reading files as text.  A path that leads nowhere is no error
when it is only looked for, unless the path or a name in it is longer than the system takes.
-/

namespace FormSchema.Disk

/-! ## Section 1: Faults -/

/-- Why an access failed: the path leads nowhere or to a directory, no path can be written so, or
the file is not UTF-8. -/
inductive Fault
  | nowhere (reason : Nowhere) (path : Text)
  | isDirectory (path : Text)
  | unencodable (u : Utf8.Unencodable)
  | zeroInPath
  | malformed (m : Utf8.Malformed)

/-- The number and wording of a reason. -/
def Nowhere.message : Nowhere → Text
  | .missing => "[Errno 2] No such file or directory"
  | .notDirectory => "[Errno 20] Not a directory"
  | .tooManyLinks => "[Errno 40] Too many levels of symbolic links"
  | .nameTooLong => "[Errno 36] File name too long"

def Fault.message : Fault → Text
  | .nowhere reason path => reason.message ++ ": " ++ Quoted.quote path
  | .isDirectory path => "[Errno 21] Is a directory: " ++ Quoted.quote path
  | .unencodable u => u.message
  | .zeroInPath => "embedded null byte"
  | .malformed m => m.message

/-! ## Section 2: Looking and reading -/

/-- What a search says of a path whose text is given. -/
def found (text : Text) : Except Nowhere Place → Except Fault (Option Place)
  | .ok place => .ok (some place)
  | .error .nameTooLong => .error (.nowhere .nameTooLong text)
  | .error _ => .ok none

/-- What a path leads to, if anything. -/
def look (disk : Disk) (path : Path) : Except Fault (Option Place) :=
  found path.text (disk.locate path)

/-- The place and the content of the file to which a path leads, if it leads to a file. -/
def lookForFile (disk : Disk) (path : Path) : Except Fault (Option (List Text × Octets)) :=
  match disk.look path with
  | .error f => .error f
  | .ok (some ⟨parts, .file content⟩) => .ok (some (parts, content))
  | .ok _ => .ok none

/-- The text of a file, every line end read as a line feed and every malformed sequence as
`U+FFFD`. -/
def textOf (content : Octets) : Text := Text.unifyLineEnds (Utf8.decodeLossy content)

/-- The text of a file that holds no malformed sequence, every line end read as a line feed. -/
def strictTextOf (content : Octets) : Except Fault Text :=
  match Utf8.decode content with
  | .error m => .error (.malformed m)
  | .ok t => .ok (Text.unifyLineEnds t)

/-- Why no path can be written so, if none can. -/
def unwritable? (path : Text) : Option Fault :=
  match Utf8.unencodableFrom isLoneOctet 0 path with
  | some u => some (.unencodable u)
  | none => if path.contains (.scalar '\x00') then some .zeroInPath else none

/-- The strict text of the file to which a path leads. -/
def readText (disk : Disk) (path : Path) : Except Fault Text :=
  match unwritable? path.text, disk.locate path with
  | some fault, _ => .error fault
  | none, .error reason => .error (.nowhere reason path.text)
  | none, .ok ⟨_, .file content⟩ => strictTextOf content
  | none, .ok _ => .error (.isDirectory path.text)

end FormSchema.Disk
