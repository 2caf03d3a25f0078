import FormSchema.Disk.Discovery
import FormSchema.Engine
import FormSchema.Report

/-!
# Documents on disk

The findings about a file, and about all documents to which a path leads.
-/

namespace FormSchema.Disk

/-- Why documents could not be validated. -/
inductive DocumentError
  | noFile (path : Path)
  | noRoot (path : Path)
  | fault (f : Fault)

def DocumentError.message : DocumentError → Text
  | .noFile path => "validate_file: file does not exist: " ++ path.text
  | .noRoot path => "validate_path: root does not exist: " ++ path.text
  | .fault f => f.message

/-- The findings about the file to which a path leads. -/
def validateFile (disk : Disk) (path : Path) : Except DocumentError (List Diagnostic) :=
  match disk.lookForFile path with
  | .error f => .error (.fault f)
  | .ok none => .error (.noFile path)
  | .ok (some (_, content)) => .ok (validateText path.text (textOf content))

/-- The findings about some files, added to earlier ones. -/
def validateFiles (disk : Disk) (findings : Findings) : List Path → Except DocumentError Findings
  | [] => .ok findings
  | path :: rest =>
    match disk.validateFile path with
    | .error e => .error e
    | .ok found => disk.validateFiles (findings.put path.text found) rest

/-- The findings about all documents to which a path leads, by their absolute paths. -/
def collect (disk : Disk) (root : Path) (config : Config) (exclude : List Text) :
    Except DocumentError Findings :=
  match disk.look root with
  | .error f => .error (.fault f)
  -- discovery would find nothing below a root that is missing; here that is an error
  | .ok none => .error (.noRoot root)
  | .ok (some _) =>
    match disk.discover root config exclude with
    | .error f => .error (.fault f)
    | .ok paths => disk.validateFiles [] paths

end FormSchema.Disk
