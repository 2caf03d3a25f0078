import FormSchema.CommandLine.Run
import FormSchema.Disk.Changes

/-!
# The program

The outermost layer: the files that a request looks at are read into a disk, the program runs on it,
the files that it has changed are written back, and what it prints is printed.
-/

namespace FormSchema.Host

open System (FilePath)

/-- The components of a path of the host. -/
def partsOf (p : FilePath) : List Text := Path.components (Text.ofString p.toString)

/-- The host's path of some components. -/
def pathOf (parts : List Text) : FilePath := Text.toString (Path.text ⟨1, parts⟩)

/-- Puts a directory or a link into a tree, without what stands below it. -/
def revealNode (p : FilePath) (tree : Disk.Node) : IO Disk.Node := do
  match (← p.symlinkMetadata).type with
  | .dir =>
    match (Disk.mk tree []).reach (partsOf p) with
    | .ok _ => return tree
    | .error _ => return Disk.Node.put (.directory []) (partsOf p) tree
  | .symlink =>
    let target ← IO.FS.realPath p
    return Disk.Node.put (.link (Text.ofString target.toString)) (partsOf p) tree
  | _ => return tree

/-- Puts everything at and below a path into a tree.  A link is put there with the file to which it
leads; a directory behind a link is not entered. -/
partial def loadNode (p : FilePath) (tree : Disk.Node) : IO Disk.Node := do
  match (← p.symlinkMetadata).type with
  | .dir =>
    let mut loaded := Disk.Node.put (.directory []) (partsOf p) tree
    for entry in ← p.readDir do
      loaded ← loadNode entry.path loaded
    return loaded
  | .file =>
    return Disk.Node.put (.file (← IO.FS.readBinFile p).toList) (partsOf p) tree
  | .symlink =>
    if ← p.pathExists then
      let target ← IO.FS.realPath p
      let linked ← revealNode p tree
      if ← target.isDir then return linked else loadNode target linked
    else return tree
  | .other => return tree

/-- Puts what stands at the end of a path into a tree, and the directories and links on the way. -/
def loadPath (place : FilePath) (parts : List Text) (tree : Disk.Node) : IO Disk.Node := do
  match parts with
  | [] => loadNode place tree
  | name :: rest =>
    if name = ".." then loadPath (place.parent.getD place) rest tree
    else
      let next := place / Text.toString name
      if ← next.pathExists then
        loadPath (← IO.FS.realPath next) rest (← revealNode next tree)
      else return tree

/-- The disk with all that some paths lead to. -/
def loadDisk (paths : List Path) : IO Disk := do
  let here := partsOf (← IO.currentDir)
  let empty : Disk := ⟨(Disk.Node.directory []).put here (.directory []), here⟩
  let mut tree := empty.root
  for path in paths do
    tree ← loadPath (pathOf []) (empty.fromRoot path) tree
  return ⟨tree, here⟩

/-- Writes changed files back. -/
def store (changed : List (List Text × Octets)) : IO Unit := do
  for (parts, content) in changed do
    IO.FS.writeBinFile (pathOf parts) ⟨content.toArray⟩

/-- The paths that some arguments make the program look at. -/
def pathsOf (arguments : List Text) : List Path :=
  match CommandLine.Invocation.ofArguments arguments with
  | .ok ⟨some request, _⟩ => request.paths
  | _ => []

/-- What an ending says, and the code with which it ends. -/
def report : CommandLine.Ending → Text × Nat
  | .exit code messages => (messages, code.code)
  | .stop s =>
    (if s.message.isEmpty then [] else CommandLine.asLine s.message, s.code.code)
  | .fault f => (CommandLine.asLine f.message, ExitCode.violation.code)
  | .violation v => (CommandLine.asLine v.cause.message, ExitCode.violation.code)
  | .need n => (CommandLine.asLine n.message, ExitCode.violation.code)

end FormSchema.Host

open FormSchema in
def main (args : List String) : IO UInt32 := do
  let arguments := args.map Text.ofString
  let disk ← Host.loadDisk (Host.pathsOf arguments)
  let outcome := CommandLine.run disk arguments
  Host.store (disk.changes outcome.disk)
  let (messages, code) := Host.report outcome.ending
  IO.print (Text.toString outcome.output)
  IO.eprint (Text.toString messages)
  return UInt32.ofNat code
