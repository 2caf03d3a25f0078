import FormSchema.Disk.Discovery

/-!
# Changes of a disk

The files of a disk, under all names that lead to one, and those that another disk does not have
with the same content.
-/

namespace FormSchema.Disk

/-- The content of the file to which an entry of a disk leads, if it leads to a file. -/
def contentAt? (disk : Disk) (entry : Place) : Option Octets :=
  match entry.node with
  | .file content => some content
  | .directory _ => none
  | .link _ =>
    match disk.reach entry.parts with
    | .ok ⟨_, .file content⟩ => some content
    | _ => none

/-- The files of a disk: their components and contents.  A link that leads to a file counts as one;
a directory behind a link is not entered. -/
def files (disk : Disk) : List (List Text × Octets) :=
  (below [] disk.root).filterMap fun entry =>
    (disk.contentAt? entry).map fun content => (entry.parts, content)

/-- The files of `after` that `before` has not, or has with another content. -/
def changes (before after : Disk) : List (List Text × Octets) :=
  let old := before.files
  after.files.filter fun f => !old.contains f

end FormSchema.Disk
