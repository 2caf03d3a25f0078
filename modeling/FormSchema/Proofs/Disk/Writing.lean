import FormSchema.Disk.Access
import Mathlib.Data.List.Infix

/-!
# Writing a file

A write puts another content into the file at one place.  Paths lead to the same places as before,
since directories and links stay as they are, and what a path finds is the same as before, but for
the content of that file.
-/

namespace FormSchema.Disk

/-! ## Section 1: Trees after a write -/

variable {content : Octets} {place : List Text}

@[simp] theorem write_link (target : Text) (parts : List Text) :
    (Node.link target).write content parts = .link target := by
  rw [Node.write]

@[simp] theorem isDirectory_write (node : Node) (parts : List Text) :
    (node.write content parts).isDirectory = node.isDirectory := by
  cases node with
  | file old => cases parts <;> simp [Node.write, Node.isDirectory]
  | directory entries => cases parts <;> simp [Node.write, Node.isDirectory]
  | link target => simp

/-- A node of a tree after a write, where `parts` leads from the root to the node. -/
def Node.after (content : Octets) (place parts : List Text) (node : Node) : Node :=
  if parts <+: place then node.write content (place.drop parts.length) else node

private theorem after_above (parts rest : List Text) (node : Node) :
    node.after content (parts ++ rest) parts = node.write content rest := by
  rw [Node.after, if_pos (List.prefix_append parts rest), List.drop_left]

private theorem after_append (parts more rest : List Text) (node : Node) :
    node.after content (parts ++ rest) (parts ++ more) = node.after content rest more := by
  simp only [Node.after, List.prefix_append_right_inj, List.length_append, ← List.drop_drop,
    List.drop_left]

private theorem after_of_not_above {parts : List Text} (h : ¬ parts <+: place) (node : Node) :
    node.after content place parts = node := if_neg h

@[simp] theorem isDirectory_after (parts : List Text) (node : Node) :
    (node.after content place parts).isDirectory = node.isDirectory := by
  unfold Node.after
  split
  · exact isDirectory_write _ _
  · rfl

@[simp] theorem after_link (parts : List Text) (target : Text) :
    (Node.link target).after content place parts = .link target := by
  unfold Node.after
  split
  · exact write_link _ _
  · rfl

private theorem after_ne_link {node : Node} (h : ∀ target, node = .link target → False)
    {parts : List Text} (target : Text) : node.after content place parts ≠ .link target := by
  unfold Node.after
  split
  · cases node with
    | file old => cases place.drop parts.length <;> simp [Node.write]
    | directory entries => cases place.drop parts.length <;> simp [Node.write]
    | link target => exact absurd rfl (h target)
  · exact h target

/-- A child is the first entry of its name. -/
theorem child?_directory (name : Text) (entries : List (Text × Node)) :
    (Node.directory entries).child? name = (entries.find? fun e => e.1 = name).map (·.2) := rfl

private theorem child?_writeIn (name other : Text) (rest : List Text)
    (entries : List (Text × Node)) :
    (Node.directory (writeIn content name rest entries)).child? other =
      ((Node.directory entries).child? other).map (Node.after content (name :: rest) [other]) := by
  induction entries with
  | nil => rfl
  | cons e entries ih =>
    obtain ⟨n, node⟩ := e
    rw [child?_directory, child?_directory] at ih ⊢
    by_cases hother : n = other
    · subst hother
      -- the first entry of the name is written if it is the one to be written
      by_cases hname : n = name
      · subst hname
        simp [writeIn, Node.after]
      · simp [writeIn, hname, Node.after]
    · by_cases hname : n = name
      · subst hname
        have hne : ¬ [other] <+: n :: rest := by simpa using fun h => hother h.symm
        have hid : Node.after content (n :: rest) [other] = id := funext (after_of_not_above hne)
        simp [writeIn, hother, hid]
      · simp only [writeIn, if_neg hname, List.find?_cons]
        simpa [hother] using ih

private theorem child?_write (parts : List Text) (name : Text) (node : Node) :
    (node.write content parts).child? name =
      (node.child? name).map (Node.after content parts [name]) := by
  -- only the contents of a directory can change below its name
  cases node with
  | file old => cases parts <;> simp [Node.write, Node.child?]
  | link target => rw [write_link]; rfl
  | directory entries =>
    cases parts with
    | nil =>
      have hid : Node.after content [] [name] = id := funext (after_of_not_above (by simp))
      rw [Node.write, hid, Option.map_id]
      rfl
    | cons n rest =>
      rw [Node.write]
      exact child?_writeIn n name rest entries

/-- Below a node stand after a write the same names, and under each of them the node that the write
has left there. -/
theorem child?_after (parts : List Text) (name : Text) (node : Node) :
    (node.after content place parts).child? name =
      (node.child? name).map (Node.after content place (parts ++ [name])) := by
  -- only what stands on the way to the file changes
  by_cases h : parts <+: place
  · obtain ⟨rest, rfl⟩ := h
    have hmore : Node.after content (parts ++ rest) (parts ++ [name]) =
        Node.after content rest [name] := funext (after_append parts [name] rest)
    rw [after_above, hmore]
    exact child?_write rest name node
  · have hmore : ¬ parts ++ [name] <+: place := fun hp => h ((List.prefix_append _ _).trans hp)
    have hid : Node.after content place (parts ++ [name]) = id :=
      funext (after_of_not_above hmore)
    rw [after_of_not_above h, hid, Option.map_id]
    rfl

/-! ## Section 2: Paths after a write -/

/-- Where a trail leads, from the root. -/
def Trail.parts (trail : Trail) : List Text := (trail.map (·.1)).reverse

/-- The nodes of a trail after a write. -/
def Trail.after (content : Octets) (place : List Text) : Trail → Trail
  | [] => []
  | (name, node) :: trail =>
    (name, node.after content place (Trail.parts ((name, node) :: trail))) ::
      Trail.after content place trail

private theorem parts_after (trail : Trail) :
    (Trail.after content place trail).map (·.1) = trail.map (·.1) := by
  induction trail with
  | nil => rfl
  | cons e trail ih => exact congrArg (e.1 :: ·) ih

private theorem tail_after (trail : Trail) :
    (Trail.after content place trail).tail = Trail.after content place trail.tail := by
  cases trail <;> rfl

/-- After a write a path ends where it did before, with the write seen from there. -/
private theorem endOf_after (root : Node) (trail : Trail) :
    endOf (root.write content place) (Trail.after content place trail) =
      (endOf root trail).after content place (Trail.parts trail) := by
  cases trail with
  | nil => exact (after_above [] place root).symm
  | cons e trail => rfl

/-- A write does not change where paths lead. -/
theorem follow_write (content : Octets) (place : List Text) (root : Node) (links : Nat)
    (trail : Trail) (todo : List Text) :
    follow (root.write content place) links (Trail.after content place trail) todo =
      (follow root links trail todo).map (Trail.after content place) := by
  -- step by step: each looks whether it starts from a directory, and for a child of that
  fun_induction follow root links trail todo with
  | case1 links trail => rw [follow]; rfl
  | case2 links trail name rest hdir =>
    rw [follow, endOf_after, isDirectory_after, if_pos hdir]
    rfl
  | case3 links trail rest hdir ih =>
    rw [follow, endOf_after, isDirectory_after, if_neg hdir, if_pos rfl, ih]
  | case4 links trail rest hdir hstay ih =>
    rw [follow, endOf_after, isDirectory_after, if_neg hdir, if_neg hstay, if_pos rfl, tail_after,
      ih]
  | case5 links trail name rest hdir hstay hup hlong =>
    rw [follow, endOf_after, isDirectory_after, if_neg hdir, if_neg hstay, if_neg hup, if_pos hlong]
    rfl
  | case6 links trail name rest hdir hstay hup hlong hchild =>
    rw [follow, endOf_after, isDirectory_after, if_neg hdir, if_neg hstay, if_neg hup,
      if_neg hlong, child?_after, hchild]
    rfl
  | case7 trail name rest hdir hstay hup hlong target hchild =>
    rw [follow, endOf_after, isDirectory_after, if_neg hdir, if_neg hstay, if_neg hup,
      if_neg hlong, child?_after, hchild]
    simp only [Option.map_some, after_link]
    rfl
  | case8 trail name rest hdir hstay hup hlong target hchild links start ih =>
    rw [follow, endOf_after, isDirectory_after, if_neg hdir, if_neg hstay, if_neg hup,
      if_neg hlong, child?_after, hchild]
    simp only [Option.map_some, after_link]
    have hstart : Trail.after content place start =
        if (Path.ofText target).isAbsolute then [] else Trail.after content place trail := by
      simp only [start]
      split <;> rfl
    rw [← hstart]
    exact ih
  | case9 links trail name rest hdir hstay hup hlong node hlink hchild ih =>
    rw [follow, endOf_after, isDirectory_after, if_neg hdir, if_neg hstay, if_neg hup,
      if_neg hlong, child?_after, hchild, Option.map_some]
    split
    · next h => cases h
    · next target h => exact absurd (Option.some.inj h) (after_ne_link hlink target)
    · next h =>
      cases h
      simpa only [Trail.after, Trail.parts, List.map_cons, List.reverse_cons] using ih

/-! ## Section 3: Looking after a write -/

private theorem after_file (old : Octets) (parts : List Text) :
    (Node.file old).after content place parts = .file (if parts = place then content else old) := by
  -- the file itself, or another one, which is not above it
  by_cases h : parts <+: place
  · obtain ⟨rest, rfl⟩ := h
    rw [after_above]
    cases rest with
    | nil => simp [Node.write]
    | cons name rest => simp [Node.write]
  · have hne : parts ≠ place := by
      rintro rfl
      exact h List.prefix_rfl
    rw [after_of_not_above h, if_neg hne]

private theorem after_directory (content : Octets) (place : List Text)
    (entries : List (Text × Node))
    (parts : List Text) :
    ∃ others, (Node.directory entries).after content place parts = .directory others := by
  unfold Node.after
  split
  · cases place.drop parts.length with
    | nil => exact ⟨entries, by rw [Node.write]⟩
    | cons name rest => exact ⟨_, by rw [Node.write]⟩
  · exact ⟨entries, rfl⟩

/-- What stands at a place after a write. -/
def Place.after (content : Octets) (place : List Text) (p : Place) : Place :=
  ⟨p.parts, p.node.after content place p.parts⟩

private theorem ofTrail_after (root : Node) (trail : Trail) :
    Place.ofTrail (root.write content place) (Trail.after content place trail) =
      (Place.ofTrail root trail).after content place := by
  rw [Place.ofTrail, parts_after, endOf_after]
  rfl

private theorem locate_write (disk : Disk) (path : Path) :
    (disk.write place content).locate path =
      (disk.locate path).map (Place.after content place) := by
  -- the path is walked as before, since no directory and no link changes
  have hreach : (disk.write place content).reach (disk.fromRoot path) =
      (disk.reach (disk.fromRoot path)).map (Place.after content place) := by
    have hfollow := follow_write content place disk.root maxLinks [] (disk.fromRoot path)
    rw [reach, reach, write, Trail.after] at *
    rw [hfollow]
    cases follow disk.root maxLinks [] (disk.fromRoot path) with
    | error reason => rfl
    | ok trail => exact congrArg Except.ok (ofTrail_after disk.root trail)
  have hroot : (disk.write place content).fromRoot path = disk.fromRoot path := rfl
  unfold locate
  split
  · rfl
  split
  · rfl
  · rw [hroot, hreach]

/-- After a write every path leads to the file to which it has led before, and that has the content
that it had, unless it is the one that was written. -/
theorem lookForFile_write (disk : Disk) (place : List Text) (content : Octets) (path : Path) :
    (disk.write place content).lookForFile path =
      (disk.lookForFile path).map
        (Option.map fun file => (file.1, if file.1 = place then content else file.2)) := by
  unfold lookForFile look
  rw [locate_write]
  -- a path leads to the same kind of thing, and only the content of a file can change
  cases disk.locate path with
  | error reason => cases reason <;> rfl
  | ok p =>
    obtain ⟨parts, node⟩ := p
    cases node with
    | file old =>
      simp only [Except.map, found, Place.after, after_file, Option.map_some]
    | directory entries =>
      obtain ⟨others, hothers⟩ := after_directory content place entries parts
      simp only [Except.map, found, Place.after, hothers, Option.map_none]
    | link target => simp only [Except.map, found, Place.after, after_link, Option.map_none]

end FormSchema.Disk
