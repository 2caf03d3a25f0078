import FormSchema.Proofs.Disk.Writing
import FormSchema.Proofs.Text.Lines
import FormSchema.Disk.Discovery

/-!
# Places on a disk

On a disk whose directories hold each name once, and only names that the system takes, a file can be
found again at the place where it was found: the absolute path of the place leads to it, unless the
text of that path is too long, and no other place has that text.
-/

namespace FormSchema

namespace Disk

/-! ## Section 1: Well-formed trees -/

/-- A name that an entry of a directory can have. -/
structure IsName (t : Text) : Prop where
  nonempty : t ≠ []
  ne_stay : t ≠ stay
  ne_up : t ≠ ".."
  no_slash : .scalar '/' ∉ t
  known : isNameText t = true
  short : octetCount t ≤ maxNameOctets

instance (t : Text) : Decidable (IsName t) :=
  decidable_of_iff (t ≠ [] ∧ t ≠ stay ∧ t ≠ ".." ∧ .scalar '/' ∉ t ∧ isNameText t = true ∧
      octetCount t ≤ maxNameOctets)
    ⟨fun ⟨h, hstay, hup, hslash, hknown, hshort⟩ => ⟨h, hstay, hup, hslash, hknown, hshort⟩,
      fun h => ⟨h.nonempty, h.ne_stay, h.ne_up, h.no_slash, h.known, h.short⟩⟩

/-- A tree whose directories hold each name once, and names that entries can have. -/
inductive Node.WellFormed : Node → Prop
  | file (content : Octets) : WellFormed (.file content)
  | link (target : Text) : WellFormed (.link target)
  | directory {entries : List (Text × Node)} (once : (entries.map (·.1)).Nodup)
      (isName : ∀ e ∈ entries, IsName e.1) (nodes : ∀ e ∈ entries, WellFormed e.2) :
      WellFormed (.directory entries)

/-- A disk with a well-formed tree. -/
def WellFormed (disk : Disk) : Prop := disk.root.WellFormed

/-- The node to which components lead down from a node, through directories alone. -/
def Node.at? : List Text → Node → Option Node
  | [], node => some node
  | name :: rest, node => (node.child? name).bind (Node.at? rest)

/-- A path can be followed in two parts. -/
theorem at?_append (parts more : List Text) (node : Node) :
    node.at? (parts ++ more) = (node.at? parts).bind (Node.at? more) := by
  induction parts generalizing node with
  | nil => rfl
  | cons name parts ih =>
    rw [List.cons_append, Node.at?, Node.at?, Option.bind_assoc]
    exact congrArg _ (funext ih)

/-- Only a directory has children. -/
theorem mem_of_child? {name : Text} {node child : Node} (h : node.child? name = some child) :
    ∃ entries, node = .directory entries ∧ (name, child) ∈ entries := by
  cases node with
  | directory entries =>
    rw [child?_directory, Option.map_eq_some_iff] at h
    obtain ⟨⟨n, c⟩, he, rfl⟩ := h
    obtain rfl : n = name := by simpa using List.find?_some he
    exact ⟨entries, rfl, List.mem_of_find?_eq_some he⟩
  | _ => cases h

/-- An entry is found by its name, as no name comes twice. -/
theorem child?_of_mem {entries : List (Text × Node)} (honce : (entries.map (·.1)).Nodup)
    {e : Text × Node} (he : e ∈ entries) : (Node.directory entries).child? e.1 = some e.2 := by
  rw [child?_directory]
  -- the first entry with the name is the only one
  induction entries with
  | nil => cases he
  | cons f entries ih =>
    obtain ⟨hf, honce⟩ := List.nodup_cons.mp honce
    rcases List.mem_cons.mp he with rfl | he
    · rw [List.find?_cons_of_pos (by simp)]
      rfl
    · have hne : f.1 ≠ e.1 := by
        intro heq
        exact hf (List.mem_map.mpr ⟨e, he, heq.symm⟩)
      rw [List.find?_cons_of_neg (by simpa using hne)]
      exact ih honce he

/-- What is in a well-formed tree is well-formed. -/
theorem Node.WellFormed.child {name : Text} {node child : Node} (h : node.WellFormed)
    (hchild : node.child? name = some child) : IsName name ∧ child.WellFormed := by
  obtain ⟨entries, rfl, hmem⟩ := mem_of_child? hchild
  cases h with
  | directory _ hname hnodes => exact ⟨hname _ hmem, hnodes _ hmem⟩

/-- What a path leads to in a well-formed tree is well-formed, and the path has names only. -/
theorem Node.WellFormed.of_at? {parts : List Text} {node target : Node} (h : node.WellFormed)
    (hat : node.at? parts = some target) : (∀ t ∈ parts, IsName t) ∧ target.WellFormed := by
  induction parts generalizing node with
  | nil =>
    cases hat
    exact ⟨nofun, h⟩
  | cons name parts ih =>
    obtain ⟨child, hchild, hat⟩ := Option.bind_eq_some_iff.mp hat
    obtain ⟨hname, hwell⟩ := h.child hchild
    exact (ih hwell hat).imp_left fun hparts => List.forall_mem_cons.mpr ⟨hname, hparts⟩

/-! ## Section 2: What lies below a directory -/

mutual

/-- Whatever lies below a node is where its components lead down from the node. -/
theorem at?_of_mem_below {node : Node} (h : node.WellFormed) {above : List Text} {p : Place}
    (hp : p ∈ below above node) :
    ∃ parts, p.parts = above ++ parts ∧ node.at? parts = some p.node := by
  -- only a directory has anything below it
  cases h with
  | file content => rw [below] at hp; cases hp
  | link target => rw [below] at hp; cases hp
  | @directory entries honce hname hnodes =>
    rw [below] at hp
    obtain ⟨e, he, rest, hparts, hat⟩ := at?_of_mem_belowEntries hnodes hp
    refine ⟨e.1 :: rest, hparts, ?_⟩
    rw [Node.at?, child?_of_mem honce he]
    exact hat

/-- What lies below some entries is found by its path from one of them. -/
theorem at?_of_mem_belowEntries {entries : List (Text × Node)}
    (h : ∀ e ∈ entries, e.2.WellFormed) {above : List Text} {p : Place}
    (hp : p ∈ belowEntries above entries) :
    ∃ e ∈ entries, ∃ rest, p.parts = above ++ e.1 :: rest ∧ e.2.at? rest = some p.node := by
  match entries, h with
  | [], _ => rw [belowEntries] at hp; cases hp
  | (name, node) :: entries, h =>
    obtain ⟨hnode, hrest⟩ := List.forall_mem_cons.mp h
    rw [belowEntries, List.mem_cons, List.mem_append] at hp
    -- the entry itself, what is below it, or one of the entries behind
    rcases hp with rfl | hp | hp
    · exact ⟨_, List.mem_cons_self, [], rfl, rfl⟩
    · obtain ⟨parts, hparts, hat⟩ := at?_of_mem_below hnode hp
      exact ⟨_, List.mem_cons_self, parts, by rw [hparts, List.append_assoc]; rfl, hat⟩
    · obtain ⟨e, he, rest, hparts, hat⟩ := at?_of_mem_belowEntries hrest hp
      exact ⟨e, List.mem_cons_of_mem _ he, rest, hparts, hat⟩

end

/-- What lies below a directory is found by its path. -/
theorem at?_of_mem_entries {entries : List (Text × Node)} (h : (Node.directory entries).WellFormed)
    {p : Place} (hp : p ∈ belowEntries [] entries) :
    (Node.directory entries).at? p.parts = some p.node := by
  obtain ⟨parts, hparts, hat⟩ := at?_of_mem_below h (show p ∈ below [] _ by rwa [below])
  rwa [hparts]

/-! ## Section 3: Following paths -/

/-- Whether every node of a trail is the child of the one before it. -/
def Trail.Stands (root : Node) : Trail → Prop
  | [] => True
  | (name, node) :: trail => (endOf root trail).child? name = some node ∧ Trail.Stands root trail

private theorem at?_of_stands {root : Node} {trail : Trail} (h : Trail.Stands root trail) :
    root.at? (Trail.parts trail) = some (endOf root trail) := by
  induction trail with
  | nil => rfl
  | cons e trail ih =>
    obtain ⟨hchild, htrail⟩ := h
    have hparts : Trail.parts (e :: trail) = Trail.parts trail ++ [e.1] := List.reverse_cons
    rw [hparts, at?_append, ih htrail, Option.bind_some, Node.at?, hchild]
    rfl

/-- Following a path never leaves the tree. -/
theorem stands_follow {root : Node} {links : Nat} {trail target : Trail} {todo : List Text}
    (htrail : Trail.Stands root trail) (h : follow root links trail todo = .ok target) :
    Trail.Stands root target := by
  -- every step enters a child, goes back, or begins again at the root
  fun_induction follow root links trail todo with
  | case1 => cases h; exact htrail
  | case3 links trail rest hdir ih => exact ih htrail h
  | case4 links trail rest hdir hstay ih =>
    cases trail with
    | nil => exact ih htrail h
    | cons e trail => exact ih htrail.2 h
  | case8 trail name rest hdir hstay hup hlong target hchild links start ih =>
    refine ih ?_ h
    simp only [start]
    split
    · trivial
    · exact htrail
  | case9 links trail name rest hdir hstay hup hlong node hlink hchild ih =>
    exact ih ⟨hchild, htrail⟩ h
  | _ => cases h

private theorem at?_of_reach {disk : Disk} {parts : List Text} {p : Place}
    (h : disk.reach parts = .ok p) : disk.root.at? p.parts = some p.node := by
  rw [reach] at h
  cases hfollow : follow disk.root maxLinks [] parts with
  | error reason =>
    rw [hfollow] at h
    cases h
  | ok trail =>
    rw [hfollow] at h
    cases h
    exact at?_of_stands (stands_follow (show Trail.Stands disk.root [] from trivial) hfollow)

/-- One step down to a node that is no link. -/
theorem follow_child {root : Node} (links : Nat) {trail : Trail} {name : Text} {child : Node}
    (rest : List Text) (hname : IsName name) (hchild : (endOf root trail).child? name = some child)
    (hlink : ∀ target, child ≠ .link target) :
    follow root links trail (name :: rest) = follow root links ((name, child) :: trail) rest := by
  -- what has a child is a directory, and a name is none of the special ones
  have hdir : (endOf root trail).isDirectory = true := by
    obtain ⟨entries, hnode, -⟩ := mem_of_child? hchild
    rw [hnode]
    rfl
  rw [follow, hdir, if_neg (by decide), if_neg hname.ne_stay, if_neg hname.ne_up,
    if_neg (Nat.not_lt.mpr hname.short), hchild]
  split
  · next h => cases h
  · next target h => exact absurd (Option.some.inj h) (hlink target)
  · next h =>
    cases h
    rfl

/-- From the end of a trail, components lead to what stands at them. -/
theorem follow_at? {root : Node} (links : Nat) (trail : Trail) {todo : List Text} {target : Node}
    (hroot : (endOf root trail).WellFormed) (hat : (endOf root trail).at? todo = some target)
    (hlink : ∀ t, target ≠ .link t) :
    ∃ trail', follow root links trail todo = .ok trail' ∧
      Trail.parts trail' = Trail.parts trail ++ todo ∧ endOf root trail' = target := by
  induction todo generalizing trail with
  | nil =>
    cases hat
    exact ⟨trail, by rw [follow], (List.append_nil _).symm, rfl⟩
  | cons name rest ih =>
    obtain ⟨child, hchild, hat⟩ := Option.bind_eq_some_iff.mp hat
    obtain ⟨hname, hwell⟩ := hroot.child hchild
    -- a link has nothing below it, so that the child is no link, in the middle or at the end
    have hchildLink : ∀ t, child ≠ .link t := by
      rintro t rfl
      cases rest with
      | nil => exact hlink t (Option.some.inj hat).symm
      | cons other rest => cases hat
    obtain ⟨trail', hfollow, hparts, hend⟩ := ih ((name, child) :: trail) hwell hat
    refine ⟨trail', (follow_child links rest hname hchild hchildLink).trans hfollow, ?_, hend⟩
    rw [hparts, Trail.parts, List.map_cons, List.reverse_cons, List.append_assoc]
    rfl

private theorem reach_of_at? {disk : Disk} (hdisk : disk.WellFormed) {parts : List Text}
    {node : Node}
    (hat : disk.root.at? parts = some node) (hlink : ∀ t, node ≠ .link t) :
    disk.reach parts = .ok ⟨parts, node⟩ := by
  obtain ⟨trail, hfollow, hparts, hend⟩ := follow_at? maxLinks [] hdisk hat hlink
  rw [reach, hfollow]
  exact congrArg Except.ok (congrArg₂ Place.mk hparts hend)

/-! ## Section 4: Absolute paths -/

private theorem unencodableFrom_eq_none_iff {allowed : CodePoint → Bool} {i : Nat} {t : Text} :
    Utf8.unencodableFrom allowed i t = none ↔ ∀ c ∈ t, c.isSurrogate = true → allowed c = true := by
  induction t generalizing i with
  | nil => exact iff_of_true rfl nofun
  | cons c t ih =>
    rw [Utf8.unencodableFrom, List.forall_mem_cons, ← ih (i := i + 1)]
    cases hc : c.isSurrogate <;> cases ha : allowed c <;> simp

/-- A text can be asked for if it has no zero and no surrogate but those that stand for single
octets. -/
theorem isNameText_iff {t : Text} :
    isNameText t = true ↔
      ∀ c ∈ t, c ≠ .scalar '\x00' ∧ (c.isSurrogate = true → isLoneOctet c = true) := by
  rw [isNameText, Bool.and_eq_true, Option.isNone_iff_eq_none, unencodableFrom_eq_none_iff,
    Bool.not_eq_true', ← Bool.not_eq_true, List.contains_iff_mem]
  exact ⟨fun ⟨hzero, h⟩ c hc => ⟨fun heq => hzero (heq ▸ hc), h c hc⟩,
    fun h => ⟨fun hzero => (h _ hzero).1 rfl, fun c hc => (h c hc).2⟩⟩

/-- The path to a place from the root. -/
def pathTo (place : List Text) : Path := ⟨1, place⟩

private theorem text_pathTo (place : List Text) :
    (pathTo place).text = .scalar '/' :: Text.join [.scalar '/'] place := rfl

private theorem isNameText_pathTo {place : List Text} (h : ∀ t ∈ place, IsName t) :
    isNameText (pathTo place).text = true := by
  have hslash : ∀ c ∈ [CodePoint.scalar '/'],
      c ≠ .scalar '\x00' ∧ (c.isSurrogate = true → isLoneOctet c = true) := by decide
  rw [text_pathTo, isNameText_iff]
  refine List.forall_mem_cons.mpr ⟨hslash _ List.mem_cons_self, fun c hc => ?_⟩
  rcases Text.mem_join hc with hc | ⟨t, ht, hc⟩
  · exact hslash c hc
  · exact isNameText_iff.mp (h t ht).known c hc

/-- The text of an absolute path without links tells the place. -/
theorem pathTo_injective {place other : List Text} (hplace : ∀ t ∈ place, IsName t)
    (hother : ∀ t ∈ other, IsName t) (h : (pathTo place).text = (pathTo other).text) :
    place = other := by
  have hjoin : Text.join [.scalar '/'] place = Text.join [.scalar '/'] other :=
    (List.cons.inj h).2
  -- a join of names is empty only if there are none
  have hnil (names : List Text) (hnames : ∀ t ∈ names, IsName t)
      (hempty : Text.join [.scalar '/'] names = []) : names = [] := by
    cases names with
    | nil => rfl
    | cons t names =>
      rw [Text.join_cons] at hempty
      exact absurd (List.append_eq_nil_iff.mp hempty).1 (hnames t List.mem_cons_self).nonempty
  by_cases hplaceNil : place = []
  · rw [hplaceNil] at hjoin ⊢
    exact (hnil other hother hjoin.symm).symm
  · have hotherNil : other ≠ [] := by
      rintro rfl
      exact hplaceNil (hnil place hplace hjoin)
    rw [← Text.split_join hplaceNil fun t ht => (hplace t ht).no_slash, hjoin,
      Text.split_join hotherNil fun t ht => (hother t ht).no_slash]

/-- A path without links finds what stands at its components. -/
theorem look_of_at? {disk : Disk} (hdisk : disk.WellFormed) {path : Path} {node : Node}
    (hname : isNameText path.text = true) (hat : disk.root.at? (disk.fromRoot path) = some node)
    (hlink : ∀ t, node ≠ .link t) :
    disk.look path =
      if isOverlong path.text then .error (.nowhere .nameTooLong path.text)
      else .ok (some ⟨disk.fromRoot path, node⟩) := by
  rw [look, locate, hname, reach_of_at? hdisk hat hlink]
  cases isOverlong path.text <;> rfl

/-- A path without links finds a file, unless its text is too long. -/
theorem lookForFile_of_at? {disk : Disk} (hdisk : disk.WellFormed) {path : Path} {content : Octets}
    (hname : isNameText path.text = true)
    (hat : disk.root.at? (disk.fromRoot path) = some (.file content)) :
    disk.lookForFile path =
      if isOverlong path.text then .error (.nowhere .nameTooLong path.text)
      else .ok (some (disk.fromRoot path, content)) := by
  rw [lookForFile, look_of_at? hdisk hname hat nofun]
  cases isOverlong path.text <;> rfl

/-- A file is found at its place, unless the text of its absolute path is too long. -/
theorem lookForFile_pathTo {disk : Disk} (hdisk : disk.WellFormed) {place : List Text}
    {content : Octets} (hat : disk.root.at? place = some (.file content)) :
    disk.lookForFile (pathTo place) =
      if isOverlong (pathTo place).text then
        .error (.nowhere .nameTooLong (pathTo place).text)
      else .ok (some (place, content)) :=
  lookForFile_of_at? hdisk (isNameText_pathTo (hdisk.of_at? hat).1) hat

/-- What is found stands in the tree. -/
theorem at?_of_found {disk : Disk} {parts : List Text} {text : Text} {p : Place}
    (h : found text (disk.reach parts) = .ok (some p)) : disk.root.at? p.parts = some p.node := by
  cases hreach : disk.reach parts with
  | ok place =>
    rw [hreach] at h
    cases h
    exact at?_of_reach hreach
  | error reason =>
    rw [hreach] at h
    cases reason <;> cases h

/-- What a path leads to stands in the tree. -/
theorem at?_of_look {disk : Disk} {path : Path} {p : Place} (h : disk.look path = .ok (some p)) :
    disk.root.at? p.parts = some p.node := by
  rw [look, locate] at h
  split at h
  · cases h
  split at h
  · cases h
  · exact at?_of_found h

/-- A path that leads to a file leads somewhere. -/
theorem look_of_lookForFile {disk : Disk} {path : Path} {place : List Text} {content : Octets}
    (h : disk.lookForFile path = .ok (some (place, content))) :
    disk.look path = .ok (some ⟨place, .file content⟩) := by
  rw [lookForFile] at h
  split at h
  · cases h
  · next hlook =>
    cases h
    exact hlook
  · cases h

/-- A file that is found stands in the tree, with its content. -/
theorem at?_of_lookForFile {disk : Disk} {path : Path} {place : List Text} {content : Octets}
    (h : disk.lookForFile path = .ok (some (place, content))) :
    disk.root.at? place = some (.file content) :=
  at?_of_look (look_of_lookForFile h)

end Disk

end FormSchema
