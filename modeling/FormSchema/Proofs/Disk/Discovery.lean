import FormSchema.Proofs.Disk.Documents
import Mathlib.Data.List.Nodup

/-!
# What discovery lists

Below a directory without links discovery lists exactly the files whose names are those of
documents, that are not too large, and none of whose components is excluded, in the order of their
components.  It therefore merges what lies in the directory itself with what is listed below its
directories, it does not see where the directory stands, and exclusions that are put together list
what each of them lists.  Only the length of a path matters: a file whose path is longer than the
system takes cannot be looked at, and is passed over.
-/

namespace FormSchema.Disk

/-! ## Section 1: The order of places -/

private theorem placeLe_trans (a b c : List Text) (hab : decide (a ≤ b) = true)
    (hbc : decide (b ≤ c) = true) : decide (a ≤ c) = true := by
  let : LE CodePoint := .ofLT CodePoint
  have : Std.IsLinearOrder CodePoint := .of_lt
  exact decide_eq_true (List.le_trans (of_decide_eq_true hab) (of_decide_eq_true hbc))

private theorem placeLe_total (a b : List Text) : (decide (a ≤ b) || decide (b ≤ a)) = true := by
  rw [Bool.or_eq_true, decide_eq_true_iff, decide_eq_true_iff]
  exact List.le_total a b

/-- Sorting loses no place and adds none. -/
theorem mem_inOrder {place : List Text} {places : List (List Text)} :
    place ∈ inOrder places ↔ place ∈ places := by
  rw [inOrder, List.mem_eraseDups, List.mem_mergeSort]

/-- Places come in strictly increasing order. -/
theorem inOrder_increasing (places : List (List Text)) : (inOrder places).Pairwise (· < ·) := by
  have hsorted : (inOrder places).Pairwise fun a b => decide (a ≤ b) = true :=
    (List.pairwise_mergeSort placeLe_trans placeLe_total places).sublist (eraseDups_sublist _)
  -- neighbours are in order, and no two of them are equal
  refine (hsorted.and (nodup_eraseDups _)).imp fun h => ?_
  exact (List.le_iff_lt_or_eq.mp (of_decide_eq_true h.1)).resolve_right h.2

/-- There is one way to put paths in increasing order. -/
theorem eq_of_increasing {paths others : List Path}
    (hp : (paths.map Path.parts).Pairwise (· < ·)) (ho : (others.map Path.parts).Pairwise (· < ·))
    (h : ∀ path, path ∈ paths ↔ path ∈ others) : paths = others := by
  have hperm : paths.Perm others :=
    (List.perm_ext_iff_of_nodup (.of_map _ hp.nodup) (.of_map _ ho.nodup)).mpr h
  exact hperm.eq_of_pairwise (fun a b _ _ hab hba => absurd hba (List.lt_asymm hab))
    (List.pairwise_map.mp hp) (List.pairwise_map.mp ho)

/-! ## Section 2: Trees -/

/-- No link stands at a node or below it. -/
def Node.NoLinks (node : Node) : Prop := ∀ parts target, node.at? parts ≠ some (.link target)

private theorem mem_belowEntries {entries : List (Text × Node)} {e : Text × Node} (he : e ∈ entries)
    {above : List Text} {p : Place}
    (hp : p = ⟨above ++ [e.1], e.2⟩ ∨ p ∈ below (above ++ [e.1]) e.2) :
    p ∈ belowEntries above entries := by
  induction entries with
  | nil => cases he
  | cons f entries ih =>
    obtain ⟨name, node⟩ := f
    rw [belowEntries, List.mem_cons, List.mem_append]
    rcases List.mem_cons.mp he with rfl | he
    · exact hp.imp_right .inl
    · exact .inr (.inr (ih he))

/-- Everything to which components lead down from a node lies below it. -/
theorem mem_below_of_at? {node target : Node} {name : Text} {rest : List Text} (above : List Text)
    (h : node.at? (name :: rest) = some target) :
    ⟨above ++ name :: rest, target⟩ ∈ below above node := by
  -- down the path; each step goes to an entry of the directory that it has reached
  induction rest generalizing node name above with
  | nil =>
    obtain ⟨child, hchild, hat⟩ := Option.bind_eq_some_iff.mp h
    obtain ⟨entries, rfl, hmem⟩ := mem_of_child? hchild
    cases hat
    rw [below]
    exact mem_belowEntries hmem (.inl rfl)
  | cons other rest ih =>
    obtain ⟨child, hchild, hat⟩ := Option.bind_eq_some_iff.mp h
    obtain ⟨entries, rfl, hmem⟩ := mem_of_child? hchild
    rw [below]
    refine mem_belowEntries hmem (.inr ?_)
    have hbelow := ih (above ++ [name]) hat
    rwa [List.append_assoc] at hbelow

private theorem mem_belowEntries_iff {entries : List (Text × Node)}
    (h : (Node.directory entries).WellFormed) {parts : List Text} {node : Node} :
    ⟨parts, node⟩ ∈ belowEntries [] entries ↔
      parts ≠ [] ∧ (Node.directory entries).at? parts = some node := by
  constructor
  · intro hmem
    refine ⟨?_, at?_of_mem_entries h hmem⟩
    cases h with
    | directory _ _ hnodes =>
      -- what is below begins with the name of an entry
      obtain ⟨e, -, rest, hparts, -⟩ := at?_of_mem_belowEntries hnodes hmem
      rintro rfl
      cases hparts
  · rintro ⟨hne, hat⟩
    obtain ⟨name, rest, rfl⟩ := List.exists_cons_of_ne_nil hne
    have hbelow := mem_below_of_at? [] hat
    rwa [below] at hbelow

/-! ## Section 3: What is to be listed -/

/-- Whether a path below a directory is no longer than the system takes. -/
def IsWithinReach (root : Path) (parts : List Text) : Prop :=
  isOverlong (root.append ⟨0, parts⟩).text = false

instance (root : Path) (parts : List Text) : Decidable (IsWithinReach root parts) :=
  inferInstanceAs (Decidable (_ = false))

/-- Whether a file stands at some components below a directory that has the name and the size of a
document, and none of the components is excluded. -/
def Qualifies (config : Config) (excluded : List Text) (entries : List (Text × Node))
    (parts : List Text) : Prop :=
  ∃ content, (Node.directory entries).at? parts = some (.file content) ∧
    config.matchesSuffix (parts.getLast?.getD []) = true ∧
    (content.length : Int) ≤ config.maxDocumentBytes ∧ ∀ name ∈ parts, name ∉ excluded

/-- A file is wanted by its name, its size and the names of the directories on the way. -/
theorem isWanted_iff {config : Config} {excluded parts : List Text} {size : Nat} :
    isWanted config excluded parts size = true ↔
      config.matchesSuffix (parts.getLast?.getD []) = true ∧
        (size : Int) ≤ config.maxDocumentBytes ∧ ∀ name ∈ parts, name ∉ excluded := by
  simp only [isWanted, Bool.and_eq_true, Bool.not_eq_true', List.any_eq_false,
    List.contains_iff_mem, decide_eq_true_eq]
  exact ⟨fun ⟨⟨hname, hparts⟩, hsize⟩ => ⟨hname, hsize, hparts⟩,
    fun ⟨hname, hsize, hparts⟩ => ⟨⟨hname, hparts⟩, hsize⟩⟩

/-- A path that leads to a directory of a disk, below which no link stands and no directory has a
path that is longer than the system takes. -/
structure Scans (disk : Disk) (root : Path) (place : List Text) (entries : List (Text × Node)) :
    Prop where
  wellFormed : disk.WellFormed
  leads : disk.look root = .ok (some ⟨place, .directory entries⟩)
  noLinks : (Node.directory entries).NoLinks
  directories : ∀ parts others, (Node.directory entries).at? parts = some (.directory others) →
    IsWithinReach root parts

section Scan

variable {disk : Disk} {root : Path} {place : List Text} {entries : List (Text × Node)}
  {config : Config}

/-- A directory that is scanned has well-formed entries. -/
theorem Scans.tree (h : Scans disk root place entries) : (Node.directory entries).WellFormed :=
  (h.wellFormed.of_at? (at?_of_look h.leads)).2

/-- Looking at an entry finds the entry itself, unless it is a file whose path is too long. -/
theorem Scans.lookAtEntry_eq (h : Scans disk root place entries) {entry : Place}
    (hentry : entry ∈ belowEntries [] entries) :
    disk.lookAtEntry root place entry =
      .ok (if IsWithinReach root entry.parts then some ⟨place ++ entry.parts, entry.node⟩
        else none) := by
  have hat := at?_of_mem_entries h.tree hentry
  obtain ⟨parts, node⟩ := entry
  -- links are ruled out, and the path to a directory is short enough by assumption
  cases node with
  | link target => exact absurd hat (h.noLinks parts target)
  | directory others =>
    have hreach : isOverlong (root.append ⟨0, parts⟩).text = false := h.directories parts others hat
    simp [lookAtEntry, IsWithinReach, hreach]
  | file content =>
    by_cases hlong : isOverlong (root.append ⟨0, parts⟩).text = true
    · simp [lookAtEntry, IsWithinReach, hlong]
    · simp [lookAtEntry, IsWithinReach, hlong]

/-- What is wanted of an entry of the tree. -/
theorem wantedPlace?_eq_some {excluded parts place : List Text} {target : Option Place} :
    wantedPlace? config excluded parts target = some place ↔
      ∃ content, target = some ⟨place, .file content⟩ ∧
        isWanted config excluded parts content.length = true := by
  -- only a file can be wanted, and then its name, place and size decide
  unfold wantedPlace?
  split
  · next here content =>
    split
    · next hwanted =>
      constructor
      · intro heq
        cases heq
        exact ⟨content, rfl, hwanted⟩
      · rintro ⟨content', heq, -⟩
        cases heq
        rfl
    · next hwanted =>
      refine iff_of_false nofun ?_
      rintro ⟨content', heq, hwanted'⟩
      cases heq
      exact hwanted hwanted'
  · next hnot =>
    refine iff_of_false nofun ?_
    rintro ⟨content, rfl, -⟩
    exact hnot _ _ rfl

/-- The places that are wanted among some entries of the tree. -/
theorem Scans.exists_wantedPlaces (h : Scans disk root place entries) (config : Config)
    (excluded : List Text) {below : List Place} (hbelow : below ⊆ belowEntries [] entries) :
    ∃ places, disk.wantedPlaces config excluded root place below = .ok places ∧
      ∀ here, here ∈ places ↔ ∃ entry ∈ below, here = place ++ entry.parts ∧
        IsWithinReach root entry.parts ∧ ∃ content, entry.node = .file content ∧
          isWanted config excluded entry.parts content.length = true := by
  induction below with
  | nil => exact ⟨[], rfl, fun here => by simp⟩
  | cons entry below ih =>
    obtain ⟨hentry, hbelow⟩ := List.cons_subset.mp hbelow
    obtain ⟨places, hplaces, hmem⟩ := ih hbelow
    -- what the first entry adds to the places of the others
    have hfirst (here : List Text) :
        wantedPlace? config excluded entry.parts
            (if IsWithinReach root entry.parts then some ⟨place ++ entry.parts, entry.node⟩
              else none) = some here ↔
          here = place ++ entry.parts ∧ IsWithinReach root entry.parts ∧
            ∃ content, entry.node = .file content ∧
              isWanted config excluded entry.parts content.length = true := by
      rw [wantedPlace?_eq_some]
      by_cases hreach : IsWithinReach root entry.parts
      · simp only [if_pos hreach, Option.some.injEq, Place.mk.injEq]
        simp only [hreach, true_and]
        exact ⟨fun ⟨content, ⟨hhere, hnode⟩, hwanted⟩ => ⟨hhere.symm, content, hnode, hwanted⟩,
          fun ⟨hhere, content, hnode, hwanted⟩ => ⟨content, ⟨hhere.symm, hnode⟩, hwanted⟩⟩
      · simp [hreach]
    rw [wantedPlaces, h.lookAtEntry_eq hentry, hplaces]
    simp only [List.exists_mem_cons_iff]
    split
    · next first hwanted =>
      refine ⟨_, rfl, fun here => ?_⟩
      rw [List.mem_cons, hmem, ← hfirst, hwanted, Option.some.injEq, eq_comm]
    · next hwanted =>
      refine ⟨_, rfl, fun here => ?_⟩
      rw [hmem, ← hfirst, hwanted]
      simp

/-- What it means for paths to be the documents below a directory: discovery lists them, in
increasing order, and they are the files that qualify and can be looked at. -/
structure Lists (disk : Disk) (root : Path) (place : List Text) (entries : List (Text × Node))
    (config : Config) (exclude : List Text) (paths : List Path) : Prop where
  discover_eq : disk.discover root config exclude = .ok paths
  increasing : (paths.map Path.parts).Pairwise (· < ·)
  mem_iff : ∀ path, path ∈ paths ↔ ∃ parts, path = pathTo (place ++ parts) ∧
    Qualifies config (defaultExcludes ++ exclude) entries parts ∧ IsWithinReach root parts

/-- Below a directory the documents are listed. -/
theorem Scans.exists_lists (h : Scans disk root place entries) (config : Config)
    (exclude : List Text) : ∃ paths, Lists disk root place entries config exclude paths := by
  obtain ⟨places, hplaces, hmem⟩ :=
    h.exists_wantedPlaces config (defaultExcludes ++ exclude) (List.Subset.refl _)
  refine ⟨_, discover_of_directory h.leads hplaces, ?_, fun path => ?_⟩
  · rw [List.map_map]
    simpa [Function.comp_def] using inOrder_increasing places
  · simp only [List.mem_map, mem_inOrder, hmem, Qualifies]
    constructor
    · rintro ⟨here, ⟨⟨parts, node⟩, hentry, rfl, hreach, content, rfl, hwanted⟩, rfl⟩
      have hat := at?_of_mem_entries h.tree hentry
      exact ⟨parts, rfl, ⟨content, hat, isWanted_iff.mp hwanted⟩, hreach⟩
    · rintro ⟨parts, rfl, ⟨content, hat, hwanted⟩, hreach⟩
      -- a directory is no file, so that the components are not empty
      have hne : parts ≠ [] := by
        rintro rfl
        cases hat
      exact ⟨_, ⟨⟨parts, .file content⟩, (mem_belowEntries_iff h.tree).mpr ⟨hne, hat⟩, rfl, hreach,
        content, rfl, isWanted_iff.mpr hwanted⟩, rfl⟩

/-! ## Section 4: Directories in a directory -/

private theorem at?_entry (h : (Node.directory entries).WellFormed) {name : Text} {node : Node}
    (he : (name, node) ∈ entries) (parts : List Text) :
    (Node.directory entries).at? (name :: parts) = node.at? parts := by
  cases h with
  | directory honce _ _ =>
    rw [Node.at?, child?_of_mem honce he]
    rfl

private theorem isWithinReach_child (root : Path) (name : Text) (parts : List Text) :
    IsWithinReach (root.child name) parts ↔ IsWithinReach root (name :: parts) := by
  simp [IsWithinReach, Path.append, Path.child, Path.isAbsolute]

private theorem isNameText_child {root : Path} {name : Text} (hroot : isNameText root.text = true)
    (hname : IsName name) : isNameText (root.child name).text = true := by
  have hslash : CodePoint.scalar '/' ≠ .scalar '\x00' ∧
      ((CodePoint.scalar '/').isSurrogate = true → isLoneOctet (.scalar '/') = true) := by decide
  have hchild : (root.child name).text =
      List.replicate root.slashes (.scalar '/') ++ Text.join "/" (root.parts ++ [name]) := by
    simp [Path.text, Path.child]
  rw [hchild, isNameText_iff]
  rw [isNameText_iff] at hroot
  intro c hc
  -- hc | a character comes from the slashes in front, from one in between, or from a component
  rcases List.mem_append.mp hc with hc | hc
  · rw [List.eq_of_mem_replicate hc]
    exact hslash
  · rcases Text.mem_join hc with hc | ⟨part, hpart, hc⟩
    · rw [List.mem_singleton.mp hc]
      exact hslash
    · rcases List.mem_append.mp hpart with hpart | hpart
      · -- a component of the directory stands in the directory's text
        have hparts : root.parts.isEmpty = false :=
          List.isEmpty_eq_false_iff.mpr (List.ne_nil_of_mem hpart)
        apply hroot c
        rw [Path.text, hparts, Bool.and_false, if_neg Bool.false_ne_true]
        exact List.mem_append_right _ (Text.mem_join_of_mem hpart hc)
      · rw [List.mem_singleton.mp hpart] at hc
        exact isNameText_iff.mp hname.known c hc

/-- A path is followed one step further, to a node that is no link. -/
theorem follow_concat {root child : Node} {links : Nat} {trail target : Trail} {todo : List Text}
    {name : Text} (h : follow root links trail todo = .ok target) (hname : IsName name)
    (hchild : (endOf root target).child? name = some child) (hlink : ∀ t, child ≠ .link t) :
    follow root links trail (todo ++ [name]) = .ok ((name, child) :: target) := by
  -- by the steps of the path in front, which are taken as before; the last one is to a child
  fun_induction follow root links trail todo with
  | case1 links trail =>
    cases h
    rw [List.nil_append, follow_child links [] hname hchild hlink, follow]
  | case3 links trail rest hdir ih =>
    rw [List.cons_append, follow, if_neg hdir, if_pos rfl]
    exact ih h
  | case4 links trail rest hdir hstay ih =>
    rw [List.cons_append, follow, if_neg hdir, if_neg hstay, if_pos rfl]
    exact ih h
  | case8 trail other rest hdir hstay hup hlong link hother links start ih =>
    rw [List.cons_append, follow, if_neg hdir, if_neg hstay, if_neg hup, if_neg hlong, hother]
    have hrest := ih h
    rw [throughLink, List.append_assoc] at hrest
    exact hrest
  | case9 links trail other rest hdir hstay hup hlong node hnode hother ih =>
    rw [List.cons_append, follow, if_neg hdir, if_neg hstay, if_neg hup, if_neg hlong, hother]
    split
    · next heq => cases heq
    · next link heq => exact absurd (Option.some.inj heq) (hnode link)
    · next heq =>
      cases heq
      exact ih h
  | _ => cases h

/-- A directory in a directory is found by its name. -/
theorem look_child {name : Text} {child : Node}
    (hlook : disk.look root = .ok (some ⟨place, .directory entries⟩)) (hname : IsName name)
    (hchild : (Node.directory entries).child? name = some child) (hlink : ∀ t, child ≠ .link t)
    (hreach : IsWithinReach (root.child name) []) :
    disk.look (root.child name) = .ok (some ⟨place ++ [name], child⟩) := by
  rw [look, locate] at hlook
  split at hlook
  · cases hlook
  next hknown =>
  split at hlook
  · cases hlook
  have hknown : isNameText (root.child name).text = true := by
    apply isNameText_child _ hname
    simpa using hknown
  have hshort : isOverlong (root.child name).text = false := by
    simpa [IsWithinReach, Path.append, Path.child, Path.isAbsolute] using hreach
  have hfrom : disk.fromRoot (root.child name) = disk.fromRoot root ++ [name] := by
    have habsolute : (root.child name).isAbsolute = root.isAbsolute := rfl
    rw [fromRoot, fromRoot, habsolute]
    cases root.isAbsolute <;> simp [Path.child]
  rw [look, locate, hknown, hshort, hfrom]
  -- the directory itself is reached along some trail, and its entry one step further
  cases hfollow : follow disk.root maxLinks [] (disk.fromRoot root) with
  | error reason =>
    rw [reach, hfollow] at hlook
    cases reason <;> cases hlook
  | ok trail =>
    rw [reach, hfollow] at hlook
    have hplace : Place.ofTrail disk.root trail = ⟨place, .directory entries⟩ :=
      Option.some.inj (Except.ok.inj hlook)
    have hend : endOf disk.root trail = .directory entries := congrArg Place.node hplace
    have hparts : (trail.map (·.1)).reverse = place := congrArg Place.parts hplace
    rw [reach, follow_concat hfollow hname (hend ▸ hchild) hlink]
    simp [Except.map, found, Place.ofTrail, hparts, endOf]

/-- A directory in a directory that is scanned is scanned itself. -/
theorem Scans.child (h : Scans disk root place entries) {name : Text}
    {others : List (Text × Node)} (he : (name, .directory others) ∈ entries) :
    Scans disk (root.child name) (place ++ [name]) others where
  wellFormed := h.wellFormed
  leads := by
    -- the directory is found at its name, and its path is within reach like those of all
    -- directories
    have hat := at?_entry h.tree he []
    obtain ⟨child, hchild, heq⟩ := Option.bind_eq_some_iff.mp hat
    cases heq
    refine look_child h.leads (h.tree.child hchild).1 hchild nofun ?_
    exact (isWithinReach_child root name []).mpr (h.directories [name] others hat)
  noLinks := by
    -- what is below the child is below the parent, with a name more in front
    intro parts target hat
    exact h.noLinks (name :: parts) target ((at?_entry h.tree he parts).trans hat)
  directories := by
    intro parts more hat
    rw [isWithinReach_child]
    exact h.directories (name :: parts) more ((at?_entry h.tree he parts).trans hat)

/-! ## Section 5: Documents in a directory and below its directories -/

/-- The root itself is no document. -/
theorem Qualifies.ne_nil {excluded parts : List Text}
    (h : Qualifies config excluded entries parts) : parts ≠ [] := by
  obtain ⟨content, hat, -⟩ := h
  rintro rfl
  cases hat

/-- A file qualifies below a directory in which it does not stand itself if it qualifies below a
directory there, and the name of that one is not excluded. -/
theorem qualifies_cons_iff (h : (Node.directory entries).WellFormed) {excluded rest : List Text}
    {name : Text} (hrest : rest ≠ []) :
    Qualifies config excluded entries (name :: rest) ↔
      name ∉ excluded ∧ ∃ others, (name, .directory others) ∈ entries ∧
        Qualifies config excluded others rest := by
  have hlast : (name :: rest).getLast?.getD [] = rest.getLast?.getD [] := by
    rw [List.getLast?_cons, List.getLast?_eq_some_getLast hrest]
    rfl
  constructor
  · rintro ⟨content, hat, hsuffix, hsize, hparts⟩
    obtain ⟨hname, hparts⟩ := List.forall_mem_cons.mp hparts
    obtain ⟨child, hchild, hat⟩ := Option.bind_eq_some_iff.mp hat
    -- something stands below the child, which is therefore a directory
    obtain ⟨other, rest, rfl⟩ := List.exists_cons_of_ne_nil hrest
    obtain ⟨grandchild, hgrandchild, -⟩ := Option.bind_eq_some_iff.mp hat
    obtain ⟨others, rfl, -⟩ := mem_of_child? hgrandchild
    obtain ⟨entries, hentries, hmem⟩ := mem_of_child? hchild
    cases hentries
    exact ⟨hname, others, hmem, content, hat, hlast ▸ hsuffix, hsize, hparts⟩
  · rintro ⟨hname, others, hmem, content, hat, hsuffix, hsize, hparts⟩
    exact ⟨content, (at?_entry h hmem rest).trans hat, hlast.symm ▸ hsuffix, hsize,
      List.forall_mem_cons.mpr ⟨hname, hparts⟩⟩

/-- Whether an entry of a directory is a directory with a name that is not excluded. -/
def isEntered (excluded : List Text) (e : Text × Node) : Bool :=
  e.2.isDirectory && !excluded.contains e.1

private theorem mem_entered_iff {excluded : List Text} {name : Text} {node : Node} :
    (name, node) ∈ entries.filter (isEntered excluded) ↔
      name ∉ excluded ∧
        ∃ others, node = .directory others ∧ (name, .directory others) ∈ entries := by
  rw [List.mem_filter, isEntered, Bool.and_eq_true, Bool.not_eq_true', ← Bool.not_eq_true,
    List.contains_iff_mem]
  cases node <;> simp [Node.isDirectory, and_comm]

variable {exclude : List Text} {paths : List Path}

/-- No document is listed twice. -/
theorem Lists.nodup (h : Lists disk root place entries config exclude paths) : paths.Nodup :=
  .of_map _ h.increasing.nodup

/-- What discovery lists below each directory of a directory, by its name. -/
def ListsChildren (disk : Disk) (root : Path) (place : List Text) (entries : List (Text × Node))
    (config : Config) (exclude : List Text) (found : Text → List Path) : Prop :=
  ∀ name others, (name, .directory others) ∈ entries →
    Lists disk (root.child name) (place ++ [name]) others config exclude (found name)

private theorem Scans.exists_listsChildren (h : Scans disk root place entries) (config : Config)
    (exclude : List Text) :
    ∃ found, ListsChildren disk root place entries config exclude found := by
  refine ⟨fun name => ((disk.discover (root.child name) config exclude).toOption).getD [], ?_⟩
  intro name others he
  obtain ⟨paths, hpaths⟩ := (h.child he).exists_lists config exclude
  simp only [hpaths.discover_eq]
  exact hpaths

section Children

variable {found : Text → List Path} (h : Scans disk root place entries)
  (hfound : ListsChildren disk root place entries config exclude found)
include h hfound

/-- A path is listed below a directory that is entered exactly if it leads to a document there. -/
theorem mem_found_iff {name : Text} {node : Node}
    (he : (name, node) ∈ entries.filter (isEntered (defaultExcludes ++ exclude))) {path : Path} :
    path ∈ found name ↔ ∃ rest, rest ≠ [] ∧ path = pathTo (place ++ name :: rest) ∧
      Qualifies config (defaultExcludes ++ exclude) entries (name :: rest) ∧
      IsWithinReach root (name :: rest) := by
  obtain ⟨hname, others, rfl, hmem⟩ := mem_entered_iff.mp he
  have hplace (rest : List Text) : place ++ name :: rest = place ++ [name] ++ rest := by simp
  rw [(hfound name others hmem).mem_iff]
  constructor
  · rintro ⟨rest, rfl, hrest, hreach⟩
    exact ⟨rest, hrest.ne_nil, congrArg pathTo (hplace rest).symm,
      (qualifies_cons_iff h.tree hrest.ne_nil).mpr ⟨hname, others, hmem, hrest⟩,
      (isWithinReach_child root name rest).mp hreach⟩
  · rintro ⟨rest, hne, rfl, hrest, hreach⟩
    obtain ⟨-, others', hmem', hothers⟩ := (qualifies_cons_iff h.tree hne).mp hrest
    -- the name stands in the directory once
    have heq : some (Node.directory others) = some (Node.directory others') :=
      (at?_entry h.tree hmem []).symm.trans (at?_entry h.tree hmem' [])
    cases heq
    have hchild := (isWithinReach_child root name rest).mpr hreach
    exact ⟨rest, congrArg pathTo (hplace rest), hothers, hchild⟩

/-- What is listed below one directory is not listed below another one, and not twice. -/
theorem nodup_found :
    ((entries.filter (isEntered (defaultExcludes ++ exclude))).flatMap
      fun e => found e.1).Nodup := by
  -- within one directory by its own listing, and across two by the names of the directories
  rw [List.nodup_flatMap]
  constructor
  · rintro ⟨name, node⟩ he
    obtain ⟨-, others, rfl, hmem⟩ := mem_entered_iff.mp he
    exact (hfound name others hmem).nodup
  · have hnames : entries.Pairwise fun e f => e.1 ≠ f.1 := by
      cases h.tree with
      | directory honce _ _ => exact List.pairwise_map.mp honce
    refine (hnames.filter (isEntered (defaultExcludes ++ exclude))).imp_of_mem ?_
    rintro ⟨name, node⟩ ⟨other, onode⟩ he hf hne path hpath hother
    obtain ⟨rest, -, hrest, -⟩ := (mem_found_iff h hfound he).mp hpath
    obtain ⟨orest, -, horest, -⟩ := (mem_found_iff h hfound hf).mp hother
    have hplace := pathTo_inj (hrest.symm.trans horest)
    exact hne (List.cons.inj (List.append_cancel_left hplace)).1

/-- The documents below a directory are those that stand in it, and those below its directories that
are not excluded. -/
theorem Lists.perm_children (hl : Lists disk root place entries config exclude paths) :
    paths.Perm (paths.filter (fun path => decide (path.parts.length = place.length + 1)) ++
      (entries.filter (isEntered (defaultExcludes ++ exclude))).flatMap fun e => found e.1) := by
  refine (List.perm_ext_iff_of_nodup hl.nodup ?_).mpr fun path => ?_
  · refine List.nodup_append.mpr ⟨hl.nodup.filter _, nodup_found h hfound, ?_⟩
    -- what is listed below a directory has more components than what stands beside it
    rintro path hpath other hother rfl
    obtain ⟨⟨name, node⟩, he, hother⟩ := List.mem_flatMap.mp hother
    obtain ⟨rest, hne, rfl, -⟩ := (mem_found_iff h hfound he).mp hother
    have hlength := of_decide_eq_true (List.mem_filter.mp hpath).2
    have hrest := List.length_pos_iff.mpr hne
    simp only [pathTo, List.length_append, List.length_cons] at hlength
    omega
  · rw [List.mem_append, List.mem_flatMap]
    constructor
    · intro hpath
      obtain ⟨parts, rfl, hparts, hreach⟩ := (hl.mem_iff path).mp hpath
      obtain ⟨name, rest, rfl⟩ := List.exists_cons_of_ne_nil hparts.ne_nil
      by_cases hrest : rest = []
      · subst hrest
        exact .inl (List.mem_filter.mpr ⟨hpath, by simp [pathTo]⟩)
      · obtain ⟨hname, others, hmem, -⟩ := (qualifies_cons_iff h.tree hrest).mp hparts
        have he := mem_entered_iff.mpr ⟨hname, others, rfl, hmem⟩
        exact .inr ⟨_, he, (mem_found_iff h hfound he).mpr ⟨rest, hrest, rfl, hparts, hreach⟩⟩
    · rintro (hpath | ⟨⟨name, node⟩, he, hpath⟩)
      · exact (List.mem_filter.mp hpath).1
      · obtain ⟨rest, -, rfl, hrest, hreach⟩ := (mem_found_iff h hfound he).mp hpath
        exact (hl.mem_iff _).mpr ⟨name :: rest, rfl, hrest, hreach⟩

end Children

private theorem Lists.mem_direct_iff (hl : Lists disk root place entries config exclude paths)
    {path : Path} :
    path ∈ paths.filter (fun path => decide (path.parts.length = place.length + 1)) ↔
      ∃ name, path = pathTo (place ++ [name]) ∧
        Qualifies config (defaultExcludes ++ exclude) entries [name] ∧
        IsWithinReach root [name] := by
  rw [List.mem_filter, hl.mem_iff, decide_eq_true_iff]
  constructor
  · rintro ⟨⟨parts, rfl, hparts, hreach⟩, hlength⟩
    obtain ⟨name, rest, rfl⟩ := List.exists_cons_of_ne_nil hparts.ne_nil
    simp only [pathTo, List.length_append, List.length_cons] at hlength
    obtain rfl : rest = [] := List.length_eq_zero_iff.mp (by omega)
    exact ⟨name, rfl, hparts, hreach⟩
  · rintro ⟨name, rfl, hparts, hreach⟩
    exact ⟨⟨[name], rfl, hparts, hreach⟩, by simp [pathTo]⟩

/-! ## Section 6: Other roots and other exclusions -/

private theorem lt_of_append_left {before a b : List Text} (h : before ++ a < before ++ b) :
    a < b := by
  induction before with
  | nil => exact h
  | cons name before ih => exact ih (List.cons_lt_cons_self.mp h)

/-- A directory with the same tree has the same documents, wherever it stands. -/
theorem Lists.rebase (hl : Lists disk root place entries config exclude paths) {disk' : Disk}
    {root' : Path} {place' : List Text} {paths' : List Path}
    (hl' : Lists disk' root' place' entries config exclude paths')
    (hreach : ∀ parts, Qualifies config (defaultExcludes ++ exclude) entries parts →
      (IsWithinReach root parts ↔ IsWithinReach root' parts)) :
    ∃ documents : List (List Text), paths = documents.map (fun parts => pathTo (place ++ parts)) ∧
      paths' = documents.map fun parts => pathTo (place' ++ parts) := by
  let documents := paths.map fun path => path.parts.drop place.length
  have hpaths : paths = documents.map fun parts => pathTo (place ++ parts) := by
    have hid : paths.map ((fun parts => pathTo (place ++ parts)) ∘
        fun path => path.parts.drop place.length) = paths.map id := by
      refine List.map_congr_left fun path hpath => ?_
      obtain ⟨parts, rfl, -⟩ := (hl.mem_iff path).mp hpath
      simp [pathTo]
    rw [List.map_map, hid, List.map_id]
  refine ⟨documents, hpaths, eq_of_increasing hl'.increasing ?_ fun path => ?_⟩
  · have hincreasing := hl.increasing
    rw [hpaths, List.map_map, List.pairwise_map] at hincreasing
    rw [List.map_map, List.pairwise_map]
    exact hincreasing.imp fun hlt => List.append_left_lt (lt_of_append_left hlt)
  · rw [hl'.mem_iff, List.mem_map]
    -- a document of one root is a document of the other one
    have hmem (parts : List Text) : parts ∈ documents ↔
        Qualifies config (defaultExcludes ++ exclude) entries parts ∧ IsWithinReach root parts := by
      rw [List.mem_map]
      constructor
      · rintro ⟨path, hpath, rfl⟩
        obtain ⟨parts, rfl, hparts⟩ := (hl.mem_iff path).mp hpath
        simpa [pathTo] using hparts
      · intro hparts
        exact ⟨_, (hl.mem_iff _).mpr ⟨parts, rfl, hparts⟩, by simp [pathTo]⟩
    constructor
    · rintro ⟨parts, rfl, hparts, hreach'⟩
      exact ⟨parts, (hmem parts).mpr ⟨hparts, (hreach parts hparts).mpr hreach'⟩, rfl⟩
    · rintro ⟨parts, hparts, rfl⟩
      obtain ⟨hparts, hin⟩ := (hmem parts).mp hparts
      exact ⟨parts, rfl, hparts, (hreach parts hparts).mp hin⟩

/-- With two lists of exclusions a file qualifies if it does with each of them. -/
private theorem qualifies_append_iff {first second parts : List Text} :
    Qualifies config (defaultExcludes ++ (first ++ second)) entries parts ↔
      Qualifies config (defaultExcludes ++ first) entries parts ∧
        Qualifies config (defaultExcludes ++ second) entries parts := by
  simp only [Qualifies, List.mem_append, not_or]
  constructor
  · rintro ⟨content, hat, hsuffix, hsize, hparts⟩
    exact ⟨⟨content, hat, hsuffix, hsize, fun name hname => ⟨(hparts name hname).1,
      (hparts name hname).2.1⟩⟩, content, hat, hsuffix, hsize, fun name hname =>
      ⟨(hparts name hname).1, (hparts name hname).2.2⟩⟩
  · rintro ⟨⟨content, hat, hsuffix, hsize, hfirst⟩, -, -, -, -, hsecond⟩
    exact ⟨content, hat, hsuffix, hsize, fun name hname =>
      ⟨(hfirst name hname).1, (hfirst name hname).2, (hsecond name hname).2⟩⟩

/-- With two exclusions together that is listed which each of them lists. -/
theorem Lists.inter {first second : List Text} {paths₁ paths₂ both : List Path}
    (h₁ : Lists disk root place entries config first paths₁)
    (h₂ : Lists disk root place entries config second paths₂)
    (h : Lists disk root place entries config (first ++ second) both) :
    both = paths₁.filter fun path => decide (path ∈ paths₂) := by
  -- both lists are in order, so that the same members suffice
  refine eq_of_increasing h.increasing ?_ fun path => ?_
  · exact h₁.increasing.sublist (List.filter_sublist.map _)
  · rw [List.mem_filter, decide_eq_true_iff, h.mem_iff, h₁.mem_iff, h₂.mem_iff]
    constructor
    · rintro ⟨parts, rfl, hparts, hreach⟩
      obtain ⟨hfirst, hsecond⟩ := qualifies_append_iff.mp hparts
      exact ⟨⟨parts, rfl, hfirst, hreach⟩, parts, rfl, hsecond, hreach⟩
    · rintro ⟨⟨parts, rfl, hfirst, hreach⟩, parts', heq, hsecond, -⟩
      obtain rfl : parts = parts' := List.append_cancel_left (pathTo_inj heq)
      exact ⟨parts, rfl, qualifies_append_iff.mpr ⟨hfirst, hsecond⟩, hreach⟩

end Scan

/-! ## Section 7: Discovery below a directory -/

section Discovery

variable {disk : Disk} {root : Path} {place : List Text} {entries : List (Text × Node)}

/-- What discovery answers is the list of the documents. -/
theorem Scans.lists_of_discover (h : Scans disk root place entries) {config : Config}
    {exclude : List Text} {paths : List Path}
    (hpaths : disk.discover root config exclude = .ok paths) :
    Lists disk root place entries config exclude paths := by
  obtain ⟨others, hothers⟩ := h.exists_lists config exclude
  cases hothers.discover_eq.symm.trans hpaths
  exact hothers

/-- The documents of a directory are those directly in it and those of its directories that are not
excluded. -/
theorem Scans.exists_perm_children (h : Scans disk root place entries) {config : Config}
    {exclude : List Text} {paths : List Path}
    (hpaths : disk.discover root config exclude = .ok paths) :
    ∃ (direct : List Path) (found : Text → List Path),
      (∀ path, path ∈ direct ↔ ∃ name, path = pathTo (place ++ [name]) ∧
        Qualifies config (defaultExcludes ++ exclude) entries [name] ∧
        IsWithinReach root [name]) ∧
      (∀ e ∈ entries.filter (isEntered (defaultExcludes ++ exclude)),
        disk.discover (root.child e.1) config exclude = .ok (found e.1)) ∧
      paths.Perm (direct ++ (entries.filter (isEntered (defaultExcludes ++ exclude))).flatMap
        fun e => found e.1) := by
  have hlists := h.lists_of_discover hpaths
  obtain ⟨found, hfound⟩ := h.exists_listsChildren config exclude
  refine ⟨_, found, fun path => hlists.mem_direct_iff, ?_, hlists.perm_children h hfound⟩
  rintro ⟨name, node⟩ he
  obtain ⟨-, others, rfl, hmem⟩ := mem_entered_iff.mp he
  exact (hfound name others hmem).discover_eq

/-- Two roots with one tree have the same documents, if the same of them are within reach. -/
theorem Scans.exists_documents (h : Scans disk root place entries) {disk' : Disk} {root' : Path}
    {place' : List Text} (h' : Scans disk' root' place' entries) {config : Config}
    {exclude : List Text}
    (hreach : ∀ parts, Qualifies config (defaultExcludes ++ exclude) entries parts →
      (IsWithinReach root parts ↔ IsWithinReach root' parts)) :
    ∃ documents : List (List Text),
      disk.discover root config exclude =
        .ok (documents.map fun parts => pathTo (place ++ parts)) ∧
      disk'.discover root' config exclude =
        .ok (documents.map fun parts => pathTo (place' ++ parts)) := by
  obtain ⟨paths, hpaths⟩ := h.exists_lists config exclude
  obtain ⟨paths', hpaths'⟩ := h'.exists_lists config exclude
  obtain ⟨documents, rfl, rfl⟩ := hpaths.rebase hpaths' hreach
  exact ⟨documents, hpaths.discover_eq, hpaths'.discover_eq⟩

/-- With more exclusions only what each of them lists is left. -/
theorem Scans.discover_append (h : Scans disk root place entries) {config : Config}
    {first second : List Text} {paths₁ paths₂ : List Path}
    (h₁ : disk.discover root config first = .ok paths₁)
    (h₂ : disk.discover root config second = .ok paths₂) :
    disk.discover root config (first ++ second) =
      .ok (paths₁.filter fun path => decide (path ∈ paths₂)) := by
  obtain ⟨both, hboth⟩ := h.exists_lists config (first ++ second)
  rw [hboth.discover_eq, (h.lists_of_discover h₁).inter (h.lists_of_discover h₂) hboth]

end Discovery

/-- Below a directory without links, none of whose directories has a path that is longer than the
system takes, exactly the files that qualify and can be looked at are listed, in increasing order.
They are those in the directory itself merged with those below each directory in it that is not
excluded; another root with the same tree has the same documents, unless the length of a path tells
the two apart; and two exclusions together list what both of them list. -/
theorem discover_lists_documents {disk : Disk} {root : Path} {place : List Text}
    {entries : List (Text × Node)} (h : Scans disk root place entries) (config : Config) :
    (∀ exclude, ∃ paths, Lists disk root place entries config exclude paths) ∧
      (∀ exclude paths, disk.discover root config exclude = .ok paths →
        ∃ (direct : List Path) (found : Text → List Path),
          (∀ path, path ∈ direct ↔ ∃ name, path = pathTo (place ++ [name]) ∧
            Qualifies config (defaultExcludes ++ exclude) entries [name] ∧
            IsWithinReach root [name]) ∧
          (∀ e ∈ entries.filter (isEntered (defaultExcludes ++ exclude)),
            disk.discover (root.child e.1) config exclude = .ok (found e.1)) ∧
          paths.Perm (direct ++ (entries.filter (isEntered (defaultExcludes ++ exclude))).flatMap
            fun e => found e.1)) ∧
      (∀ disk' root' place', Scans disk' root' place' entries → ∀ exclude,
        (∀ parts, Qualifies config (defaultExcludes ++ exclude) entries parts →
          (IsWithinReach root parts ↔ IsWithinReach root' parts)) →
        ∃ documents : List (List Text),
          disk.discover root config exclude =
            .ok (documents.map fun parts => pathTo (place ++ parts)) ∧
          disk'.discover root' config exclude =
            .ok (documents.map fun parts => pathTo (place' ++ parts))) ∧
      ∀ first second paths₁ paths₂, disk.discover root config first = .ok paths₁ →
        disk.discover root config second = .ok paths₂ →
        disk.discover root config (first ++ second) =
          .ok (paths₁.filter fun path => decide (path ∈ paths₂)) :=
  ⟨h.exists_lists config, fun _ _ => h.exists_perm_children,
    fun _ _ _ h' _ => h.exists_documents h', fun _ _ _ _ => h.discover_append⟩

/-! ## Section 8: A directory with directories, and a root with a long path -/

/-- Whether an entry below a directory is no link, and has a short enough path if it is itself a
directory. -/
def Place.IsScannable (root : Path) (p : Place) : Prop :=
  match p.node with
  | .file _ => True
  | .directory _ => IsWithinReach root p.parts
  | .link _ => False

instance (root : Path) (p : Place) : Decidable (p.IsScannable root) := by
  unfold Place.IsScannable
  split <;> infer_instance

private theorem scans_of_below {disk : Disk} {root : Path} {place : List Text}
    {entries : List (Text × Node)} (hdisk : disk.WellFormed)
    (hleads : disk.look root = .ok (some ⟨place, .directory entries⟩))
    (hshort : isOverlong root.text = false)
    (hbelow : ∀ p ∈ belowEntries [] entries, p.IsScannable root) :
    Scans disk root place entries := by
  have htree := (hdisk.of_at? (at?_of_look hleads)).2
  refine ⟨hdisk, hleads, ?_, ?_⟩
  · -- the directory itself is no link
    intro parts target hat
    by_cases hparts : parts = []
    · rw [hparts] at hat
      cases hat
    · exact hbelow _ ((mem_belowEntries_iff htree).mpr ⟨hparts, hat⟩)
  · intro parts others hat
    by_cases hparts : parts = []
    · simpa [hparts, IsWithinReach, Path.append, Path.isAbsolute] using hshort
    · exact hbelow _ ((mem_belowEntries_iff htree).mpr ⟨hparts, hat⟩)

def archiveEntries : List (Text × Node) :=
  [("a.json", .file (Utf8.encode "\x7b\x7d")),
    ("build", .directory [("c.json", .file (Utf8.encode "\x7b\x7d"))]),
    ("sub", .directory [("b.json", .file (Utf8.encode "[]"))]), ("notes.txt", .file [])]

/-- A disk with one directory, in which there are documents, other files and directories. -/
def archiveDisk : Disk := ⟨.directory [("forms", .directory archiveEntries)], []⟩

/-- The directory has no links, and its paths are short. -/
theorem scans_archive : Scans archiveDisk (Path.ofText "forms") ["forms"] archiveEntries := by
  have hfile (name : Text) (hname : IsName name) (content : Octets) :
      (Node.directory [(name, .file content)]).WellFormed :=
    .directory (List.nodup_singleton _) (List.forall_mem_singleton.mpr hname)
      (List.forall_mem_singleton.mpr (.file content))
  -- the names are decided, the contents do not matter
  have hentries : (Node.directory archiveEntries).WellFormed := by
    refine .directory (by decide) (by decide) ?_
    refine List.forall_mem_cons.mpr ⟨.file _, List.forall_mem_cons.mpr ⟨hfile _ (by decide) _, ?_⟩⟩
    exact List.forall_mem_cons.mpr ⟨hfile _ (by decide) _, List.forall_mem_singleton.mpr (.file _)⟩
  have hdisk : archiveDisk.WellFormed :=
    .directory (List.nodup_singleton _) (List.forall_mem_singleton.mpr (by decide))
      (List.forall_mem_singleton.mpr hentries)
  have hat : archiveDisk.root.at? (archiveDisk.fromRoot (Path.ofText "forms")) =
      some (.directory archiveEntries) := rfl
  refine scans_of_below hdisk ?_ (by decide) (by decide)
  exact (look_of_at? hdisk (by decide) hat fun _ => nofun).trans (if_neg (by decide))

/-- The document in the directory below is listed, and the one in the excluded directory is not. -/
theorem discover_lists_documents_archive :
    Scans archiveDisk (Path.ofText "forms") ["forms"] archiveEntries ∧
      ∃ paths, archiveDisk.discover (Path.ofText "forms") Config.default ["drafts"] = .ok paths ∧
        pathTo ["forms", "sub", "b.json"] ∈ paths ∧
        pathTo ["forms", "build", "c.json"] ∉ paths := by
  refine ⟨scans_archive, ?_⟩
  obtain ⟨paths, hpaths⟩ := (discover_lists_documents scans_archive Config.default).1 ["drafts"]
  refine ⟨paths, hpaths.discover_eq, ?_, ?_⟩
  · exact (hpaths.mem_iff _).mpr ⟨["sub", "b.json"], rfl, ⟨_, rfl, by decide, by decide, by decide⟩,
      by decide⟩
  · -- one component of the path is on the list of those that are always left out
    intro hmem
    obtain ⟨parts, heq, ⟨content, -, -, -, hparts⟩, -⟩ := (hpaths.mem_iff _).mp hmem
    obtain ⟨-, rfl⟩ : _ ∧ (["build", "c.json"] : List Text) = parts :=
      List.cons.inj (pathTo_inj heq)
    exact hparts "build" List.mem_cons_self (by decide)

/-- The path of a directory `a` that goes up and down again some number of times. -/
def winding (rounds : Nat) : Path :=
  ⟨0, "a" :: (List.replicate rounds (["..", "a"] : List Text)).flatten⟩

def shallowEntries : List (Text × Node) := [("f.json", .file (Utf8.encode "\x7b\x7d"))]

/-- A disk with one document in one directory. -/
def shallowDisk : Disk := ⟨.directory [("a", .directory shallowEntries)], []⟩

private theorem wellFormed_shallowDisk : shallowDisk.WellFormed := by
  have hentries : (Node.directory shallowEntries).WellFormed :=
    .directory (List.nodup_singleton _) (List.forall_mem_singleton.mpr (by decide))
      (List.forall_mem_singleton.mpr (.file _))
  exact .directory (List.nodup_singleton _) (List.forall_mem_singleton.mpr (by decide))
    (List.forall_mem_singleton.mpr hentries)

private theorem follow_winding (rounds : Nat) :
    follow shallowDisk.root maxLinks [] (winding rounds).parts =
      .ok [("a", .directory shallowEntries)] := by
  have hchild : (endOf shallowDisk.root []).child? "a" = some (.directory shallowEntries) := rfl
  have hdown (rest : List Text) : follow shallowDisk.root maxLinks [] ("a" :: rest) =
      follow shallowDisk.root maxLinks [("a", .directory shallowEntries)] rest :=
    follow_child maxLinks rest (by decide) hchild fun _ => nofun
  -- one round up and down again leads back to where the path stood
  induction rounds with
  | zero => rw [winding, hdown, List.replicate_zero, List.flatten_nil, follow]
  | succ rounds ih =>
    rw [winding, hdown, List.replicate_succ, List.flatten_cons, List.cons_append,
      List.cons_append, List.nil_append, follow, if_neg (by decide), if_neg (by decide),
      if_pos rfl]
    exact ih

/-- However often a path goes up and down again, it leads to the same directory. -/
theorem reach_winding (rounds : Nat) :
    shallowDisk.reach (winding rounds).parts = .ok ⟨["a"], .directory shallowEntries⟩ := by
  rw [reach, follow_winding]
  rfl

private theorem look_winding {rounds : Nat} (hknown : isNameText (winding rounds).text = true)
    (hshort : isOverlong (winding rounds).text = false) :
    shallowDisk.look (winding rounds) = .ok (some ⟨["a"], .directory shallowEntries⟩) := by
  have hfrom : shallowDisk.fromRoot (winding rounds) = (winding rounds).parts := rfl
  rw [look, locate, hknown, hshort, hfrom, reach_winding]
  rfl

private theorem belowEntries_shallowEntries : belowEntries [] shallowEntries =
    [⟨["f.json"], .file (Utf8.encode "\x7b\x7d")⟩] := rfl

private theorem scans_winding {rounds : Nat} (hknown : isNameText (winding rounds).text = true)
    (hshort : isOverlong (winding rounds).text = false) :
    Scans shallowDisk (winding rounds) ["a"] shallowEntries := by
  apply scans_of_below wellFormed_shallowDisk (look_winding hknown hshort) hshort
  simp [belowEntries_shallowEntries, Place.IsScannable]

/-- Two paths to one directory tell different things of it: a document in it is listed by the short
path, but on the long one its own path is longer than the system takes, and it is passed over. -/
theorem long_path_hides_document :
    Scans shallowDisk (winding 0) ["a"] shallowEntries ∧
      Scans shallowDisk (winding 818) ["a"] shallowEntries ∧
      Qualifies Config.default (defaultExcludes ++ []) shallowEntries ["f.json"] ∧
      shallowDisk.discover (winding 0) Config.default [] = .ok [pathTo ["a", "f.json"]] ∧
      shallowDisk.discover (winding 818) Config.default [] = .ok [] := by
  -- the winding path can still be looked up, but not with the name of the file behind it
  have hlong : isNameText (winding 818).text = true ∧ isOverlong (winding 818).text = false ∧
      ¬IsWithinReach (winding 818) ["f.json"] := by decide +kernel
  have hnear : Scans shallowDisk (winding 0) ["a"] shallowEntries :=
    scans_winding (by decide) (by decide)
  have hfar := scans_winding hlong.1 hlong.2.1
  have hwanted : isWanted Config.default (defaultExcludes ++ []) ["f.json"] 2 = true := by decide
  refine ⟨hnear, hfar, ⟨_, rfl, isWanted_iff.mp hwanted⟩, ?_, ?_⟩
  · have hplaces : shallowDisk.wantedPlaces Config.default (defaultExcludes ++ []) (winding 0)
        ["a"] (belowEntries [] shallowEntries) = .ok [["a", "f.json"]] := by
      rw [belowEntries_shallowEntries, wantedPlaces,
        hnear.lookAtEntry_eq (by simp [belowEntries_shallowEntries]), if_pos (by decide)]
      rfl
    rw [discover_of_directory hnear.leads hplaces]
    simp [inOrder, List.eraseDups_cons, pathTo]
  · have hplaces : shallowDisk.wantedPlaces Config.default (defaultExcludes ++ []) (winding 818)
        ["a"] (belowEntries [] shallowEntries) = .ok [] := by
      rw [belowEntries_shallowEntries, wantedPlaces,
        hfar.lookAtEntry_eq (by simp [belowEntries_shallowEntries]), if_neg hlong.2.2]
      rfl
    rw [discover_of_directory hfar.leads hplaces]
    simp [inOrder]

end FormSchema.Disk
