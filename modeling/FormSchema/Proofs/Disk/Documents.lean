import FormSchema.Disk.Documents
import FormSchema.Proofs.Disk.Places
import FormSchema.Proofs.Engine.Verdict
import FormSchema.Proofs.Entries
import FormSchema.Proofs.Text.Order

/-!
# Documents below a path

What is discovered below a path are files, each by its absolute path and once, and all that can keep
them from being read is a text that is too long.  So a path that leads to something gives the
findings about its documents, in the order of their discovery.
-/

namespace FormSchema.Disk

/-! ## Section 1: Names that are too long -/

/-- Whether something could not be looked at because its text or a name in it is too long. -/
def Fault.IsTooLong (f : Fault) : Prop := ∃ text, f = .nowhere .nameTooLong text

/-- What is asked of the system fails only because of a name that is too long. -/
private theorem isTooLong_of_found {text : Text} {target : Except Nowhere Place} {f : Fault}
    (h : found text target = .error f) : f.IsTooLong := by
  cases target with
  | ok place => cases h
  | error reason =>
    cases reason with
    | nameTooLong =>
      cases h
      exact ⟨text, rfl⟩
    | _ => cases h

private theorem isTooLong_of_look {disk : Disk} {path : Path} {f : Fault}
    (h : disk.look path = .error f) :
    f.IsTooLong :=
  isTooLong_of_found h

/-! ## Section 2: Discovery -/

/-- Whether a path is the absolute path of a file. -/
def IsDocument (disk : Disk) (path : Path) : Prop :=
  ∃ place content, path = pathTo place ∧ disk.root.at? place = some (.file content)

section Discovery

variable {disk : Disk} {directory : Path} {base : List Text} {entries : List (Text × Node)}
  {config : Config} {exclude : List Text}

private theorem isTooLong_of_lookAtEntry {entry : Place} {f : Fault}
    (h : lookAtEntry disk directory base entry = .error f) : f.IsTooLong := by
  unfold lookAtEntry at h
  simp only at h
  -- a link is followed, and of directories and files only the length of the path counts
  split at h
  · split at h
    · cases h
      exact ⟨_, rfl⟩
    · exact isTooLong_of_found h
  · split at h
    · cases h
      exact ⟨_, rfl⟩
    · cases h
  · cases h

/-- What an entry leads to stands on the disk. -/
theorem at?_of_lookAtEntry (hdisk : disk.WellFormed)
    (hbase : disk.root.at? base = some (.directory entries)) {entry p : Place}
    (hentry : entry ∈ belowEntries [] entries)
    (h : lookAtEntry disk directory base entry = .ok (some p)) :
    disk.root.at? p.parts = some p.node := by
  -- the entry stands below the directory, wherever a link may lead
  have hat : disk.root.at? (base ++ entry.parts) = some entry.node := by
    rw [at?_append, hbase]
    exact at?_of_mem_entries (hdisk.of_at? hbase).2 hentry
  unfold lookAtEntry at h
  simp only at h
  split at h
  · split at h
    · cases h
    · exact at?_of_found h
  · next others hnode =>
    split at h
    · cases h
    · cases h
      rw [hat, hnode]
  · next content hnode =>
    split at h
    · cases h
    · cases h
      rw [hat, hnode]

private theorem isTooLong_of_wantedPlaces {below : List Place} {f : Fault}
    (h : wantedPlaces disk config exclude directory base below = .error f) : f.IsTooLong := by
  -- the first entry that cannot be looked at ends the scan
  induction below with
  | nil => cases h
  | cons entry below ih =>
    rw [wantedPlaces] at h
    split at h
    · next hlook =>
      cases h
      exact isTooLong_of_lookAtEntry hlook
    · split at h
      · next hrest =>
        cases h
        exact ih hrest
      · split at h <;> cases h

private theorem at?_of_wantedPlace? {parts place : List Text} {target : Option Place}
    (htarget : ∀ p ∈ target, disk.root.at? p.parts = some p.node)
    (h : wantedPlace? config exclude parts target = some place) :
    ∃ content, disk.root.at? place = some (.file content) := by
  unfold wantedPlace? at h
  split at h
  · next content =>
    split at h
    · cases h
      exact ⟨content, htarget _ rfl⟩
    · cases h
  · cases h

private theorem at?_of_mem_wantedPlaces (hdisk : disk.WellFormed)
    (hbase : disk.root.at? base = some (.directory entries)) {below : List Place}
    (hbelow : below ⊆ belowEntries [] entries) {places : List (List Text)}
    (h : wantedPlaces disk config exclude directory base below = .ok places) :
    ∀ place ∈ places, ∃ content, disk.root.at? place = some (.file content) := by
  -- on the entries below the directory, each of which is wanted only if a file is found there
  induction below generalizing places with
  | nil =>
    cases h
    nofun
  | cons entry below ih =>
    obtain ⟨hentry, hbelow⟩ := List.cons_subset.mp hbelow
    rw [wantedPlaces] at h
    split at h
    · cases h
    · next target hlook =>
      have htarget : ∀ p ∈ target, disk.root.at? p.parts = some p.node := by
        rintro p rfl
        exact at?_of_lookAtEntry hdisk hbase hentry hlook
      split at h
      · cases h
      · next others hothers =>
        split at h
        · next place hwanted =>
          cases h
          exact List.forall_mem_cons.mpr ⟨at?_of_wantedPlace? htarget hwanted, ih hbelow hothers⟩
        · cases h
          exact ih hbelow hothers

private theorem isTooLong_of_discover {root : Path} {f : Fault}
    (h : disk.discover root config exclude = .error f) : f.IsTooLong := by
  unfold discover at h
  -- looking at the root can fail, and so can the scan of a directory
  split at h
  · next hlook =>
    cases h
    exact isTooLong_of_look hlook
  · cases h
  · split at h
    · next hwanted =>
      cases h
      exact isTooLong_of_wantedPlaces hwanted
    · cases h
  · cases h
  · cases h

/-- What is wanted below a directory is listed in order. -/
theorem discover_of_directory {root : Path} {parts : List Text} {places : List (List Text)}
    (hlook : disk.look root = .ok (some ⟨parts, .directory entries⟩))
    (hwanted : disk.wantedPlaces config (defaultExcludes ++ exclude) root parts
      (belowEntries [] entries) = .ok places) :
    disk.discover root config exclude = .ok ((inOrder places).map fun place => ⟨1, place⟩) := by
  rw [discover, hlook]
  simp only [hwanted]

/-- Absolute paths without links tell their places apart. -/
theorem pathTo_inj {place other : List Text} (h : pathTo place = pathTo other) : place = other :=
  congrArg Path.parts h

/-- Everything discovered is a file, and is listed once. -/
theorem discover_documents (hdisk : disk.WellFormed) {root : Path} {paths : List Path}
    (h : disk.discover root config exclude = .ok paths) :
    (∀ path ∈ paths, disk.IsDocument path) ∧ paths.Nodup := by
  -- by what is found at the path: a fault, nothing, a directory, a file or something else
  unfold discover at h
  split at h
  · cases h
  · cases h
    exact ⟨nofun, List.nodup_nil⟩
  · next parts entries hlook =>
    split at h
    · cases h
    · next places hwanted =>
      cases h
      refine ⟨List.forall_mem_map.mpr fun place hplace => ?_,
        (nodup_eraseDups _).map fun _ _ => pathTo_inj⟩
      rw [inOrder, List.mem_eraseDups, List.mem_mergeSort] at hplace
      obtain ⟨content, hat⟩ := at?_of_mem_wantedPlaces hdisk (at?_of_look hlook)
        (List.Subset.refl _) hwanted place hplace
      exact ⟨place, content, rfl, hat⟩
  · next parts content hlook =>
    cases h
    exact ⟨List.forall_mem_singleton.mpr ⟨parts, content, rfl, at?_of_look hlook⟩,
      List.nodup_singleton _⟩
  · cases h
    exact ⟨nofun, List.nodup_nil⟩

end Discovery

/-! ## Section 3: Findings -/

/-- The findings about the file at a path; none if it cannot be read. -/
def findingsAt (disk : Disk) (path : Path) : List Diagnostic :=
  match disk.validateFile path with
  | .ok found => found
  | .error _ => []

/-- The entry of a path in a report. -/
def documentAt (disk : Disk) (path : Path) : Text × List Diagnostic :=
  (path.text, disk.findingsAt path)

section Validation

variable {disk : Disk} (hdisk : disk.WellFormed)

include hdisk

/-- A file is validated by its content. -/
theorem IsDocument.validateFile_of_short {path : Path} (h : disk.IsDocument path)
    (hshort : isOverlong path.text = false) :
    disk.validateFile path = .ok (disk.findingsAt path) ∧ ∃ place content,
      disk.lookForFile path = .ok (some (place, content)) ∧
        disk.findingsAt path = diagnose Pass.defaults (textOf content) := by
  obtain ⟨place, content, rfl, hat⟩ := h
  have hlook := lookForFile_pathTo hdisk hat
  rw [hshort, if_neg (by decide)] at hlook
  -- the path is opened again, and it leads to the same file
  have hvalidate : disk.validateFile (pathTo place) =
      .ok (diagnose Pass.defaults (textOf content)) := by
    rw [validateFile, hlook]
    exact congrArg Except.ok (validateText_eq _ _)
  have hfindings : disk.findingsAt (pathTo place) = diagnose Pass.defaults (textOf content) := by
    rw [findingsAt, hvalidate]
  exact ⟨hfindings ▸ hvalidate, place, content, hlook, hfindings⟩

/-- A document by a path that is too long cannot be read again. -/
theorem IsDocument.validateFile_of_overlong {path : Path} (h : disk.IsDocument path)
    (hlong : isOverlong path.text = true) :
    disk.validateFile path = .error (.fault (.nowhere .nameTooLong path.text)) := by
  obtain ⟨place, content, rfl, hat⟩ := h
  rw [validateFile, lookForFile_pathTo hdisk hat, hlong, if_pos rfl]

private theorem validateFiles_of_short (findings : Findings) {paths : List Path}
    (h : ∀ path ∈ paths, disk.IsDocument path)
    (hshort : ∀ path ∈ paths, isOverlong path.text = false) :
    disk.validateFiles findings paths =
      .ok ((paths.map disk.documentAt).foldl (fun es m => es.put m.1 m.2) findings) := by
  induction paths generalizing findings with
  | nil => rfl
  | cons path paths ih =>
    obtain ⟨hpath, hpaths⟩ := List.forall_mem_cons.mp h
    obtain ⟨hpathShort, hpathsShort⟩ := List.forall_mem_cons.mp hshort
    rw [validateFiles, (hpath.validateFile_of_short hdisk hpathShort).1]
    exact ih (findings.put path.text (disk.findingsAt path)) hpaths hpathsShort

private theorem validateFiles_of_overlong (findings : Findings) {paths : List Path}
    (h : ∀ path ∈ paths, disk.IsDocument path)
    (hlong : ¬∀ path ∈ paths, isOverlong path.text = false) :
    ∃ f, Fault.IsTooLong f ∧ disk.validateFiles findings paths = .error (.fault f) := by
  -- the files before the first path that is too long are validated without a fault
  induction paths generalizing findings with
  | nil => exact absurd nofun hlong
  | cons path paths ih =>
    obtain ⟨hpath, hpaths⟩ := List.forall_mem_cons.mp h
    rw [List.forall_mem_cons, not_and] at hlong
    rw [validateFiles]
    cases hover : isOverlong path.text with
    | true =>
      rw [hpath.validateFile_of_overlong hdisk hover]
      exact ⟨_, ⟨_, rfl⟩, rfl⟩
    | false =>
      rw [(hpath.validateFile_of_short hdisk hover).1]
      exact ih _ hpaths (hlong hover)

/-- Documents with one text are one document. -/
theorem IsDocument.eq_of_text_eq {path other : Path}
    (hpath : disk.IsDocument path) (hother : disk.IsDocument other) (h : path.text = other.text) :
    path = other := by
  obtain ⟨place, content, rfl, hat⟩ := hpath
  obtain ⟨place', content', rfl, hat'⟩ := hother
  exact congrArg pathTo (pathTo_injective (hdisk.of_at? hat).1 (hdisk.of_at? hat').1 h)

end Validation

/-- What a path that leads to something gives: the documents that are discovered, each of which is a
file that can be read. -/
structure Collects (disk : Disk) (root : Path) (config : Config) (exclude : List Text)
    (paths : List Path) : Prop where
  leads : disk.look root ≠ .ok none
  discover_eq : disk.discover root config exclude = .ok paths
  documents : ∀ path ∈ paths, disk.IsDocument path
  short : ∀ path ∈ paths, isOverlong path.text = false
  collect_eq : disk.collect root config exclude = .ok (paths.map disk.documentAt)

/-- What is collected at a path is what is found in the discovered documents. -/
theorem collect_of_discover {disk : Disk} {root : Path} {config : Config} {exclude : List Text}
    {paths : List Path} (hleads : disk.look root ≠ .ok none)
    (hdiscover : disk.discover root config exclude = .ok paths) :
    disk.collect root config exclude = disk.validateFiles [] paths := by
  rw [collect, hdiscover]
  -- a root that leads nowhere is an error of its own, and here it is excluded
  cases hlook : disk.look root with
  | error f =>
    rw [discover, hlook] at hdiscover
    cases hdiscover
  | ok target =>
    cases target with
    | none => exact absurd hlook hleads
    | some place => rfl

/-- Discovered documents are collected if none of their absolute paths is too long. -/
theorem collects_of_discover {disk : Disk} (hdisk : disk.WellFormed) {root : Path}
    {config : Config} {exclude : List Text} {paths : List Path}
    (hleads : disk.look root ≠ .ok none)
    (hdiscover : disk.discover root config exclude = .ok paths)
    (hshort : ∀ path ∈ paths, isOverlong path.text = false) :
    Collects disk root config exclude paths := by
  obtain ⟨hdocuments, honce⟩ := discover_documents hdisk hdiscover
  -- no two documents have one text, so that each is put behind the others
  have hdistinct : Entries.Distinct (paths.map disk.documentAt) := by
    rw [Entries.Distinct, Entries.names, List.map_map]
    exact honce.map_on fun a ha b hb hab =>
      (hdocuments a ha).eq_of_text_eq hdisk (hdocuments b hb) hab
  refine ⟨hleads, hdiscover, hdocuments, hshort, ?_⟩
  rw [collect_of_discover hleads hdiscover, validateFiles_of_short hdisk [] hdocuments hshort]
  exact congrArg Except.ok (Entries.ofMembers_of_distinct hdistinct)

/-- Below a path documents are collected, unless it leads nowhere or something is too long. -/
theorem collect_cases {disk : Disk} (hdisk : disk.WellFormed) (root : Path) (config : Config)
    (exclude : List Text) :
    (∃ paths, Collects disk root config exclude paths) ∨
      (disk.look root = .ok none ∧ disk.collect root config exclude = .error (.noRoot root)) ∨
      ∃ f, Fault.IsTooLong f ∧ disk.collect root config exclude = .error (.fault f) := by
  -- in the order in which a run goes: the path is looked at, documents are discovered, each is read
  cases hlook : disk.look root with
  | error f => exact .inr (.inr ⟨f, isTooLong_of_look hlook, by rw [collect, hlook]⟩)
  | ok target =>
    cases target with
    | none => exact .inr (.inl ⟨rfl, by rw [collect, hlook]⟩)
    | some p =>
      have hleads : disk.look root ≠ .ok none := by
        rw [hlook]
        nofun
      cases hdiscover : disk.discover root config exclude with
      | error f =>
        exact .inr (.inr ⟨f, isTooLong_of_discover hdiscover, by rw [collect, hlook, hdiscover]⟩)
      | ok paths =>
        by_cases hshort : ∀ path ∈ paths, isOverlong path.text = false
        · exact .inl ⟨paths, collects_of_discover hdisk hleads hdiscover hshort⟩
        · obtain ⟨f, hf, hfault⟩ :=
            validateFiles_of_overlong hdisk [] (discover_documents hdisk hdiscover).1 hshort
          exact .inr (.inr ⟨f, hf, (collect_of_discover hleads hdiscover).trans hfault⟩)

/-- A file is collected by itself, if its absolute path is not too long. -/
theorem collects_of_lookForFile {disk : Disk} (hdisk : disk.WellFormed) {path : Path}
    {place : List Text} {content : Octets}
    (h : disk.lookForFile path = .ok (some (place, content)))
    (hshort : isOverlong (pathTo place).text = false) (config : Config) (exclude : List Text) :
    Collects disk path config exclude [pathTo place] := by
  have hlook := look_of_lookForFile h
  refine collects_of_discover hdisk ?_ ?_ (List.forall_mem_singleton.mpr hshort)
  · rw [hlook]
    nofun
  · rw [discover, hlook]
    rfl

/-! ## Section 4: A disk with two documents -/

/-- A disk with two files: an empty form, and a document that is no object. -/
def formsDisk : Disk :=
  ⟨.directory [("a.json", .file (Utf8.encode "\x7b\x7d")), ("b.json", .file (Utf8.encode "[]"))], []⟩

/-- Both names can be names of files, and they differ. -/
theorem wellFormed_formsDisk : formsDisk.WellFormed := by
  refine .directory (by decide) (by decide) ?_
  exact List.forall_mem_cons.mpr ⟨.file _, List.forall_mem_singleton.mpr (.file _)⟩

/-- The dot leads to the directory itself. -/
theorem look_formsDisk : formsDisk.look (Path.ofText ".") = .ok (some ⟨[], formsDisk.root⟩) := by
  have hat : formsDisk.root.at? (formsDisk.fromRoot (Path.ofText ".")) = some formsDisk.root := rfl
  rw [look_of_at? wellFormed_formsDisk (by decide) hat nofun, if_neg (by decide)]
  rfl

theorem lookForFile_formsDisk_a : formsDisk.lookForFile (Path.ofText "a.json") =
    .ok (some (["a.json"], Utf8.encode "\x7b\x7d")) :=
  (lookForFile_of_at? wellFormed_formsDisk (by decide) rfl).trans (if_neg (by decide))

theorem lookForFile_formsDisk_b : formsDisk.lookForFile (Path.ofText "b.json") =
    .ok (some (["b.json"], Utf8.encode "[]")) :=
  (lookForFile_of_at? wellFormed_formsDisk (by decide) rfl).trans (if_neg (by decide))

/-- A document without fields has no findings. -/
theorem diagnose_emptyObject : diagnose Pass.defaults "\x7b\x7d" = [] := by
  refine (verdict_diagnose_defaults _).eq_nil_iff.mpr ⟨[], rfl, ?_⟩
  rw [Container.preorder]
  exact List.forall_mem_nil _

/-- An array is no document. -/
theorem diagnose_emptyArray : diagnose Pass.defaults "[]" = [rootNotObject (.arr [])] := rfl

/-- Both documents are listed, in the order of their names. -/
theorem discover_formsDisk : formsDisk.discover (Path.ofText ".") Config.default [] =
    .ok [pathTo ["a.json"], pathTo ["b.json"]] := by
  let places : List (List Text) := [["a.json"], ["b.json"]]
  have hwanted : formsDisk.wantedPlaces Config.default (defaultExcludes ++ []) (Path.ofText ".") []
      (below [] formsDisk.root) = .ok places := rfl
  have horder : inOrder places = places := by
    rw [inOrder, List.mergeSort_of_pairwise (by decide)]
    rfl
  rw [discover_of_directory look_formsDisk hwanted, horder]
  rfl

end FormSchema.Disk
