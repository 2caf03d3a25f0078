import FormSchema.Engine
import FormSchema.Proofs.Disk.Discovery
import FormSchema.Proofs.Text.LowerCase

/-!
# Which names are recognised

A name is recognised if its lower-case form ends with a suffix.  A suffix in lower case is therefore
found at the end of every name that ends with it, in whatever case the name writes its letters in
ASCII, and the engine and discovery take such a name.  A suffix that is not in lower case is found
nowhere.
-/

namespace FormSchema

/-! ## Section 1: Names -/

/-- The lower-case form of the whole name is compared, but the suffix is taken as it is. -/
theorem Config.matchesSuffix_eq_true_iff {config : Config} {name : Text} :
    config.matchesSuffix name = true ↔ ∃ suffix ∈ config.fileSuffixes, suffix <:+ name.lower := by
  simp [matchesSuffix, Text.endsWith]

/-- A suffix in lower case is found at the end of a name that ends with it. -/
theorem Config.matchesSuffix_of_suffix {config : Config} {suffix name : Text}
    (hmem : suffix ∈ config.fileSuffixes) (hsmall : suffix.lower = suffix) (h : suffix <:+ name) :
    config.matchesSuffix name = true :=
  matchesSuffix_eq_true_iff.mpr ⟨suffix, hmem, Text.suffix_lower hsmall h⟩

/-- Only a suffix that is in lower case ends a name in lower case, so only these are found. -/
theorem Config.matchesSuffix_iff_small {config : Config} {name : Text} :
    config.matchesSuffix name = true ↔
      ∃ suffix ∈ config.fileSuffixes, suffix.lower = suffix ∧ suffix <:+ name.lower := by
  rw [matchesSuffix_eq_true_iff]
  constructor
  · rintro ⟨suffix, hmem, h⟩
    exact ⟨suffix, hmem, Text.lower_eq_self_of_suffix h, h⟩
  · rintro ⟨suffix, hmem, -, h⟩
    exact ⟨suffix, hmem, h⟩

/-- A name is recognised by the only suffix, with which it ends, exactly if that is in lower case.
-/
theorem Config.matchesSuffix_single_iff (config : Config) {suffix name : Text}
    (h : suffix <:+ name) :
    Config.matchesSuffix { config with fileSuffixes := [suffix] } name = true ↔
      suffix.lower = suffix := by
  rw [matchesSuffix_iff_small]
  constructor
  · rintro ⟨other, hother, hsmall, -⟩
    rwa [List.mem_singleton.mp hother] at hsmall
  · intro hsmall
    exact ⟨suffix, List.mem_cons_self, hsmall, Text.suffix_lower hsmall h⟩

/-- The case in which a name writes its letters in ASCII does not matter. -/
theorem Config.matchesSuffix_congr (config : Config) {name other : Text}
    (h : List.Forall₂ LowerCase.SameLetter name other) :
    config.matchesSuffix name = config.matchesSuffix other := by
  rw [matchesSuffix, matchesSuffix, Text.lower_congr h]

/-- An ASCII name is recognised by a suffix in lower case with which it ends, up to the case of its
letters.  Beyond ASCII there are other letters whose lower-case form is in ASCII. -/
theorem Config.matchesSuffix_iff_of_ascii {config : Config} {name : Text}
    (hascii : ∀ c ∈ name, c.toNat < 0x80) :
    config.matchesSuffix name = true ↔
      ∃ suffix ∈ config.fileSuffixes, suffix.lower = suffix ∧
        ∃ ending, ending <:+ name ∧ List.Forall₂ LowerCase.SameLetter suffix ending := by
  rw [matchesSuffix_iff_small]
  constructor
  · rintro ⟨suffix, hmem, hsmall, h⟩
    exact ⟨suffix, hmem, hsmall, Text.exists_ending_of_suffix_lower hascii h⟩
  · rintro ⟨suffix, hmem, hsmall, ending, hending, hletters⟩
    exact ⟨suffix, hmem, hsmall, Text.suffix_lower_of_sameLetters hsmall hending hletters⟩

/-- The engine takes every document whose name is recognised, whatever its language. -/
theorem Engine.isSchemaDocument_of_matchesSuffix {engine : Engine} {snapshot : Snapshot}
    (h : engine.config.matchesSuffix (Path.ofText snapshot.uri).name = true) :
    engine.isSchemaDocument snapshot = true := by
  rw [isSchemaDocument, h, Bool.or_true]

/-! ## Section 2: Files -/

/-- What is wanted of an entry that can be looked at is among the places that are wanted. -/
theorem Disk.mem_wantedPlaces {disk : Disk} {config : Config} {excluded base : List Text}
    {directory : Path} {below : List Place} {places : List (List Text)}
    (h : disk.wantedPlaces config excluded directory base below = .ok places) {entry : Place}
    (hentry : entry ∈ below) {target : Option Place} {place : List Text}
    (hlook : disk.lookAtEntry directory base entry = .ok target)
    (hwanted : wantedPlace? config excluded entry.parts target = some place) : place ∈ places := by
  -- on the entries up to the one in question
  induction below generalizing places with
  | nil => cases hentry
  | cons other below ih =>
    rw [wantedPlaces] at h
    split at h
    · cases h
    next found hfound =>
    split at h
    · cases h
    next others hothers =>
    rcases List.mem_cons.mp hentry with rfl | hentry
    · cases hlook.symm.trans hfound
      rw [hwanted] at h
      cases h
      exact List.mem_cons_self
    · have hmem := ih hothers hentry
      split at h
      · cases h
        exact List.mem_cons_of_mem _ hmem
      · cases h
        exact hmem

/-- A file below a directory, in its own place or behind a link, is listed if its entry has the name
and the file the size of a document, and no component of the entry is excluded. -/
theorem Disk.mem_discover {disk : Disk} {root : Path} {config : Config} {exclude place : List Text}
    {entries : List (Text × Node)} {paths : List Path}
    (hleads : disk.look root = .ok (some ⟨place, .directory entries⟩))
    (h : disk.discover root config exclude = .ok paths) {entry : Place}
    (hentry : entry ∈ belowEntries [] entries) {file : List Text} {content : Octets}
    (hlook : disk.lookAtEntry root place entry = .ok (some ⟨file, .file content⟩))
    (hwanted : isWanted config (defaultExcludes ++ exclude) entry.parts content.length = true) :
    pathTo file ∈ paths := by
  -- the scan lists what is wanted, unless it fails as a whole
  cases hplaces : disk.wantedPlaces config (defaultExcludes ++ exclude) root place
    (belowEntries [] entries) with
  | error f =>
    rw [discover, hleads] at h
    simp only [hplaces] at h
    cases h
  | ok places =>
    cases (discover_of_directory hleads hplaces).symm.trans h
    have hmem := mem_wantedPlaces hplaces hentry hlook (wantedPlace?_eq_some.mpr ⟨_, rfl, hwanted⟩)
    exact List.mem_map_of_mem (mem_inOrder.mpr hmem)

/-- Discovery lists every file whose name is recognised and that has the size of a document, unless
a component of its entry is excluded. -/
theorem Disk.mem_discover_of_matchesSuffix {disk : Disk} {root : Path} {config : Config}
    {exclude place : List Text} {entries : List (Text × Node)} {paths : List Path}
    (hleads : disk.look root = .ok (some ⟨place, .directory entries⟩))
    (h : disk.discover root config exclude = .ok paths) {entry : Place}
    (hentry : entry ∈ belowEntries [] entries) {name : Text}
    (hname : entry.parts.getLast? = some name) (hmatches : config.matchesSuffix name = true)
    {file : List Text} {content : Octets}
    (hlook : disk.lookAtEntry root place entry = .ok (some ⟨file, .file content⟩))
    (hsize : (content.length : Int) ≤ config.maxDocumentBytes)
    (hparts : ∀ part ∈ entry.parts, part ∉ defaultExcludes ++ exclude) :
    pathTo file ∈ paths := by
  refine mem_discover hleads h hentry hlook (isWanted_iff.mpr ⟨?_, hsize, hparts⟩)
  rw [hname]
  exact hmatches

/-! ## Section 3: Recognition -/

/-- A name is recognised by the suffixes that are in lower case.  Such a suffix at the end of a name
is never missed, by the engine or by discovery; one that is not in lower case is found at the end of
no name.  The case of the ASCII letters of a name does not matter, and an ASCII name is recognised
exactly if it ends, up to the case of its letters, with a suffix that is in lower case. -/
theorem recognises_small_suffixes (config : Config) :
    (∀ name, config.matchesSuffix name = true ↔
      ∃ suffix ∈ config.fileSuffixes, suffix.lower = suffix ∧ suffix <:+ name.lower) ∧
    (∀ suffix ∈ config.fileSuffixes, suffix.lower = suffix → ∀ name, suffix <:+ name →
      config.matchesSuffix name = true ∧
        (∀ engine : Engine, engine.config = config → ∀ snapshot : Snapshot,
          (Path.ofText snapshot.uri).name = name → engine.isSchemaDocument snapshot = true) ∧
        ∀ (disk : Disk) root place entries exclude paths,
          disk.look root = .ok (some ⟨place, .directory entries⟩) →
          disk.discover root config exclude = .ok paths →
          ∀ entry ∈ Disk.belowEntries [] entries, entry.parts.getLast? = some name →
          ∀ file content, disk.lookAtEntry root place entry = .ok (some ⟨file, .file content⟩) →
          (content.length : Int) ≤ config.maxDocumentBytes →
          (∀ part ∈ entry.parts, part ∉ Disk.defaultExcludes ++ exclude) →
          Disk.pathTo file ∈ paths) ∧
    (∀ suffix name : Text, suffix <:+ name →
      (Config.matchesSuffix { config with fileSuffixes := [suffix] } name = true ↔
        suffix.lower = suffix)) ∧
    (∀ name other, List.Forall₂ LowerCase.SameLetter name other →
      config.matchesSuffix name = config.matchesSuffix other) ∧
    ∀ name, (∀ c ∈ name, c.toNat < 0x80) → (config.matchesSuffix name = true ↔
      ∃ suffix ∈ config.fileSuffixes, suffix.lower = suffix ∧
        ∃ ending, ending <:+ name ∧ List.Forall₂ LowerCase.SameLetter suffix ending) := by
  refine ⟨fun _ => Config.matchesSuffix_iff_small, fun suffix hmem hsmall name h => ?_,
    fun _ _ => config.matchesSuffix_single_iff, fun _ _ => config.matchesSuffix_congr,
    fun _ => Config.matchesSuffix_iff_of_ascii⟩
  have hmatches := Config.matchesSuffix_of_suffix hmem hsmall h
  refine ⟨hmatches, ?_, ?_⟩
  · rintro engine rfl snapshot rfl
    exact Engine.isSchemaDocument_of_matchesSuffix hmatches
  · intro disk root place entries exclude paths hleads hpaths entry hentry hname file content
      hlook hsize hparts
    exact Disk.mem_discover_of_matchesSuffix hleads hpaths hentry hname hmatches hlook hsize hparts

theorem recognises_small_suffixes_json :
    Config.default.matchesSuffix "a.json" = true ∧
      Engine.default.isSchemaDocument ⟨"notes/a.json", "", "plaintext", 0⟩ = true ∧
      (∃ paths,
        Disk.archiveDisk.discover (Path.ofText "forms") Config.default ["drafts"] = .ok paths ∧
          Disk.pathTo ["forms", "a.json"] ∈ paths) ∧
      Config.default.matchesSuffix "Widget.JSON" = true := by
  obtain ⟨-, hsuffix, -, hcase, -⟩ := recognises_small_suffixes Config.default
  -- the suffix is small, so that a name with it is recognised everywhere
  obtain ⟨hname, hengine, hfiles⟩ :=
    hsuffix ".json" List.mem_cons_self (by decide) "a.json" (by decide)
  refine ⟨hname, hengine Engine.default rfl _ (by decide), ?_, ?_⟩
  · obtain ⟨paths, hpaths⟩ := Disk.scans_archive.exists_lists Config.default ["drafts"]
    have hentry : (⟨["a.json"], .file (Utf8.encode "\x7b\x7d")⟩ : Disk.Place) ∈
        Disk.belowEntries [] Disk.archiveEntries := List.mem_cons_self
    have hlook := Disk.scans_archive.lookAtEntry_eq hentry
    rw [if_pos (by decide)] at hlook
    exact ⟨paths, hpaths.discover_eq, hfiles _ _ _ _ _ _ Disk.scans_archive.leads hpaths.discover_eq
      _ hentry rfl _ _ hlook (by decide) (by decide)⟩
  · rw [hcase "Widget.JSON" "Widget.json" (by decide)]
    exact (hsuffix ".json" List.mem_cons_self (by decide) "Widget.json" (by decide)).1

/-- A suffix with a capital letter is missed at the end of a name that ends with it, and with
another case of its letters the answer is another one. -/
theorem capital_suffix_missed :
    (".JSON" : Text) <:+ "a.JSON" ∧
      Config.matchesSuffix { Config.default with fileSuffixes := [".JSON"] } "a.JSON" = false ∧
      Config.matchesSuffix { Config.default with fileSuffixes := [".json"] } "a.JSON" = true := by
  decide

end FormSchema
