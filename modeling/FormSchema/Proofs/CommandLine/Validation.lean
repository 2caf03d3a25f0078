import FormSchema.Proofs.CommandLine.Switches
import FormSchema.Proofs.Disk.Documents
import FormSchema.Proofs.Report

/-!
# Validation of several paths

A validation goes along its paths and puts the findings about each document where the document was
found first.  So a document counts once, however many of the paths lead to it; the paths may come in
any order, and one that leads to nothing new changes nothing.  The first path that leads nowhere
ends the validation with an error, and one that is too long ends it without an exit code.
-/

namespace FormSchema.CommandLine

variable {disk : Disk} {exclude : List Text}

/-! ## Section 1: Collecting -/

private theorem collectAt_some (disk : Disk) (exclude : List Text) (path : Path) :
    collectAt disk (some exclude) path =
      (disk.collect path Config.default exclude).mapError endingOf := rfl

/-- The findings about some documents, each document where it comes first. -/
def findingsOf (disk : Disk) (documents : List Path) : Findings :=
  .ofMembers (documents.map disk.documentAt)

/-- Some paths with the documents to which each of them leads. -/
def CollectsAll (disk : Disk) (exclude : List Text) (paths : List Path)
    (found : List (List Path)) : Prop :=
  List.Forall₂ (fun path documents => Disk.Collects disk path Config.default exclude documents)
    paths found

private theorem collectAll_append {before : List Path} {found : List (List Path)}
    (h : CollectsAll disk exclude before found) (done : List Path) (rest : List Path) :
    collectAll disk (some exclude) (findingsOf disk done) (before ++ rest) =
      collectAll disk (some exclude) (findingsOf disk (done ++ found.flatten)) rest := by
  -- path by path, while the findings that are done grow
  induction h generalizing done with
  | nil => rw [List.flatten_nil, List.append_nil, List.nil_append]
  | @cons path documents before found hpath _ ih =>
    have hmerge : mergeFindings (findingsOf disk done) (documents.map disk.documentAt) =
        findingsOf disk (done ++ documents) := by
      rw [findingsOf, findingsOf, List.map_append, Entries.ofMembers, Entries.ofMembers,
        List.foldl_append]
      rfl
    rw [List.cons_append, collectAll, collectAt_some, hpath.collect_eq]
    simp only [Except.mapError]
    rw [hmerge, ih, List.flatten_cons, List.append_assoc]

private theorem collectAll_of_collects {paths : List Path} {found : List (List Path)}
    (h : CollectsAll disk exclude paths found) :
    collectAll disk (some exclude) [] paths = .ok (findingsOf disk found.flatten) := by
  have hall := collectAll_append h [] []
  rw [List.append_nil] at hall
  exact hall

/-- The first path that cannot be collected ends the collection, and what comes behind it is not
looked at. -/
private theorem collectAll_of_stop {before : List Path} {found : List (List Path)}
    (h : CollectsAll disk exclude before found) {path : Path} {e : Disk.DocumentError}
    (hpath : disk.collect path Config.default exclude = .error e) (after : List Path) :
    collectAll disk (some exclude) [] (before ++ path :: after) = .error (endingOf e) := by
  refine (collectAll_append h [] (path :: after)).trans ?_
  rw [collectAll, collectAt_some, hpath]
  rfl

/-! ## Section 2: Reports on documents -/

/-- The documents to which some paths lead are files that can be read. -/
theorem CollectsAll.of_mem {paths : List Path} {found : List (List Path)}
    (h : CollectsAll disk exclude paths found) {path : Path} (hpath : path ∈ found.flatten) :
    disk.IsDocument path ∧ Disk.isOverlong path.text = false := by
  induction h with
  | nil => cases hpath
  | cons hfirst _ ih =>
    rw [List.flatten_cons, List.mem_append] at hpath
    rcases hpath with hpath | hpath
    · exact ⟨hfirst.documents path hpath, hfirst.short path hpath⟩
    · exact ih hpath

/-- Documents of one text have one list of findings. -/
theorem CollectsAll.functional (hdisk : disk.WellFormed) {paths : List Path}
    {found : List (List Path)} (h : CollectsAll disk exclude paths found) :
    ∀ e ∈ found.flatten.map disk.documentAt, ∀ f ∈ found.flatten.map disk.documentAt,
      e.1 = f.1 → e.2 = f.2 := by
  rw [List.forall_mem_map]
  intro path hpath
  rw [List.forall_mem_map]
  intro other hother htext
  rw [(h.of_mem hpath).1.eq_of_text_eq hdisk (h.of_mem hother).1 htext]

/-- Whatever is reported is reported of one of the documents. -/
theorem exists_document_of_mem {documents : List Path} {e : Text × List Diagnostic}
    (h : e ∈ findingsOf disk documents) : ∃ path ∈ documents, disk.documentAt path = e :=
  List.mem_map.mp (Entries.mem_of_mem_ofMembers h)

private theorem build_findingsOf (hdisk : disk.WellFormed) {paths : List Path}
    {found : List (List Path)}
    (h : CollectsAll disk exclude paths found) :
    Report.build (findingsOf disk found.flatten) = .ok ⟨findingsOf disk found.flatten⟩ := by
  refine Report.build_eq_ok_iff.mpr ⟨fun document hdocument d hd => ?_, rfl⟩
  obtain ⟨path, hpath, rfl⟩ := exists_document_of_mem hdocument
  obtain ⟨hfile, hshort⟩ := h.of_mem hpath
  obtain ⟨-, place, content, -, hfindings⟩ := hfile.validateFile_of_short hdisk hshort
  have hd : d ∈ disk.findingsAt path := hd
  rw [hfindings] at hd
  exact (verdict_diagnose_defaults _).reportable hd

/-- A validation shows the report on the documents that it has found. -/
theorem runValidate_of_collects (hdisk : disk.WellFormed) {paths : List Path}
    {found : List (List Path)} (h : CollectsAll disk exclude paths found) (json : Bool) :
    runValidate disk paths json (some exclude) =
      showReport disk json ⟨findingsOf disk found.flatten⟩ := by
  rw [runValidate, collectAll_of_collects h]
  simp only [build_findingsOf hdisk h]

/-- A path that cannot be collected ends the validation before anything is printed. -/
theorem runValidate_of_stop {before : List Path} {found : List (List Path)}
    (h : CollectsAll disk exclude before found) {path : Path} {e : Disk.DocumentError}
    (hpath : disk.collect path Config.default exclude = .error e) (after : List Path)
    (json : Bool) :
    runValidate disk (before ++ path :: after) json (some exclude) = ⟨disk, [], endingOf e⟩ := by
  rw [runValidate, collectAll_of_stop h hpath after]

private theorem mapError_endingOf_ne (r : Except Disk.DocumentError Findings) (stop : Stop) :
    r.mapError endingOf ≠ .error (.stop stop) := by
  cases r with
  | ok findings => nofun
  | error e => cases e <;> nofun

private theorem collectAt_ne_stop (disk : Disk) (exclude : Option (List Text)) (path : Path)
    (stop : Stop) : collectAt disk exclude path ≠ .error (.stop stop) := by
  unfold collectAt
  split
  · nofun
  · exact mapError_endingOf_ne _ stop

private theorem collectAll_ne_stop (disk : Disk) (exclude : Option (List Text))
    (findings : Findings)
    (paths : List Path) (stop : Stop) :
    collectAll disk exclude findings paths ≠ .error (.stop stop) := by
  -- on the paths, with the findings of those in front of them
  induction paths generalizing findings with
  | nil => nofun
  | cons path paths ih =>
    intro h
    rw [collectAll] at h
    split at h
    · next hpath =>
      cases h
      exact collectAt_ne_stop disk exclude path stop hpath
    · exact ih _ h

/-- A validation does not end because its arguments are misused. -/
theorem runValidate_ending_ne (disk : Disk) (paths : List Path) (json : Bool)
    (exclude : Option (List Text)) (stop : Stop) :
    (runValidate disk paths json exclude).ending ≠ .stop stop := by
  intro h
  -- neither the collection nor the report stops a program
  unfold runValidate at h
  split at h
  · next hending =>
    cases h
    exact collectAll_ne_stop disk exclude [] paths stop hending
  · split at h
    · cases h
    · next r _ =>
      unfold showReport at h
      split at h <;> cases h

private theorem reportCode_eq_violation_iff {r : Report} :
    reportCode r = .violation ↔ ∃ document ∈ r.documents, document.2 ≠ [] := by
  -- the total is the sum over the documents, and that is zero only if all parts are
  have htotal : r.diagnosticsTotal = (r.documents.map fun document => document.2.length).sum := by
    rw [Report.diagnosticsTotal_eq, Report.sum_byRule]
  have hzero : r.diagnosticsTotal = 0 ↔ ∀ document ∈ r.documents, document.2 = [] := by
    rw [htotal, List.sum_eq_zero_iff_forall_eq_nat, List.forall_mem_map]
    exact forall₂_congr fun document _ => List.length_eq_zero_iff
  rw [reportCode]
  split
  · next h => exact iff_of_false nofun fun ⟨document, hmem, hne⟩ => hne (hzero.mp h document hmem)
  · next h =>
    rw [hzero] at h
    exact iff_of_true rfl (by simpa using h)

/-- The exit code as a number. -/
theorem code_reportCode (r : Report) :
    (reportCode r).code = if ∃ document ∈ r.documents, document.2 ≠ [] then 1 else 0 := by
  split
  · next h => rw [reportCode_eq_violation_iff.mpr h, ExitCode.code]
  · next h =>
    rw [← reportCode_eq_violation_iff, reportCode] at h
    rw [reportCode]
    split
    · rfl
    · next hne => exact absurd (if_neg hne) h

/-! ## Section 3: Documents count once -/

/-- Whether neither a path nor anything met below it is too long to be looked at. -/
def IsReachable (disk : Disk) (exclude : List Text) (path : Path) : Prop :=
  ∀ f, disk.collect path Config.default exclude ≠ .error (.fault f)

/-- Whether a path leads to something, and can be looked at with all below it. -/
structure IsThere (disk : Disk) (exclude : List Text) (path : Path) : Prop where
  leads : disk.look path ≠ .ok none
  reachable : IsReachable disk exclude path

/-- A path that leads somewhere and can be looked at leads to documents, perhaps to none. -/
private theorem IsThere.exists_collects (hdisk : disk.WellFormed) {path : Path}
    (h : IsThere disk exclude path) :
    ∃ documents, Disk.Collects disk path Config.default exclude documents := by
  rcases Disk.collect_cases hdisk path Config.default exclude with hpath | ⟨hmissing, -⟩ |
    ⟨f, -, hfault⟩
  · exact hpath
  · exact absurd hmissing h.leads
  · exact absurd hfault (h.reachable f)

/-- Paths that lead somewhere lead to documents, each to its own. -/
theorem exists_collectsAll (hdisk : disk.WellFormed) {paths : List Path}
    (h : ∀ path ∈ paths, IsThere disk exclude path) :
    ∃ found, CollectsAll disk exclude paths found := by
  induction paths with
  | nil => exact ⟨[], .nil⟩
  | cons path paths ih =>
    obtain ⟨hpath, hpaths⟩ := List.forall_mem_cons.mp h
    obtain ⟨documents, hdocuments⟩ := hpath.exists_collects hdisk
    obtain ⟨found, hfound⟩ := ih hpaths
    exact ⟨documents :: found, .cons hdocuments hfound⟩

/-- Among paths of which one leads nowhere there is a first such path. -/
theorem exists_first_missing {paths : List Path}
    (hreachable : ∀ path ∈ paths, IsReachable disk exclude path) {path : Path}
    (hpath : path ∈ paths) (hmissing : disk.look path = .ok none) :
    ∃ before first after, paths = before ++ first :: after ∧ disk.look first = .ok none ∧
      ∀ q ∈ before, IsThere disk exclude q := by
  -- the first path decides: it is missing itself, or the missing one comes later
  induction paths with
  | nil => cases hpath
  | cons q paths ih =>
    obtain ⟨hq, hpaths⟩ := List.forall_mem_cons.mp hreachable
    by_cases hlook : disk.look q = .ok none
    · exact ⟨[], q, paths, rfl, hlook, nofun⟩
    · have hlater : path ∈ paths := by
        rcases List.mem_cons.mp hpath with rfl | hpath
        · exact absurd hmissing hlook
        · exact hpath
      obtain ⟨before, first, after, rfl, hfirst, hbefore⟩ := ih hpaths hlater
      exact ⟨q :: before, first, after, rfl, hfirst,
        List.forall_mem_cons.mpr ⟨⟨hlook, hq⟩, hbefore⟩⟩

/-- What is collected at paths is what is discovered at each of them. -/
theorem CollectsAll.eq_map {paths : List Path} {found : List (List Path)}
    (h : CollectsAll disk exclude paths found) :
    found = paths.map fun path =>
      ((disk.discover path Config.default exclude).toOption).getD [] := by
  induction h with
  | nil => rfl
  | cons hpath _ ih =>
    rw [List.map_cons, ← ih, hpath.discover_eq]
    rfl

/-- Paths in another order lead to the same documents in another order. -/
theorem CollectsAll.perm {paths others : List Path} {found others' : List (List Path)}
    (hperm : others.Perm paths) (h : CollectsAll disk exclude paths found)
    (h' : CollectsAll disk exclude others others') : others'.flatten.Perm found.flatten := by
  rw [h.eq_map, h'.eq_map]
  exact (hperm.map _).flatten

/-- What a report says about paths with the documents discovered at each of them: every document
once, in the order of the first discoveries, with what is found in its text, and counted once. -/
structure ReportsOn (disk : Disk) (exclude : List Text) (paths : List Path)
    (found : List (List Path)) (r : Report) : Prop where
  discovered : List.Forall₂
    (fun path documents => disk.discover path Config.default exclude = .ok documents) paths found
  names : r.documents.names = Text.dedup (found.flatten.map Path.text)
  once : r.documents.Distinct
  findings : ∀ document ∈ r.documents, ∃ path ∈ found.flatten, path.text = document.1 ∧
    ∃ place content, disk.lookForFile path = .ok (some (place, content)) ∧
      document.2 = validateText document.1 (Disk.textOf content)
  documentsTotal : r.documentsTotal = (Text.dedup (found.flatten.map Path.text)).length
  diagnosticsTotal : r.diagnosticsTotal =
    (r.documents.map fun document => document.2.length).sum
  code : reportCode r = .violation ↔ ∃ document ∈ r.documents, document.2 ≠ []

/-- The report on what was collected is one on what was discovered. -/
theorem CollectsAll.reportsOn (hdisk : disk.WellFormed) {paths : List Path}
    {found : List (List Path)} (h : CollectsAll disk exclude paths found) :
    ReportsOn disk exclude paths found ⟨findingsOf disk found.flatten⟩ := by
  have hnames : (findingsOf disk found.flatten).names =
      Text.dedup (found.flatten.map Path.text) := by
    rw [findingsOf, Entries.names_ofMembers, Entries.names, List.map_map]
    rfl
  refine ⟨List.Forall₂.imp (fun _ _ hpath => hpath.discover_eq) h, hnames,
    Entries.distinct_ofMembers _, fun document hdocument => ?_, ?_, ?_, reportCode_eq_violation_iff⟩
  · -- each document of the report is one of the files that were found, under its path
    obtain ⟨path, hpath, rfl⟩ := exists_document_of_mem hdocument
    obtain ⟨hfile, hshort⟩ := h.of_mem hpath
    obtain ⟨-, place, content, hlook, hfindings⟩ := hfile.validateFile_of_short hdisk hshort
    exact ⟨path, hpath, rfl, place, content, hlook, hfindings.trans (validateText_eq _ _).symm⟩
  · rw [← hnames, Entries.names, List.length_map]
    rfl
  · rw [Report.diagnosticsTotal_eq, Report.sum_byRule]

/-- What is discovered at some paths is one list for each of them. -/
theorem CollectsAll.found_eq {paths : List Path} {found others : List (List Path)}
    (h : CollectsAll disk exclude paths found)
    (hothers : List.Forall₂
      (fun path documents => disk.discover path Config.default exclude = .ok documents)
      paths others) : found = others := by
  induction h generalizing others with
  | nil =>
    cases hothers
    rfl
  | cons hpath _ ih =>
    cases hothers with
    | cons hother hothers =>
      rw [Except.ok.inj (hpath.discover_eq.symm.trans hother), ih hothers]

/-- A path that leads to nothing new changes nothing. -/
theorem runValidate_append_of_subset (hdisk : disk.WellFormed) {paths : List Path}
    {found : List (List Path)} (h : CollectsAll disk exclude paths found) {path : Path}
    {documents : List Path} (hpath : Disk.Collects disk path Config.default exclude documents)
    (hsub : documents ⊆ found.flatten) (json : Bool) :
    runValidate disk (paths ++ [path]) json (some exclude) =
      runValidate disk paths json (some exclude) := by
  have hall : CollectsAll disk exclude (paths ++ [path]) (found ++ [documents]) :=
    List.rel_append h (.cons hpath .nil)
  have hsame : findingsOf disk (found ++ [documents]).flatten = findingsOf disk found.flatten := by
    rw [List.flatten_append, List.flatten_singleton, findingsOf, List.map_append]
    exact Entries.ofMembers_append_of_subset (List.map_subset _ hsub) (h.functional hdisk)
  rw [runValidate_of_collects hdisk hall, runValidate_of_collects hdisk h, hsame]

/-- Paths in another order are reported alike, but for the order of the documents. -/
theorem exists_report_of_perm (hdisk : disk.WellFormed) {paths others : List Path}
    {found : List (List Path)} (h : CollectsAll disk exclude paths found)
    (hperm : others.Perm paths) {found' : List (List Path)}
    (h' : CollectsAll disk exclude others found') (json : Bool) :
    ∃ r, runValidate disk others json (some exclude) = showReport disk json r ∧
      r.documents.Perm (findingsOf disk found.flatten) ∧
      r.byRule = Report.byRule ⟨findingsOf disk found.flatten⟩ ∧
      reportCode r = reportCode ⟨findingsOf disk found.flatten⟩ := by
  have hdocuments : (findingsOf disk found'.flatten).Perm (findingsOf disk found.flatten) :=
    Entries.ofMembers_perm ((h.perm hperm h').map _) (h'.functional hdisk)
  have hrules := Report.byRule_eq_of_perm hdocuments
  refine ⟨⟨findingsOf disk found'.flatten⟩, runValidate_of_collects hdisk h' json, hdocuments,
    hrules, ?_⟩
  rw [reportCode, reportCode, Report.diagnosticsTotal, Report.diagnosticsTotal, hrules]

/-- Paths that all lead somewhere are reported, and then one more path to the same documents changes
nothing, and another order only that of the documents. -/
theorem exists_report (hdisk : disk.WellFormed) {paths : List Path}
    (hthere : ∀ path ∈ paths, IsThere disk exclude path) (json : Bool) :
    ∃ found r, ReportsOn disk exclude paths found r ∧
      runValidate disk paths json (some exclude) = showReport disk json r ∧
      (∀ path documents, disk.look path ≠ .ok none →
        disk.discover path Config.default exclude = .ok documents →
        documents ⊆ found.flatten →
        runValidate disk (paths ++ [path]) json (some exclude) =
          runValidate disk paths json (some exclude)) ∧
      ∀ others, others.Perm paths → ∃ r',
        runValidate disk others json (some exclude) = showReport disk json r' ∧
        r'.documents.Perm r.documents ∧ r'.byRule = r.byRule ∧ reportCode r' = reportCode r := by
  obtain ⟨found, hfound⟩ := exists_collectsAll hdisk hthere
  refine ⟨found, _, hfound.reportsOn hdisk, runValidate_of_collects hdisk hfound json, ?_, ?_⟩
  · intro path documents hpath hdiscover hsub
    have hdocuments := Disk.collects_of_discover hdisk hpath hdiscover
      fun document hdocument => (hfound.of_mem (hsub hdocument)).2
    exact runValidate_append_of_subset hdisk hfound hdocuments hsub json
  · -- another order collects the same documents in another order
    intro others hperm
    obtain ⟨found', hfound'⟩ :=
      exists_collectsAll hdisk fun path hpath => hthere path (hperm.mem_iff.mp hpath)
    exact exists_report_of_perm hdisk hfound hperm hfound' json

/-- The first of some paths that leads nowhere ends a validation with an error. -/
theorem exists_runValidate_of_missing (hdisk : disk.WellFormed) {paths : List Path}
    (hreachable : ∀ path ∈ paths, IsReachable disk exclude path)
    (hmissing : ∃ path ∈ paths, disk.look path = .ok none) (json : Bool) :
    ∃ path ∈ paths, disk.look path = .ok none ∧
      runValidate disk paths json (some exclude) =
        failed disk (Disk.DocumentError.noRoot path).message := by
  obtain ⟨path, hpath, hlook⟩ := hmissing
  obtain ⟨before, first, after, rfl, hfirst, hbefore⟩ :=
    exists_first_missing hreachable hpath hlook
  obtain ⟨found, hfound⟩ := exists_collectsAll hdisk hbefore
  have hcollect : disk.collect first Config.default exclude = .error (.noRoot first) := by
    rw [Disk.collect, hfirst]
  exact ⟨first, by simp, hfirst, runValidate_of_stop hfound hcollect after json⟩

/-- A path that cannot be looked at ends a validation without an exit code, and the only reason is
that something there is too long. -/
theorem runValidate_of_fault (hdisk : disk.WellFormed) {before : List Path} {path : Path}
    {f : Disk.Fault} (hbefore : ∀ q ∈ before, IsThere disk exclude q)
    (hfault : disk.collect path Config.default exclude = .error (.fault f)) (after : List Path)
    (json : Bool) :
    f.IsTooLong ∧
      runValidate disk (before ++ path :: after) json (some exclude) = ⟨disk, [], .fault f⟩ := by
  obtain ⟨found, hfound⟩ := exists_collectsAll hdisk hbefore
  refine ⟨?_, runValidate_of_stop hfound hfault after json⟩
  -- of the three ways to collect a path only the last is a fault
  rcases Disk.collect_cases hdisk path Config.default exclude with ⟨_, hpath⟩ | ⟨-, hroot⟩ |
    ⟨f', hf', hfault'⟩
  · rw [hpath.collect_eq] at hfault
    cases hfault
  · rw [hroot] at hfault
    cases hfault
  · rw [hfault'] at hfault
    cases hfault
    exact hf'

/-- A validation of paths that can be looked at reports every document once, where it was discovered
first; one more path to the same documents changes nothing, and another order only that of the
documents.  If one of the paths leads nowhere, the first such path ends the validation with an
error, and nothing is printed.  A path that cannot be looked at since something there is too long
ends the validation without an exit code, unless one before it leads nowhere. -/
theorem validate_counts_once (disk : Disk) (hdisk : disk.WellFormed) (exclude : List Text)
    (json : Bool) :
    (∀ paths, (∀ path ∈ paths, IsReachable disk exclude path) →
      ((∀ path ∈ paths, disk.look path ≠ .ok none) → ∃ found r,
        ReportsOn disk exclude paths found r ∧
        runValidate disk paths json (some exclude) = showReport disk json r ∧
        (∀ path documents, disk.look path ≠ .ok none →
          disk.discover path Config.default exclude = .ok documents →
          documents ⊆ found.flatten →
          runValidate disk (paths ++ [path]) json (some exclude) =
            runValidate disk paths json (some exclude)) ∧
        ∀ others, others.Perm paths → ∃ r',
          runValidate disk others json (some exclude) = showReport disk json r' ∧
          r'.documents.Perm r.documents ∧ r'.byRule = r.byRule ∧ reportCode r' = reportCode r) ∧
      ((∃ path ∈ paths, disk.look path = .ok none) → ∃ path ∈ paths, disk.look path = .ok none ∧
        runValidate disk paths json (some exclude) =
          failed disk (Disk.DocumentError.noRoot path).message)) ∧
    ∀ before path after f, (∀ q ∈ before, IsThere disk exclude q) →
      disk.collect path Config.default exclude = .error (.fault f) →
      f.IsTooLong ∧
        runValidate disk (before ++ path :: after) json (some exclude) = ⟨disk, [], .fault f⟩ := by
  refine ⟨fun paths hreachable => ⟨fun hleads => ?_, fun hmissing => ?_⟩,
    fun before path after f hbefore hfault => runValidate_of_fault hdisk hbefore hfault after json⟩
  · exact exists_report hdisk (fun path hpath => ⟨hleads path hpath, hreachable path hpath⟩) json
  · exact exists_runValidate_of_missing hdisk hreachable hmissing json

/-! ## Section 4: Overlapping paths, and an overlong one -/

/-- A file, and the directory that holds it and another one. -/
def overlappingPaths : List Path := [Path.ofText "b.json", Path.ofText "."]

private theorem collectsAll_overlappingPaths :
    CollectsAll Disk.formsDisk [] overlappingPaths
      [[Disk.pathTo ["b.json"]], [Disk.pathTo ["a.json"], Disk.pathTo ["b.json"]]] := by
  refine .cons (Disk.collects_of_lookForFile Disk.wellFormed_formsDisk
    Disk.lookForFile_formsDisk_b (by decide) _ _) (.cons ?_ .nil)
  refine Disk.collects_of_discover Disk.wellFormed_formsDisk ?_ Disk.discover_formsDisk (by decide)
  rw [Disk.look_formsDisk]
  nofun

/-- Paths that were collected lead somewhere and can be looked at. -/
theorem CollectsAll.isReachable {paths : List Path} {found : List (List Path)}
    (h : CollectsAll disk exclude paths found) :
    ∀ path ∈ paths, IsReachable disk exclude path ∧ disk.look path ≠ .ok none := by
  induction h with
  | nil => nofun
  | cons hpath _ ih =>
    refine List.forall_mem_cons.mpr ⟨⟨fun f hf => ?_, hpath.leads⟩, ih⟩
    rw [hpath.collect_eq] at hf
    cases hf

/-- A file that is listed by itself and then found in its directory is reported once, and first;
the other file behind it, whichever path comes again. -/
theorem validate_counts_once_overlapping :
    ∃ r : Report, r.documents.names = ["/b.json", "/a.json"] ∧
      runValidate Disk.formsDisk overlappingPaths true (some []) =
        showReport Disk.formsDisk true r ∧
      runValidate Disk.formsDisk (overlappingPaths ++ [Path.ofText "a.json"]) true (some []) =
        showReport Disk.formsDisk true r := by
  have hall := collectsAll_overlappingPaths.isReachable
  obtain ⟨found, r, hreport, hrun, happend, -⟩ :=
    ((validate_counts_once Disk.formsDisk Disk.wellFormed_formsDisk [] true).1 overlappingPaths
      fun path hpath => (hall path hpath).1).1 fun path hpath => (hall path hpath).2
  -- discovery is a function, so that what the theorem found is what is listed here
  obtain rfl := collectsAll_overlappingPaths.found_eq hreport.discovered
  have hagain := Disk.collects_of_lookForFile Disk.wellFormed_formsDisk
    Disk.lookForFile_formsDisk_a (by decide) Config.default []
  refine ⟨r, hreport.names.trans (by decide), hrun, ?_⟩
  exact (happend _ _ hagain.leads hagain.discover_eq (by decide)).trans hrun

/-- A name with more letters than a name can have. -/
def overlongName : Text := List.replicate 256 (.scalar 'a')

/-- The system refuses the name before it looks whether there is such a file. -/
private theorem look_overlongName : Disk.formsDisk.look (Path.ofText overlongName) =
    .error (.nowhere .nameTooLong overlongName) := by
  -- the name is too long for a component, and not for a path
  have hpath : Path.ofText overlongName = ⟨0, [overlongName]⟩ := by decide +kernel
  have htext : Path.text ⟨0, [overlongName]⟩ = overlongName :=
    Text.join_append_cons "/" overlongName [] [] |>.trans (List.append_nil _)
  have hfollow : Disk.follow Disk.formsDisk.root Disk.maxLinks [] [overlongName] =
      .error .nameTooLong := by
    rw [Disk.follow, if_neg (by decide), if_neg (by decide), if_neg (by decide),
      if_pos (by decide +kernel)]
  have hlocate : Disk.formsDisk.locate ⟨0, [overlongName]⟩ = .error .nameTooLong := by
    rw [Disk.locate, htext, if_neg (by decide +kernel), if_neg (by decide +kernel), Disk.reach]
    exact congrArg (Except.map _) hfollow
  rw [hpath, Disk.look, hlocate, htext]
  rfl

private theorem look_missing : Disk.formsDisk.look (Path.ofText "missing.json") = .ok none := by
  -- the name itself is sound, and there is no such entry
  have hfollow : Disk.follow Disk.formsDisk.root Disk.maxLinks [] ["missing.json"] =
      .error .missing := by
    rw [Disk.follow, if_neg (by decide), if_neg (by decide), if_neg (by decide), if_neg (by decide)]
    rfl
  have hlocate : Disk.formsDisk.locate (Path.ofText "missing.json") = .error .missing := by
    rw [Disk.locate, if_neg (by decide), if_neg (by decide), Disk.reach]
    exact congrArg (Except.map _) hfollow
  rw [Disk.look, hlocate]
  rfl

/-- A path that does not exist and whose name is too long ends a validation without an exit code,
although another one that does not exist is given, too. -/
theorem overlong_not_reported :
    Disk.formsDisk.look (Path.ofText "missing.json") = .ok none ∧
      run Disk.formsDisk ["validate", overlongName, "missing.json"] =
        ⟨Disk.formsDisk, [], .fault (.nowhere .nameTooLong overlongName)⟩ := by
  refine ⟨look_missing, ?_⟩
  have hplain : ∀ t ∈ [overlongName, "missing.json"], IsPlain t :=
    List.forall_mem_cons.mpr ⟨isPlain_of_isWord (by decide),
      List.forall_mem_singleton.mpr (isPlain_of_isWord (by decide))⟩
  -- the path is refused before anything looks whether it is there
  have hcollect : Disk.formsDisk.collect (Path.ofText overlongName) Config.default [] =
      .error (.fault (.nowhere .nameTooLong overlongName)) := by
    rw [Disk.collect, look_overlongName]
  have hrun := run_validate Disk.formsDisk (List.cons_ne_nil _ _) hplain
    namesAreWords_nil namesAreWords_nil
  exact hrun.trans (runValidate_of_stop .nil hcollect _ _)

end FormSchema.CommandLine
