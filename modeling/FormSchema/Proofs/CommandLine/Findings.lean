import FormSchema.Proofs.CommandLine.Validation
import FormSchema.Proofs.Engine.KeyLines
import FormSchema.Proofs.Json.Messages

/-!
# Findings as lines

Without JSON output a validation prints its findings, each with its place, its severity, its message
and its rule.  A finding takes one line unless there is a line feed in its message, and there is one
only in the message about a key that differs from the name of its field: both are shown as they are.
So the output has one line for each finding exactly if no such name or key has a line feed.
-/

namespace FormSchema

open CodePoint (lineFeed)

/-! ## Section 1: The messages of the checks -/

/-- Whether a line feed is in what the message about the key of a field shows: in the name of the
field, or in its key if that is a string. -/
def Field.ShowsLineFeed (f : Field) : Prop :=
  lineFeed ∈ f.name ∨ ∃ key, f.props.get? "key" = some (.str key) ∧ lineFeed ∈ key

/-- The message about a key shows the name as it is and the key as messages show it. -/
private theorem Check.isOneLine_keyMessage_iff {f : Field} (h : keyConsistency.Breaks f) :
    (keyMessage f.name (f.prop "key")).IsOneLine ↔ ¬ f.ShowsLineFeed := by
  obtain ⟨key, hkey, -⟩ := h
  have hother : Text.IsOneLine "Keys should equal object names! Expected: \"" ∧
      Text.IsOneLine "\", Found: \"" ∧ Text.IsOneLine "\"" := by decide
  -- only the name and the key that are shown can bring a line feed
  have hmessage : (keyMessage f.name (f.prop "key")).IsOneLine ↔
      f.name.IsOneLine ∧ key.display.IsOneLine := by
    simp only [keyMessage, Field.prop_eq_of_get? hkey, Text.isOneLine_append, hother, true_and,
      and_true]
  rw [hmessage, Json.isOneLine_display_iff]
  simp only [Field.ShowsLineFeed, hkey, Option.some.injEq, not_or, not_exists, not_and,
    Text.IsOneLine]

/-- Only the message about a key shows texts of the document. -/
theorem Check.isOneLine_message_iff {check : Check} {f : Field} (h : check.Breaks f)
    (text : Text) : (check.diagnosis text f).message.IsOneLine ↔
      (check = .keyConsistency → ¬ f.ShowsLineFeed) := by
  -- three of the messages are made of fixed words
  cases check with
  | keyConsistency =>
    exact (isOneLine_keyMessage_iff h).trans ⟨fun hnot _ => hnot, fun hnot => hnot rfl⟩
  | requiredProperties =>
    refine iff_of_true (Text.isOneLine_append.mpr ⟨by decide, ?_⟩) nofun
    refine Text.isOneLine_join (by decide) fun name hname => ?_
    have hnames : ∀ name ∈ (["data_type", "key", "label"] : List Text), name.IsOneLine := by decide
    exact hnames name (List.mem_of_mem_filter hname)
  | dataType => exact iff_of_true (by decide : dataTypeMessage.IsOneLine) nofun
  | htmlEditor => exact iff_of_true (by decide : htmlEditorMessage.IsOneLine) nofun

/-! ## Section 2: The findings about a text -/

/-- Whether a text is a document on which keys are reported, with a field whose key differs from its
name, and a line feed is in what is shown of the two. -/
def BreaksLine (text : Text) : Prop :=
  ∃ root, Json.parse text = .ok (.obj root) ∧ Check.keyConsistency.Completes root ∧
    ∃ f ∈ Container.preorder root, Check.keyConsistency.Breaks f ∧ f.ShowsLineFeed

private theorem Verdict.isOneLine_iff {text : Text} {found : List Diagnostic}
    (h : Verdict text found) :
    (∀ d ∈ found, d.message.IsOneLine) ↔ ¬ BreaksLine text := by
  have hverdict := h
  -- without an object at the root no name is shown, and the message is one line
  cases h with
  | notJson fault hp =>
    refine iff_of_true (List.forall_mem_singleton.mpr ?_) fun ⟨root, hroot, _⟩ => ?_
    · exact Text.isOneLine_append.mpr ⟨by decide, Json.isOneLine_message hp⟩
    · cases hp.symm.trans hroot
  | notObject value hp hne =>
    refine iff_of_true (List.forall_mem_singleton.mpr ?_) fun ⟨root, hroot, _⟩ => ?_
    · exact Text.isOneLine_append.mpr ⟨by decide, value.isOneLine_kindName⟩
    · exact hne root (Except.ok.inj (hp.symm.trans hroot))
  | document root hp | keysSkipped root hp =>
    constructor
    · rintro hall ⟨other, hother, hcompletes, f, hf, hbreaks, hshows⟩
      cases hp.symm.trans hother
      have hd := hall _ ((hverdict.mem_iff hp).mpr ⟨_, hcompletes, f, hf, hbreaks, rfl⟩)
      exact (Check.isOneLine_message_iff hbreaks text).mp hd rfl hshows
    · intro hnone d hd
      obtain ⟨check, hcompletes, f, hf, hbreaks, rfl⟩ := (hverdict.mem_iff hp).mp hd
      refine (Check.isOneLine_message_iff hbreaks text).mpr ?_
      rintro rfl hshows
      exact hnone ⟨root, hp, hcompletes, f, hf, hbreaks, hshows⟩

private theorem Verdict.isOneLine_ruleId {text : Text} {found : List Diagnostic}
    (h : Verdict text found)
    {d : Diagnostic} (hd : d ∈ found) : d.ruleId.IsOneLine := by
  obtain ⟨range, message, rule, rfl⟩ := h.exists_eq_error hd
  show rule.id.IsOneLine
  cases rule <;> decide

/-! ## Section 3: Lines -/

/-- The findings of a report in order, each with the address of its document. -/
def Report.listed (r : Report) : List (Text × Diagnostic) :=
  r.documents.flatMap fun document => document.2.map fun d => (document.1, d)

private theorem Report.length_listed (r : Report) : r.listed.length = r.diagnosticsTotal := by
  rw [diagnosticsTotal_eq, sum_byRule, listed, List.length_flatMap]
  simp only [List.length_map]

namespace CommandLine

/-- A finding as it is printed, without the end of its line. -/
def findingText (e : Text × Diagnostic) : Text :=
  e.1 ++ ":" ++ Text.ofInt (e.2.range.start.line + 1) ++ ":" ++
    Text.ofInt (e.2.range.start.character + 1) ++ ": " ++ e.2.severity.word ++ ": " ++
    e.2.message ++ " [" ++ e.2.ruleId ++ "]"

private theorem findingLines_eq (r : Report) :
    findingLines r = (r.listed.map findingText).flatMap asLine := by
  rw [findingLines, Report.listed, List.map_flatMap, List.flatMap_assoc]
  refine List.flatMap_congr fun document _ => ?_
  rw [List.map_map, List.flatMap_map]
  rfl

private theorem isOneLine_of_names {r : Report} {names : List Text} (h : r.documents.names = names)
    (hnames : ∀ name ∈ names, name.IsOneLine) :
    ∀ document ∈ r.documents, document.1.IsOneLine :=
  fun _ hdocument => hnames _ (h ▸ List.mem_map_of_mem hdocument)

/-- A finding is printed on one line exactly if its message has no line feed. -/
private theorem isOneLine_findingText_iff {e : Text × Diagnostic} (huri : e.1.IsOneLine)
    (hid : e.2.ruleId.IsOneLine) : (findingText e).IsOneLine ↔ e.2.message.IsOneLine := by
  have hword : e.2.severity.word.IsOneLine := by cases e.2.severity <;> decide
  have hother : Text.IsOneLine ":" ∧ Text.IsOneLine ": " ∧ Text.IsOneLine " [" ∧
      Text.IsOneLine "]" := by decide
  simp only [findingText, Text.isOneLine_append, Text.isOneLine_ofInt, huri, hid, hword, hother,
    true_and, and_true]

/-- Texts each put on a line of its own have one line each if they are on one line themselves. -/
theorem lines_flatMap_asLine {ts : List Text} (h : ∀ t ∈ ts, Text.IsOneLine t) :
    Text.lines (ts.flatMap asLine) = ts ++ [[]] := by
  -- each text ends its line, and behind the last one an empty line begins
  induction ts with
  | nil => rfl
  | cons t ts ih =>
    obtain ⟨ht, hts⟩ := List.forall_mem_cons.mp h
    rw [List.flatMap_cons, asLine, List.append_assoc, List.singleton_append,
      Text.lines_append_cons, ih hts, Text.lines, Text.split_of_not_mem ht]
    rfl

/-- Texts that are put on a line of their own have too many lines if one of them has a line feed. -/
theorem count_flatMap_asLine (ts : List Text) :
    (ts.flatMap asLine).count lineFeed = ts.length + (ts.map (List.count lineFeed)).sum := by
  -- one line feed that ends each text, and those inside
  induction ts with
  | nil => rfl
  | cons t ts ih =>
    rw [List.flatMap_cons, asLine, List.count_append, List.count_append, ih, List.length_cons,
      List.map_cons, List.sum_cons, List.count_singleton_self]
    omega

/-- There are as many lines as texts exactly if no text has a line feed of its own. -/
private theorem count_flatMap_asLine_eq_iff {ts : List Text} :
    (ts.flatMap asLine).count lineFeed = ts.length ↔ ∀ t ∈ ts, Text.IsOneLine t := by
  rw [count_flatMap_asLine, Nat.add_eq_left, List.sum_eq_zero_iff_forall_eq_nat,
    List.forall_mem_map]
  exact forall₂_congr fun t _ => List.count_eq_zero

/-! ## Section 4: What a validation prints -/

variable {disk : Disk} {exclude : List Text}

private theorem mem_findingsOf (hdisk : disk.WellFormed) {paths : List Path}
    {found : List (List Path)}
    (h : CollectsAll disk exclude paths found) {path : Path} (hpath : path ∈ found.flatten) :
    disk.documentAt path ∈ findingsOf disk found.flatten :=
  Entries.mem_of_get? ((Entries.get?_ofMembers_eq_some_iff (h.functional hdisk)).mpr
    (List.mem_map_of_mem hpath))

/-- The findings about a document that paths lead to are the verdict on the text of its file. -/
theorem CollectsAll.verdict (hdisk : disk.WellFormed) {paths : List Path}
    {found : List (List Path)} (h : CollectsAll disk exclude paths found) {path : Path}
    (hpath : path ∈ found.flatten) : ∃ place content,
      disk.lookForFile path = .ok (some (place, content)) ∧
        Verdict (Disk.textOf content) (disk.findingsAt path) := by
  obtain ⟨hfile, hshort⟩ := h.of_mem hpath
  obtain ⟨-, place, content, hlook, hfindings⟩ := hfile.validateFile_of_short hdisk hshort
  exact ⟨place, content, hlook, hfindings ▸ verdict_diagnose_defaults _⟩

private theorem CollectsAll.isThere {paths : List Path} {found : List (List Path)}
    (h : CollectsAll disk exclude paths found) : ∀ path ∈ paths, IsThere disk exclude path :=
  fun path hpath => ⟨(h.isReachable path hpath).2, (h.isReachable path hpath).1⟩

private theorem mem_listed_findingsOf {documents : List Path} {e : Text × Diagnostic}
    (h : e ∈ Report.listed ⟨findingsOf disk documents⟩) :
    ∃ path ∈ documents, path.text = e.1 ∧ e.2 ∈ disk.findingsAt path := by
  obtain ⟨document, hdocument, he⟩ := List.mem_flatMap.mp h
  obtain ⟨path, hpath, rfl⟩ := exists_document_of_mem hdocument
  obtain ⟨d, hd, rfl⟩ := List.mem_map.mp he
  exact ⟨path, hpath, rfl, hd⟩

/-- Whether none of some documents breaks a line. -/
def KeepLines (disk : Disk) (documents : List Path) : Prop :=
  ∀ path ∈ documents, ∀ place content,
    disk.lookForFile path = .ok (some (place, content)) → ¬ BreaksLine (Disk.textOf content)

/-- All messages of a validation are on one line exactly if no document that it comes upon breaks
one. -/
theorem CollectsAll.isOneLine_iff (hdisk : disk.WellFormed) {paths : List Path}
    {found : List (List Path)} (h : CollectsAll disk exclude paths found) :
    (∀ e ∈ Report.listed ⟨findingsOf disk found.flatten⟩, e.2.message.IsOneLine) ↔
      KeepLines disk found.flatten := by
  constructor
  · -- each listed finding belongs to a path, and each path has its verdict
    intro hall path hpath place content hlook
    obtain ⟨place', content', hlook', hverdict⟩ := h.verdict hdisk hpath
    cases hlook.symm.trans hlook'
    refine hverdict.isOneLine_iff.mp fun d hd => hall (path.text, d) ?_
    exact List.mem_flatMap.mpr ⟨_, mem_findingsOf hdisk h hpath, List.mem_map_of_mem hd⟩
  · intro hnone e he
    obtain ⟨path, hpath, -, hd⟩ := mem_listed_findingsOf he
    obtain ⟨place, content, hlook, hverdict⟩ := h.verdict hdisk hpath
    exact hverdict.isOneLine_iff.mpr (hnone path hpath place content hlook) _ hd

/-- The findings keep their lines exactly if no text of a document breaks one. -/
private theorem CollectsAll.isOneLine_findingText_iff (hdisk : disk.WellFormed) {paths : List Path}
    {found : List (List Path)} (h : CollectsAll disk exclude paths found)
    (huris : ∀ document ∈ findingsOf disk found.flatten, document.1.IsOneLine) :
    (∀ t ∈ (Report.listed ⟨findingsOf disk found.flatten⟩).map findingText, t.IsOneLine) ↔
      KeepLines disk found.flatten := by
  rw [List.forall_mem_map, ← h.isOneLine_iff hdisk]
  refine forall₂_congr fun e he => ?_
  obtain ⟨path, hpath, huri, hd⟩ := mem_listed_findingsOf he
  obtain ⟨place, content, -, hverdict⟩ := h.verdict hdisk hpath
  have huri' := huris _ (mem_findingsOf hdisk h hpath)
  exact CommandLine.isOneLine_findingText_iff (huri ▸ huri') (hverdict.isOneLine_ruleId hd)

/-- A validation that is asked for without JSON output, of paths that lead somewhere and can be
looked at, prints its findings in the order of the report.  Where no document has an address with a
line feed, the output has as many lines as there are findings exactly if no document on which keys
are reported has a field whose key differs from its name and a line feed in what is shown of the
two; and then the lines are the findings, and nothing follows the last of them. -/
theorem validate_prints_findings (disk : Disk) (hdisk : disk.WellFormed) (exclude : List Text)
    (arguments : List Text) (paths : List Path) (verbose : Bool)
    (hrequest : Invocation.ofArguments arguments =
      .ok ⟨some (.validate paths false (some exclude)), verbose⟩)
    (hthere : ∀ path ∈ paths, IsThere disk exclude path) :
    ∃ found r, ReportsOn disk exclude paths found r ∧
      run disk arguments =
        ⟨disk, findingLines r, .exit (reportCode r) (.lineFeed :: totalsLine r)⟩ ∧
      ((∀ document ∈ r.documents, document.1.IsOneLine) →
        ((findingLines r).count lineFeed = r.diagnosticsTotal ↔ KeepLines disk found.flatten) ∧
        ((findingLines r).lines = r.listed.map findingText ++ [[]] ↔
          (findingLines r).count lineFeed = r.diagnosticsTotal)) := by
  obtain ⟨found, hfound⟩ := exists_collectsAll hdisk hthere
  refine ⟨found, _, hfound.reportsOn hdisk, ?_, fun huris => ?_⟩
  · exact (run_of_ofArguments disk hrequest).trans (runValidate_of_collects hdisk hfound false)
  -- as many line feeds as findings: each finding is on a line of its own
  have hcount : (findingLines ⟨findingsOf disk found.flatten⟩).count lineFeed =
      Report.diagnosticsTotal ⟨findingsOf disk found.flatten⟩ ↔
        ∀ t ∈ (Report.listed ⟨findingsOf disk found.flatten⟩).map findingText, t.IsOneLine := by
    rw [findingLines_eq, ← Report.length_listed, ← count_flatMap_asLine_eq_iff, List.length_map]
  refine ⟨hcount.trans (hfound.isOneLine_findingText_iff hdisk huris), fun hlines => ?_,
    fun h => ?_⟩
  · -- there is one line more than there are line feeds
    have hlength := congrArg List.length hlines
    rw [Text.length_lines, List.length_append, List.length_map, Report.length_listed] at hlength
    exact Nat.succ.inj hlength
  · rw [findingLines_eq]
    exact lines_flatMap_asLine (hcount.mp h)

/-! ## Section 5: A name with a line feed -/

/-- A field whose key is not its name, and whose name has a line feed. -/
def foldedField : Field :=
  ⟨"a\nb", [("data_type", .str "text"), ("key", .str "q"), ("label", .str "x")]⟩

/-- A document with this field; the line feed is written as an escape. -/
def foldedText : Text :=
  "\x7b\"a\\nb\": \x7b\"data_type\": \"text\", \"key\": \"q\", \"label\": \"x\"\x7d\x7d"

/-- A disk with this document. -/
def foldedDisk : Disk := ⟨.directory [("w.json", .file (Utf8.encode foldedText))], []⟩

private theorem parse_foldedText : Json.parse foldedText = .ok foldedField.document :=
  Json.parse_print_canonicalStyle foldedField.document none (by decide) (by decide) (by decide)

private theorem diagnose_foldedText : diagnose Pass.defaults foldedText =
    [Check.keyConsistency.diagnosis foldedText foldedField] := by
  rw [diagnose_of_depth_lt parse_foldedText (by decide)]
  simp only [Check.all, List.flatMap_cons, List.flatMap_nil, List.append_nil, Check.reports,
    preorder_document (f := foldedField) rfl]
  decide

private theorem wellFormed_foldedDisk : foldedDisk.WellFormed :=
  .directory (by decide) (by decide) (List.forall_mem_singleton.mpr (.file _))

private theorem lookForFile_foldedDisk : foldedDisk.lookForFile (Path.ofText "w.json") =
    .ok (some (["w.json"], Utf8.encode foldedText)) :=
  (Disk.lookForFile_of_at? wellFormed_foldedDisk (by decide) rfl).trans (if_neg (by decide))

private theorem collectsAll_foldedDisk :
    CollectsAll foldedDisk [] [Path.ofText "w.json"] [[Disk.pathTo ["w.json"]]] :=
  .cons (Disk.collects_of_lookForFile wellFormed_foldedDisk lookForFile_foldedDisk (by decide) _ _)
    .nil

private theorem lookForFile_foldedDisk_absolute : foldedDisk.lookForFile (Disk.pathTo ["w.json"]) =
    .ok (some (["w.json"], Utf8.encode foldedText)) :=
  (Disk.lookForFile_pathTo wellFormed_foldedDisk rfl).trans (if_neg (by decide))

/-- The report on it. -/
def foldedReport : Report :=
  ⟨[("/w.json", [Check.keyConsistency.diagnosis foldedText foldedField])]⟩

private theorem findingsOf_foldedDisk :
    findingsOf foldedDisk [Disk.pathTo ["w.json"]] = foldedReport.documents := by
  -- the file is read, and the finding on its text is known
  have hvalidate : foldedDisk.validateFile (Disk.pathTo ["w.json"]) =
      .ok [Check.keyConsistency.diagnosis foldedText foldedField] := by
    rw [Disk.validateFile, lookForFile_foldedDisk_absolute]
    exact congrArg Except.ok ((validateText_eq _ _).trans diagnose_foldedText)
  rw [findingsOf, List.map_singleton, Disk.documentAt, Disk.findingsAt, hvalidate]
  rfl

private theorem diagnosticsTotal_foldedReport : foldedReport.diagnosticsTotal = 1 := by
  rw [Report.diagnosticsTotal_eq, Report.sum_byRule]
  rfl

private theorem ofArguments_validate_word {t : Text} (ht : IsWord t) :
    Invocation.ofArguments ["validate", t] =
      .ok ⟨some (.validate [Path.ofText t] false (some [])), false⟩ :=
  ofArguments_validate (List.cons_ne_nil _ _) (List.forall_mem_singleton.mpr (isPlain_of_isWord ht))
    namesAreWords_nil namesAreWords_nil

/-- The name is printed as it is, so that the one finding takes two lines. -/
theorem name_splits_line :
    foldedReport.diagnosticsTotal = 1 ∧
      run foldedDisk ["validate", "w.json"] = ⟨foldedDisk, findingLines foldedReport,
        .exit .violation "\n1 diagnostic(s) in 1 document(s)\n"⟩ ∧
      Text.lines (findingLines foldedReport) =
        ([Text.ofString "/w.json:1:39: error: Keys should equal object names! Expected: \"a",
          Text.ofString "b\", Found: \"q\" [WS_KEY_MISMATCH_001]", []] : List Text) := by
  refine ⟨diagnosticsTotal_foldedReport, ?_, rfl⟩
  -- both lines are computed from the report, which has the one finding
  have hrun := (run_of_ofArguments foldedDisk (ofArguments_validate_word (by decide))).trans
    (runValidate_of_collects wellFormed_foldedDisk collectsAll_foldedDisk false)
  rw [List.flatten_singleton, findingsOf_foldedDisk] at hrun
  refine hrun.trans ?_
  show (⟨foldedDisk, findingLines foldedReport,
    .exit (reportCode foldedReport) (.lineFeed :: totalsLine foldedReport)⟩ : Outcome) = _
  rw [reportCode, totalsLine, diagnosticsTotal_foldedReport]
  rfl

private theorem breaksLine_foldedText : BreaksLine foldedText := by
  have hcompletes := Check.completes_of_depth_lt (Json.readable_of_parse parse_foldedText)
    (by decide) .keyConsistency
  refine ⟨_, parse_foldedText, hcompletes, foldedField, ?_, by decide, .inl (by decide)⟩
  rw [preorder_document rfl]
  exact List.mem_singleton_self foldedField

/-- The finding about a document that is no object has a line of its own, and the one about a name
with a line feed has not. -/
theorem validate_prints_findings_of_forms :
    (∃ r : Report, r.documents.names = (["/b.json"] : List Text) ∧
      (run Disk.formsDisk ["validate", "b.json"]).output.lines =
        r.listed.map findingText ++ [[]]) ∧
      ∃ r : Report, r.documents.names = (["/w.json"] : List Text) ∧
        (run foldedDisk ["validate", "w.json"]).output.count lineFeed ≠ r.diagnosticsTotal := by
  constructor
  · have hcollects : CollectsAll Disk.formsDisk [] [Path.ofText "b.json"]
        [[Disk.pathTo ["b.json"]]] :=
      .cons (Disk.collects_of_lookForFile Disk.wellFormed_formsDisk Disk.lookForFile_formsDisk_b
        (by decide) _ _) .nil
    obtain ⟨found, r, hreport, hrun, hlines⟩ := validate_prints_findings Disk.formsDisk
      Disk.wellFormed_formsDisk [] ["validate", "b.json"] [Path.ofText "b.json"] false
      (ofArguments_validate_word (by decide)) hcollects.isThere
    obtain rfl := hcollects.found_eq hreport.discovered
    have hnames : r.documents.names = (["/b.json"] : List Text) := hreport.names.trans (by decide)
    obtain ⟨hcount, hsame⟩ := hlines (isOneLine_of_names hnames (by decide))
    refine ⟨r, hnames, hrun ▸ hsame.mpr (hcount.mpr fun path hpath place content hlook => ?_)⟩
    obtain rfl := List.mem_singleton.mp hpath
    cases hlook.symm.trans
      ((Disk.lookForFile_pathTo Disk.wellFormed_formsDisk rfl).trans (if_neg (by decide)))
    -- the text is no object, so that no key is reported
    rintro ⟨root, hroot, -⟩
    have hparse : Json.parse (Disk.textOf (Utf8.encode "[]")) = .ok (.arr []) := rfl
    cases hparse.symm.trans hroot
  · obtain ⟨found, r, hreport, hrun, hlines⟩ := validate_prints_findings foldedDisk
      wellFormed_foldedDisk [] ["validate", "w.json"] [Path.ofText "w.json"] false
      (ofArguments_validate_word (by decide)) collectsAll_foldedDisk.isThere
    obtain rfl := collectsAll_foldedDisk.found_eq hreport.discovered
    have hnames : r.documents.names = (["/w.json"] : List Text) := hreport.names.trans (by decide)
    refine ⟨r, hnames, fun hcount => ?_⟩
    rw [hrun] at hcount
    exact (hlines (isOneLine_of_names hnames (by decide))).1.mp hcount _ (List.mem_singleton_self _)
      _ _ lookForFile_foldedDisk_absolute breaksLine_foldedText

end CommandLine

end FormSchema
