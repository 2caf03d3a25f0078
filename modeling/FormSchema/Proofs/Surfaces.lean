import FormSchema.Proofs.CommandLine.Validation
import FormSchema.Proofs.Engine.Bounds
import FormSchema.Proofs.Engine.Publication
import FormSchema.Proofs.Outline
import FormSchema.Proofs.Service.Validation
import FormSchema.Proofs.Text.LineEnds

/-!
# The surfaces agree

The command line, the service and the engine of an editor carry the same findings to different
places.  The command line reads files, builds a report and prints it as JSON; the service answers a
request that holds the text; the engine puts the findings under the address of the document.  From
each of them the findings about a text come back as validation of the text gives them.
-/

namespace FormSchema

/-! ## Section 1: Reports are read back -/

section ReadBack

variable {room : Nat}

private theorem Json.readBack_int_of_lt {n : Int} (h : n.natAbs < 10 ^ maxIntegerDigits) :
    (int n).ReadBack room :=
  readBack_scalar rfl rfl h trivial trivial

private theorem Json.readBack_record {es : Entries Json} (names : List Text)
    (hnames : es.names = names)
    (hd : names.Nodup) (h : ∀ e ∈ es, e.2.ReadBack room) : (obj es).ReadBack (room + 1) :=
  readBack_obj (show es.names.Nodup from hnames ▸ hd) h

private theorem Position.readBack_toJson {p : Position}
    (hline : p.line.natAbs < 10 ^ Json.maxIntegerDigits)
    (hcharacter : p.character.natAbs < 10 ^ Json.maxIntegerDigits) :
    p.toJson.ReadBack (room + 1) := by
  refine Json.readBack_record ["line", "character"] rfl (by decide)
    (List.forall_mem_cons.mpr ⟨?_, ?_⟩)
  · exact Json.readBack_int_of_lt hline
  · exact List.forall_mem_singleton.mpr (Json.readBack_int_of_lt hcharacter)

private theorem Range.readBack_toJson {r : Range}
    (h : ∀ n ∈ r.coordinates, n.natAbs < 10 ^ Json.maxIntegerDigits) :
    r.toJson.ReadBack (room + 2) := by
  simp only [coordinates, List.forall_mem_cons] at h
  refine Json.readBack_record ["start", "end"] rfl (by decide)
    (List.forall_mem_cons.mpr ⟨?_, ?_⟩)
  · exact Position.readBack_toJson h.1 h.2.1
  · exact List.forall_mem_singleton.mpr (Position.readBack_toJson h.2.2.1 h.2.2.2.1)

/-- A diagnostic is read back if its coordinates are numbers of no more digits than are read. -/
private theorem Diagnostic.readBack_toJson {d : Diagnostic}
    (h : ∀ n ∈ d.range.coordinates, n.natAbs < 10 ^ Json.maxIntegerDigits) :
    d.toJson.ReadBack (room + 3) := by
  refine Json.readBack_record ["range", "message", "severity", "rule_id", "source"] rfl
    (by decide) ?_
  simp only [List.forall_mem_cons, List.not_mem_nil, false_imp_iff, implies_true, and_true]
  exact ⟨Range.readBack_toJson h, Json.readBack_str _, Json.readBack_str _, Json.readBack_str _,
    Json.readBack_str _⟩

namespace Report

/-- A document with the findings about it, as a report lists it. -/
def documentJson (document : Text × List Diagnostic) : Json :=
  .obj [("uri", .str document.1), ("diagnostics", .arr (document.2.map (·.toJson)))]

/-- The numbers in a report have no more digits than are read. -/
structure FitsDigits (r : Report) : Prop where
  documentsTotal : r.documentsTotal < 10 ^ Json.maxIntegerDigits
  diagnosticsTotal : r.diagnosticsTotal < 10 ^ Json.maxIntegerDigits
  coordinates : ∀ document ∈ r.documents, ∀ d ∈ document.2, ∀ n ∈ d.range.coordinates,
    n.natAbs < 10 ^ Json.maxIntegerDigits

private theorem readBack_byRule {r : Report} (h : r.diagnosticsTotal < 10 ^ Json.maxIntegerDigits) :
    (Json.obj (r.byRule.map fun e => (e.1, .int e.2))).ReadBack (room + 1) := by
  refine Json.readBack_obj ?_ (List.forall_mem_map.mpr fun e he => ?_)
  · rw [Entries.Distinct, Entries.names, List.map_map]
    exact map_fst_byRule ▸ nodup_ruleIds
  · -- no count is greater than their sum
    have hle : e.2 ≤ r.diagnosticsTotal := by
      rw [diagnosticsTotal_eq]
      exact List.single_le_sum (fun _ _ => Nat.zero_le _) _ (List.mem_map_of_mem he)
    exact Json.readBack_int_of_lt (hle.trans_lt h)

/-- A report whose numbers fit is read back, since it is nested only a few levels deep. -/
theorem FitsDigits.readBack {r : Report} (h : r.FitsDigits) : r.toJson.ReadBack (room + 7) := by
  -- two levels of names, and below them the seven levels of the report are used up
  have hdocuments : ∀ document ∈ r.documents, (documentJson document).ReadBack (room + 5) := by
    intro document hdocument
    refine Json.readBack_record ["uri", "diagnostics"] rfl (by decide)
      (List.forall_mem_cons.mpr ⟨Json.readBack_str _, List.forall_mem_singleton.mpr ?_⟩)
    refine Json.readBack_arr (List.forall_mem_map.mpr fun d hd => ?_)
    exact Diagnostic.readBack_toJson (h.coordinates document hdocument d hd)
  refine Json.readBack_record ["schema_version", "tool_version", "documents", "summary"] rfl
    (by decide) ?_
  simp only [List.forall_mem_cons, List.not_mem_nil, false_imp_iff, implies_true, and_true]
  refine ⟨Json.readBack_str _, Json.readBack_str _, ?_, Json.readBack_record
    ["documents_total", "diagnostics_total", "by_rule"] rfl (by decide) ?_⟩
  · exact Json.readBack_arr (List.forall_mem_map.mpr hdocuments)
  · simp only [List.forall_mem_cons, List.not_mem_nil, false_imp_iff, implies_true, and_true]
    exact ⟨Json.readBack_int_of_lt h.documentsTotal, Json.readBack_int_of_lt h.diagnosticsTotal,
      readBack_byRule h.diagnosticsTotal⟩

end Report

end ReadBack

/-- A text that is read as an object with a list of some documents, each with its findings; the
entries of an object may come in any order. -/
def ShowsDocuments (output : Text) (documents : List (Text × List Diagnostic)) : Prop :=
  ∃ es shown, Json.parse output = .ok (.obj es) ∧ Entries.get? "documents" es = some (.arr shown) ∧
    List.Forall₂ Json.Agree (documents.map Report.documentJson) shown

private theorem Json.Agree.forall₂ {us vs : List Json} (h : Agree (.arr us) (.arr vs)) :
    List.Forall₂ Agree us vs := by
  cases h with
  | arr hlength h =>
    refine List.forall₂_iff_get.mpr ⟨hlength, fun i hu hv => ?_⟩
    exact h i _ _ (List.getElem?_eq_getElem hu) (List.getElem?_eq_getElem hv)

/-- The layout of a report is what is written of it: nothing in it is nested too deeply. -/
theorem Report.FitsDigits.dump_eq {r : Report} (h : r.FitsDigits) (indent : Option Nat) :
    r.toJson.dump indent = .ok (r.toJson.canonical indent) := by
  have hread : r.toJson.ReadBack 7 := h.readBack
  exact Json.dump_of_fits (hread.mono (by decide)).fits indent

private theorem Report.FitsDigits.showsDocuments {r : Report} (h : r.FitsDigits)
    (indent : Option Nat) :
    ShowsDocuments (r.toJson.canonical indent) r.documents := by
  -- the report is nested a few levels only, so that it is read whatever it reports
  have hread : r.toJson.ReadBack Json.maxDepth := h.readBack
  have hparse := Json.parse_of_readBack hread indent
  have hagree := Json.agree_sortNames hread.distinct
  rw [Report.toJson, Json.sortNames_obj] at hagree
  rw [Report.toJson, Json.sortNames_obj, ← Report.toJson] at hparse
  rcases hagree.get? "documents" with ⟨hnone, -⟩ | ⟨u, v, hu, hv, huv⟩
  · cases hnone
  · cases hu
    cases huv with
    | arr hlength hitems => exact ⟨_, _, hparse, hv, (Json.Agree.arr hlength hitems).forall₂⟩

/-! ## Section 2: Files that arguments name -/

/-- A file as a run meets it: the argument that names it, the place to which that leads, the octets
that stand there, and their text. -/
structure NamedFile where
  argument : Text
  place : List Text
  content : Octets
  text : Text

namespace NamedFile

/-- The absolute path of a file, without links. -/
def path (f : NamedFile) : Path := Disk.pathTo f.place

/-- The address under which a file is reported. -/
def uri (f : NamedFile) : Text := f.path.text

/-- What validation finds in the text of a file. -/
def found (f : NamedFile) : List Diagnostic := validateText f.uri f.text

/-- A file can be read, and what is found in it can be shown: the argument is read as a path and
leads to the file, as its absolute path does; the content is UTF-8 without carriage returns, and no
message about it holds surrogates. -/
structure IsReadable (disk : Disk) (f : NamedFile) : Prop where
  isPlain : CommandLine.IsPlain f.argument
  leads : disk.lookForFile (Path.ofText f.argument) = .ok (some (f.place, f.content))
  opens : disk.lookForFile f.path = .ok (some (f.place, f.content))
  decodes : Utf8.decode f.content = .ok f.text
  lineFeeds : CodePoint.carriageReturn ∉ f.text
  messages : ∀ d ∈ f.found, Utf8.unencodable? d.message = none

/-- What is found in a file is what validation finds in its text. -/
theorem found_eq (f : NamedFile) : f.found = diagnose Pass.defaults f.text :=
  validateText_eq f.uri f.text

/-- What is found in a file is the verdict on its text. -/
theorem verdict (f : NamedFile) : Verdict f.text f.found :=
  f.found_eq ▸ verdict_diagnose_defaults f.text

variable {disk : Disk} {f : NamedFile}

private theorem IsReadable.textOf_content (h : f.IsReadable disk) :
    Disk.textOf f.content = f.text := by
  rw [Disk.textOf, Utf8.decodeLossy_of_decode h.decodes, Text.unifyLineEnds_of_not_mem h.lineFeeds]

/-- A file that is readable stands in its place. -/
theorem IsReadable.at? (h : f.IsReadable disk) :
    disk.root.at? f.place = some (.file f.content) :=
  Disk.at?_of_lookForFile h.leads

private theorem IsReadable.isOverlong_uri (h : f.IsReadable disk) (hdisk : disk.WellFormed) :
    Disk.isOverlong f.uri = false := by
  have hopens := h.opens
  rw [path, Disk.lookForFile_pathTo hdisk h.at?] at hopens
  split at hopens
  · cases hopens
  · next hshort => exact Bool.eq_false_iff.mpr hshort

private theorem IsReadable.documentAt_path (h : f.IsReadable disk) :
    disk.documentAt f.path = (f.uri, f.found) := by
  have hvalidate : disk.validateFile f.path = .ok f.found := by
    rw [Disk.validateFile, h.opens]
    exact congrArg (fun text => Except.ok (validateText f.uri text)) h.textOf_content
  rw [Disk.documentAt, Disk.findingsAt, hvalidate]
  rfl

end NamedFile

section Run

variable {disk : Disk} {files : List NamedFile} (hdisk : disk.WellFormed)
  (hfiles : ∀ f ∈ files, f.IsReadable disk)

include hdisk hfiles

private theorem collectsAll_files :
    CommandLine.CollectsAll disk [] (files.map fun f => Path.ofText f.argument)
      (files.map fun f => [f.path]) := by
  rw [CommandLine.CollectsAll, List.forall₂_map_left_iff, List.forall₂_map_right_iff]
  refine List.forall₂_same.mpr fun f hf => ?_
  have hshort := (hfiles f hf).isOverlong_uri hdisk
  exact Disk.collects_of_lookForFile hdisk (hfiles f hf).leads hshort _ _

/-- Different files have different addresses, so that each has its own entry in a report. -/
theorem findingsOf_files (hdistinct : (files.map NamedFile.place).Nodup) :
    CommandLine.findingsOf disk (files.map fun f => [f.path]).flatten =
      files.map fun f => (f.uri, f.found) := by
  have hflatten : (files.map fun f => [f.path]).flatten = files.map NamedFile.path := by
    rw [← List.flatMap_def, ← List.map_eq_flatMap]
  have hdocuments : files.map (fun f => disk.documentAt f.path) =
      files.map fun f => (f.uri, f.found) :=
    List.map_congr_left fun f hf => (hfiles f hf).documentAt_path
  -- distinct places have distinct paths, so that no file replaces another one
  have hnames : Entries.Distinct (files.map fun f => (f.uri, f.found)) := by
    have hname : ∀ place ∈ files.map NamedFile.place, ∀ t ∈ place, Disk.IsName t :=
      List.forall_mem_map.mpr fun f hf => (hdisk.of_at? (hfiles f hf).at?).1
    have huris := hdistinct.map_on fun place hplace other hother heq =>
      Disk.pathTo_injective (hname place hplace) (hname other hother) heq
    rw [List.map_map] at huris
    rw [Entries.Distinct, Entries.names, List.map_map]
    exact huris
  rw [CommandLine.findingsOf, hflatten, List.map_map]
  exact (congrArg Entries.ofMembers hdocuments).trans (Entries.ofMembers_of_distinct hnames)

/-- Files that arguments name are reported in order, each with what is found in its text. -/
theorem run_files (hne : files ≠ []) (hdistinct : (files.map NamedFile.place).Nodup) :
    CommandLine.run disk ("validate" :: (files.map NamedFile.argument ++ (["--json"] : List Text))) =
      CommandLine.showReport disk true ⟨files.map fun f => (f.uri, f.found)⟩ := by
  -- the arguments are paths to a parser, and each leads to its own file
  have hplain : ∀ t ∈ files.map NamedFile.argument, CommandLine.IsPlain t :=
    List.forall_mem_map.mpr fun f hf => (hfiles f hf).isPlain
  have hsome : files.map NamedFile.argument ≠ [] := fun h => hne (List.map_eq_nil_iff.mp h)
  rw [CommandLine.run_validate_json disk hsome hplain, List.map_map]
  refine (CommandLine.runValidate_of_collects hdisk (collectsAll_files hdisk hfiles) true).trans ?_
  rw [findingsOf_files hdisk hfiles hdistinct]

end Run

/-- What neither the numbers of documents and findings nor a coordinate exceed in a report on some
files. -/
def reportLimit (files : List NamedFile) : Nat := (files.map fun f => findingsLimit f.text).sum

private theorem findingsLimit_le_reportLimit {files : List NamedFile} {f : NamedFile}
    (h : f ∈ files) :
    findingsLimit f.text ≤ reportLimit files :=
  List.single_le_sum (fun _ _ => Nat.zero_le _) _ (List.mem_map_of_mem h)

private theorem fitsDigits_files {files : List NamedFile}
    (h : reportLimit files < 10 ^ Json.maxIntegerDigits) :
    Report.FitsDigits ⟨files.map fun f => (f.uri, f.found)⟩ where
  documentsTotal := by
    -- the limit counts one for each file at least
    have hcount : files.length ≤ reportLimit files := by
      have hone : ∀ n ∈ files.map fun f => findingsLimit f.text, 1 ≤ n :=
        List.forall_mem_map.mpr fun f _ => Nat.mul_pos (by decide) (Nat.succ_pos _)
      have hle := List.length_le_sum_of_one_le _ hone
      rwa [List.length_map] at hle
    rw [Report.documentsTotal, List.length_map]
    exact hcount.trans_lt h
  diagnosticsTotal := by
    have hsum : (files.map fun f => f.found.length).sum ≤ reportLimit files :=
      List.sum_le_sum fun f _ => f.verdict.length_le
    rw [Report.diagnosticsTotal_eq, Report.sum_byRule, List.map_map]
    exact hsum.trans_lt h
  coordinates := by
    refine List.forall_mem_map.mpr fun f hf d hd n hn => ?_
    exact ((f.verdict.coordinates_le hd n hn).trans (findingsLimit_le_reportLimit hf)).trans_lt h

private theorem code_reportCode_files (files : List NamedFile) :
    (CommandLine.reportCode ⟨files.map fun f => (f.uri, f.found)⟩).code =
      if ∃ f ∈ files, f.found ≠ [] then 1 else 0 := by
  rw [CommandLine.code_reportCode]
  refine if_congr ?_ rfl rfl
  simp only [List.mem_map, exists_exists_and_eq_and]

/-! ## Section 3: Agreement -/

/-- The surfaces agree on files: the command line prints a report that lists them in order, each
under its absolute path with what validation finds in its text, and fails exactly if something is
found; every text can be sent to the service, which answers with the same findings and their number
if it takes a text of that length; and an engine of an editor keeps the same findings under the
address of a document with that text. -/
theorem surfaces_agree (disk : Disk) (hdisk : disk.WellFormed) (files : List NamedFile)
    (hne : files ≠ []) (hfiles : ∀ f ∈ files, f.IsReadable disk)
    (hdistinct : (files.map NamedFile.place).Nodup)
    (hsize : reportLimit files < 10 ^ Json.maxIntegerDigits) :
    (∃ output code,
      CommandLine.run disk ("validate" :: (files.map NamedFile.argument ++ (["--json"] : List Text))) =
        ⟨disk, output, .exit code []⟩ ∧
      ShowsDocuments output (files.map fun f => (f.uri, f.found)) ∧
      code.code = if ∃ f ∈ files, f.found ≠ [] then 1 else 0) ∧
    ∀ f ∈ files, (∀ uri, validateText uri f.text = f.found) ∧
      Service.Sends (Service.validationOf f.text) Engine.untitled f.text ∧
      (∀ (settings : Service.Settings) (request : Service.Request) (uri : Text),
        Service.Sends request uri f.text → (f.text.length : Int) ≤ settings.maxDocumentChars →
        Utf8.unencodable? uri = none →
        Service.respond settings request = .ok ⟨200, some (.obj [("uri", .str uri),
          ("diagnostics", .arr (f.found.map (·.toJson))), ("count", .int f.found.length)])⟩) ∧
      ∀ config collection steps snapshot, snapshot.text = f.text →
        let o := (Engine.session config Pass.defaults collection steps).publish snapshot
        o.answer = .ok f.found ∧ o.engine.collection.get snapshot.uri = f.found := by
  refine ⟨⟨_, _, run_files hdisk hfiles hne hdistinct, ?_, ?_⟩, fun f hf => ?_⟩
  · exact (fitsDigits_files hsize).showsDocuments _
  · exact code_reportCode_files files
  -- from here on a single text is compared on the surfaces that take one
  have hfound (uri : Text) : validateText uri f.text = f.found := by
    rw [validateText_eq, f.found_eq]
  refine ⟨hfound, ?_, ?_, ?_⟩
  · exact Service.sends_validationOf (Utf8.written_of_decode (hfiles f hf).decodes).2
  · intro settings request uri hrequest hsmall huri
    have hmessages := (hfiles f hf).messages
    rw [← hfound uri] at hmessages ⊢
    exact Service.respond_validate hrequest hsmall huri hmessages
  · intro config collection steps snapshot htext
    have hidle : (Engine.session config Pass.defaults collection steps).state = .idle :=
      Engine.session_state
    have hdiagnose : diagnose Pass.defaults snapshot.text = f.found := by
      rw [htext, f.found_eq]
    refine ⟨?_, ?_⟩
    · rw [(Engine.publish_idle hidle snapshot).2, Engine.session_passes, hdiagnose]
    · rw [Engine.get_publish hidle, Engine.session_passes, hdiagnose]

/-! ## Section 4: Two files -/

/-- The files of the sample disk: one without findings, and one that holds no object. -/
def formFiles : List NamedFile :=
  [⟨"a.json", ["a.json"], Utf8.encode "\x7b\x7d", "\x7b\x7d"⟩,
    ⟨"b.json", ["b.json"], Utf8.encode "[]", "[]"⟩]

private theorem isReadable_formFiles : ∀ f ∈ formFiles, f.IsReadable Disk.formsDisk := by
  have hopens {name : Text} {content : Octets}
      (hat : Disk.formsDisk.root.at? [name] = some (.file content))
      (hshort : ¬Disk.isOverlong (Disk.pathTo [name]).text = true) :
      Disk.formsDisk.lookForFile (Disk.pathTo [name]) = .ok (some ([name], content)) := by
    rw [Disk.lookForFile_pathTo Disk.wellFormed_formsDisk hat, if_neg hshort]
  -- the findings on both files are known, and none of them has a surrogate
  refine List.forall_mem_cons.mpr ⟨?_, List.forall_mem_singleton.mpr ?_⟩
  · refine ⟨CommandLine.isPlain_of_isWord (by decide), Disk.lookForFile_formsDisk_a,
      hopens rfl (by decide), Utf8.decode_eq_ok_iff.mpr ⟨rfl, by decide⟩, by decide, ?_⟩
    rw [NamedFile.found_eq, Disk.diagnose_emptyObject]
    nofun
  · refine ⟨CommandLine.isPlain_of_isWord (by decide), Disk.lookForFile_formsDisk_b,
      hopens rfl (by decide), Utf8.decode_eq_ok_iff.mpr ⟨rfl, by decide⟩, by decide, ?_⟩
    rw [NamedFile.found_eq, Disk.diagnose_emptyArray]
    exact List.forall_mem_singleton.mpr rfl

/-- The second of two files has one finding, on each surface. -/
theorem surfaces_agree_on_forms :
    (∃ output code, CommandLine.run Disk.formsDisk ["validate", "a.json", "b.json", "--json"] =
        ⟨Disk.formsDisk, output, .exit code []⟩ ∧
      ShowsDocuments output [("/a.json", []), ("/b.json", [rootNotObject (.arr [])])] ∧
      code.code = 1) ∧
    Service.respond Service.Settings.default (Service.validationOf "[]") =
      .ok ⟨200, some (.obj [("uri", .str Engine.untitled),
        ("diagnostics", .arr [(rootNotObject (.arr [])).toJson]), ("count", .int 1)])⟩ ∧
    ((Engine.session Config.default Pass.defaults (.empty "shared") []).publish
      (.ofText "b.json" "[]")).engine.collection.get "b.json" = [rootNotObject (.arr [])] := by
  -- two short files; the power is never computed
  have hsize : reportLimit formFiles < 10 ^ Json.maxIntegerDigits :=
    (show reportLimit formFiles < 10 ^ 2 by decide).trans_le
      (Nat.pow_le_pow_right (by decide) (by decide))
  obtain ⟨⟨output, code, hrun, hshows, hcode⟩, hall⟩ := surfaces_agree Disk.formsDisk
    Disk.wellFormed_formsDisk formFiles nofun isReadable_formFiles (by decide) hsize
  obtain ⟨-, hsends, hrespond, hpublish⟩ := hall formFiles[1] (by simp [formFiles])
  have hdocuments : formFiles.map (fun f => (f.uri, f.found)) =
      [(Text.ofString "/a.json", []), (Text.ofString "/b.json", [rootNotObject (.arr [])])] := by
    simp only [formFiles, List.map_cons, List.map_nil, NamedFile.found_eq,
      Disk.diagnose_emptyObject, Disk.diagnose_emptyArray]
    rfl
  have hfound : formFiles[1].found = [rootNotObject (.arr [])] :=
    (NamedFile.found_eq _).trans Disk.diagnose_emptyArray
  refine ⟨⟨output, code, hrun, hdocuments ▸ hshows, ?_⟩, ?_, ?_⟩
  · rw [hcode, if_pos ⟨formFiles[1], by simp [formFiles], hfound ▸ List.cons_ne_nil _ _⟩]
  · have h := hrespond Service.Settings.default _ _ hsends (by decide) rfl
    rw [hfound] at h
    exact h
  · exact (hpublish Config.default (.empty "shared") [] (.ofText "b.json" "[]") rfl).2.trans hfound

/-! ## Section 5: Files that are not reported -/

/-- A file is not validated if the text of its absolute path is too long, however short the argument
that names it. -/
theorem run_overlong {disk : Disk} (hdisk : disk.WellFormed) {argument : Text} {place : List Text}
    {content : Octets} (hplain : CommandLine.IsPlain argument)
    (hleads : disk.lookForFile (Path.ofText argument) = .ok (some (place, content)))
    (hlong : Disk.isOverlong (Disk.pathTo place).text = true) :
    CommandLine.run disk ["validate", argument, "--json"] =
      ⟨disk, [], .fault (.nowhere .nameTooLong (Disk.pathTo place).text)⟩ := by
  have hlook := Disk.look_of_lookForFile hleads
  -- the path as given is short enough, and only the path of what it leads to is not
  have hdiscover : disk.discover (Path.ofText argument) Config.default [] =
      .ok [Disk.pathTo place] := by
    rw [Disk.discover, hlook]
    rfl
  have hfile : disk.IsDocument (Disk.pathTo place) :=
    ⟨place, content, rfl, Disk.at?_of_lookForFile hleads⟩
  have hcollect : disk.collect (Path.ofText argument) Config.default [] =
      .error (.fault (.nowhere .nameTooLong (Disk.pathTo place).text)) := by
    have hthere : disk.look (Path.ofText argument) ≠ .ok none := by
      rw [hlook]
      intro h
      cases h
    rw [Disk.collect_of_discover hthere hdiscover, Disk.validateFiles,
      hfile.validateFile_of_overlong hdisk hlong]
  refine (CommandLine.run_validate_json disk (List.cons_ne_nil argument [])
    (List.forall_mem_singleton.mpr hplain)).trans ?_
  exact CommandLine.runValidate_of_stop (show CommandLine.CollectsAll disk [] [] [] from .nil)
    hcollect [] true

/-- A node under so many directories of one name. -/
def nested (name : Text) (node : Disk.Node) : Nat → Disk.Node
  | 0 => node
  | n + 1 => .directory [(name, nested name node n)]

/-- Down through the nested directories the way leads to what is in the innermost. -/
theorem at?_nested (name : Text) (node : Disk.Node) (n : Nat) (rest : List Text) :
    (nested name node n).at? (List.replicate n name ++ rest) = node.at? rest := by
  -- each directory has the next one as its only entry
  induction n with
  | zero => rfl
  | succ n ih =>
    have honce : ([(name, nested name node n)].map (·.1)).Nodup := List.nodup_singleton name
    have hchild : (nested name node (n + 1)).child? name = some (nested name node n) :=
      Disk.child?_of_mem honce List.mem_cons_self
    rw [List.replicate_succ, List.cons_append, Disk.Node.at?, hchild]
    exact ih

private theorem wellFormed_nested {name : Text} (hname : Disk.IsName name) {node : Disk.Node}
    (h : node.WellFormed) (n : Nat) : (nested name node n).WellFormed := by
  induction n with
  | zero => exact h
  | succ n ih =>
    exact .directory (List.nodup_singleton _) (List.forall_mem_singleton.mpr hname)
      (List.forall_mem_singleton.mpr ih)

/-- A name of as many letters as a name can have. -/
def longestName : Text := List.replicate Disk.maxNameOctets (.scalar 'a')

/-- A directory with one form in it. -/
def formDirectory (name : Text) : Disk.Node := .directory [(name, .file (Utf8.encode "\x7b\x7d"))]

private theorem wellFormed_formDirectory {name : Text} (h : Disk.IsName name) :
    (formDirectory name).WellFormed :=
  .directory (List.nodup_singleton _) (List.forall_mem_singleton.mpr h)
    (List.forall_mem_singleton.mpr (.file _))

/-- A disk on which a form lies sixteen directories deep, where relative paths start. -/
def deepDisk : Disk :=
  ⟨nested longestName (formDirectory "a.json") 16, List.replicate 16 longestName⟩

/-- A disk with a form whose name begins with a dash. -/
def dashedDisk : Disk := ⟨formDirectory "-x.json", []⟩

/-- A form is not reported if its name begins with a dash, since the argument is not read as a path;
and neither is one whose absolute path is too long, although the argument leads to it. -/
theorem forms_not_reported :
    (dashedDisk.lookForFile (Path.ofText "-x.json") =
        .ok (some (["-x.json"], Utf8.encode "\x7b\x7d")) ∧
      CommandLine.run dashedDisk ["validate", "-x.json", "--json"] =
        ⟨dashedDisk, [], .stop (.misuse "widget-schema validate" (.missing ["paths"]))⟩) ∧
    ∃ place, deepDisk.lookForFile (Path.ofText "a.json") =
        .ok (some (place, Utf8.encode "\x7b\x7d")) ∧
      CommandLine.run deepDisk ["validate", "a.json", "--json"] =
        ⟨deepDisk, [], .fault (.nowhere .nameTooLong (Disk.pathTo place).text)⟩ := by
  constructor
  · have hat : dashedDisk.root.at? (dashedDisk.fromRoot (Path.ofText "-x.json")) =
        some (.file (Utf8.encode "\x7b\x7d")) := rfl
    have hdisk : dashedDisk.WellFormed := wellFormed_formDirectory (by decide)
    exact ⟨(Disk.lookForFile_of_at? hdisk (by decide) hat).trans (if_neg (by decide)),
      CommandLine.run_validate_unknown dashedDisk (by decide) rfl (by decide)⟩
  · -- sixteen directories with the longest names make a path of more than 4096 octets
    have hname : Disk.IsName longestName := of_decide_eq_true (by decide +kernel)
    have hdisk : deepDisk.WellFormed :=
      wellFormed_nested hname (wellFormed_formDirectory (by decide)) 16
    have hat : deepDisk.root.at? (deepDisk.fromRoot (Path.ofText "a.json")) =
        some (.file (Utf8.encode "\x7b\x7d")) := at?_nested longestName _ 16 ["a.json"]
    have hleads : deepDisk.lookForFile (Path.ofText "a.json") =
        .ok (some (deepDisk.fromRoot (Path.ofText "a.json"), Utf8.encode "\x7b\x7d")) :=
      (Disk.lookForFile_of_at? hdisk (by decide) hat).trans (if_neg (by decide))
    exact ⟨_, hleads, run_overlong hdisk (CommandLine.isPlain_of_isWord (by decide)) hleads
      (by decide +kernel)⟩

end FormSchema
