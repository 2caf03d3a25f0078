import FormSchema.CommandLine.Run
import FormSchema.Proofs.Assist.Cursor
import FormSchema.Proofs.CommandLine.Reading
import FormSchema.Proofs.Disk.Places
import FormSchema.Proofs.Disk.Writing
import FormSchema.Proofs.Text.LineEnds
import FormSchema.Proofs.Text.Utf8

/-!
# Insertion into a file

The `insert` command, when it writes and succeeds, changes one file: the text of the file with all
its line ends made alike, and the planned text put in at the cursor.  The octets of the file are
the old ones with the new text between them exactly if there was no carriage return among them.
-/

namespace FormSchema.CommandLine

/-! ## Section 1: Planned insertions -/

/-- The column that a setting stands for on a line: without a setting, the end of the line. -/
def Setting.column? (text : Text) (line : Int) : Setting Int → Option Int
  | .unset => some (endColumn text line)
  | .to column => some column
  | .empty => none

/-- Whether an ending is no success. -/
def Ending.Fails (ending : Ending) : Prop := ∀ messages, ending ≠ .exit .success messages

private theorem fails_complaint (message : Text) : (complaint message).Fails := by
  intro messages h
  cases h

private theorem fails_need (n : Need) : (Ending.need n).Fails := nofun

private theorem insertionAt_cases (text : Text) (line column : Int) (kind : InsertionKind) :
    (∃ i, Insertion.plan text line column kind = .ok i ∧
        insertionAt text line column kind = .ok i) ∨
      ∃ ending, ending.Fails ∧ insertionAt text line column kind = .error ending := by
  unfold insertionAt
  cases Insertion.plan text line column kind with
  | ok i => exact .inl ⟨i, rfl, rfl⟩
  | error e => exact .inr ⟨_, fails_complaint _, rfl⟩

private theorem insertionOnLine_cases (text : Text) (line : Int) (column : Setting Int)
    (kind : InsertionKind) :
    (∃ c i, column.column? text line = some c ∧ Insertion.plan text line c kind = .ok i ∧
        insertionOnLine text line column kind = .ok i) ∨
      ∃ ending, ending.Fails ∧ insertionOnLine text line column kind = .error ending := by
  match column with
  | .unset =>
    refine (insertionAt_cases text line (endColumn text line) kind).imp_left ?_
    rintro ⟨i, hplan, hat⟩
    exact ⟨_, i, rfl, hplan, hat⟩
  | .to c =>
    refine (insertionAt_cases text line c kind).imp_left ?_
    rintro ⟨i, hplan, hat⟩
    exact ⟨c, i, rfl, hplan, hat⟩
  | .empty =>
    -- a setting without a value fails, on whatever line
    right
    rcases insertionAt_cases text line 0 kind with ⟨i, -, hat⟩ | ⟨ending, hfails, hat⟩
    · exact ⟨_, fails_need .number, by rw [insertionOnLine, hat]⟩
    · exact ⟨ending, hfails, by rw [insertionOnLine, hat]⟩

/-- A planned insertion is one that the text has room for, and everything else is a failure. -/
theorem plannedInsertion_cases (text : Text) (line : Option Int) (column : Setting Int)
    (kind : Option InsertionKind) :
    (∃ l c k i, line = some l ∧ column.column? text l = some c ∧ kind = some k ∧
        Insertion.plan text l c k = .ok i ∧ plannedInsertion text line column kind = .ok (k, i)) ∨
      ∃ ending, ending.Fails ∧ plannedInsertion text line column kind = .error ending := by
  unfold plannedInsertion
  -- the settings are read in this order, and the first that is missing fails
  split
  · exact .inr ⟨_, fails_need .number, rfl⟩
  · exact .inr ⟨_, fails_complaint _, rfl⟩
  · exact .inr ⟨_, fails_need .number, rfl⟩
  · next l k =>
    rcases insertionOnLine_cases text l column k with ⟨c, i, hc, hplan, hon⟩ | ⟨ending, hfails, hon⟩
    · exact .inl ⟨l, c, k, i, rfl, hc, rfl, hplan, by rw [hon]; rfl⟩
    · exact .inr ⟨ending, hfails, by rw [hon]; rfl⟩

/-! ## Section 2: The file after a success -/

/-- What a run that has written an insertion has met: the file and its content, the text of the
content, the insertion planned for that text with its line ends made alike, and the two parts of the
text around the cursor. -/
structure Wrote (disk : Disk) (file : Path) (line : Option Int) (column : Setting Int)
    (kind : Option InsertionKind) (place : List Text) (content : Octets) (text : Text)
    (i : Insertion) (before after : Text) : Prop where
  found : disk.lookForFile file = .ok (some (place, content))
  decoded : Utf8.decode content = .ok text
  planned : ∃ l c k, line = some l ∧ column.column? text.unifyLineEnds l = some c ∧
    kind = some k ∧ Insertion.plan text.unifyLineEnds l c k = .ok i
  around : text.unifyLineEnds = before ++ after
  line_eq : i.line = before.count .lineFeed
  character_eq : i.character = before.lastLine.length

/-- A run that writes and succeeds has written the file with the planned insertion. -/
private theorem runInsert_write {disk : Disk} {file : Path} {line : Option Int}
    {column : Setting Int}
    {kind : Option InsertionKind} {verbose : Bool} {messages : Text}
    (h : (runInsert disk file line column kind true verbose).ending = .exit .success messages) :
    ∃ place content text i before after,
      Wrote disk file line column kind place content text i before after ∧
      (runInsert disk file line column kind true verbose).disk =
        disk.write place (Utf8.encode (before ++ (i.text ++ after))) := by
  -- a run that succeeds has found the file, decoded it and planned the insertion
  unfold runInsert at h ⊢
  split at h
  · cases h
  · cases h
  · next place content hfound =>
    split at h
    · cases h
    · next unified hstrict =>
      rcases plannedInsertion_cases unified line column kind with
        ⟨l, c, k, i, hl, hc, hk, hplan, hplanned⟩ | ⟨ending, hfails, hplanned⟩
      · obtain ⟨text, hdecode, rfl⟩ : ∃ text, Utf8.decode content = .ok text ∧
            text.unifyLineEnds = unified := by
          unfold Disk.strictTextOf at hstrict
          split at hstrict
          · cases hstrict
          · next text hdecode => exact ⟨text, hdecode, Except.ok.inj hstrict⟩
        obtain ⟨before, after, haround, hline, hcharacter⟩ :=
          Insertion.exists_cursor_of_plan hplan
        refine ⟨place, content, text, i, before, after,
          ⟨hfound, hdecode, ⟨l, c, k, hl, hc, hk, hplan⟩, haround, hline, hcharacter⟩, ?_⟩
        simp only [hplanned, if_true]
        rw [haround, Insertion.applyTo_append hline hcharacter]
      · rw [hplanned] at h
        exact absurd h (hfails messages)

/-- The new octets are the old ones with a text put in between them exactly if there was no carriage
return among them. -/
theorem splices_iff {content : Octets} {text before after : Text} (inserted : Text)
    (hdecode : Utf8.decode content = .ok text) (haround : text.unifyLineEnds = before ++ after) :
    (∃ j, Utf8.encode (before ++ (inserted ++ after)) =
        content.take j ++ (Utf8.encode inserted ++ content.drop j)) ↔
      CodePoint.carriageReturn ∉ text := by
  have hencode := Utf8.encode_of_decode hdecode
  have happend (a b : Text) : Utf8.encode (a ++ b) = Utf8.encode a ++ Utf8.encode b :=
    List.flatMap_append
  constructor
  · rintro ⟨j, hj⟩ hmem
    -- the new octets have as many returns as the inserted text; the old ones have their own
    have hcount := congrArg (List.count (UInt8.ofNat CodePoint.carriageReturn.toNat)) hj
    have hnone : (before ++ after).count CodePoint.carriageReturn = 0 := by
      rw [← haround]
      exact List.count_eq_zero_of_not_mem (Text.return_not_mem_unifyLineEnds text)
    have hsome : 0 < text.count CodePoint.carriageReturn := List.count_pos_iff.mpr hmem
    have hcontent : content.count (UInt8.ofNat CodePoint.carriageReturn.toNat) =
        text.count CodePoint.carriageReturn := by
      rw [← hencode, Utf8.count_encode (by decide)]
    rw [← List.take_append_drop j content, List.count_append] at hcontent
    rw [Utf8.count_encode (by decide), List.count_append, List.count_append, List.count_append,
      List.count_append, Utf8.count_encode (by decide)] at hcount
    rw [List.count_append] at hnone
    omega
  · intro hmem
    rw [Text.unifyLineEnds_of_not_mem hmem] at haround
    refine ⟨(Utf8.encode before).length, ?_⟩
    rw [← hencode, haround, happend, happend, happend, List.take_left, List.drop_left]

/-- A run that inserts into a file and succeeds leaves every other file as it is.  The text of the
file is the old one, its line ends made alike, with the planned text at the cursor; and its octets
are the old ones with that text put in between them exactly if there was no carriage return among
them. -/
theorem run_insert_write_effect (disk : Disk) (arguments : List Text) (file : Path)
    (line : Option Int) (column : Setting Int) (kind : Option InsertionKind) (verbose : Bool)
    (messages : Text)
    (hrequest : Invocation.ofArguments arguments =
      .ok ⟨some (.insert file line column kind true), verbose⟩)
    (hsuccess : (run disk arguments).ending = .exit .success messages) :
    ∃ place content text i before after,
      Wrote disk file line column kind place content text i before after ∧
      (∀ path, (run disk arguments).disk.lookForFile path =
        (disk.lookForFile path).map (Option.map fun found =>
          (found.1,
            if found.1 = place then Utf8.encode (before ++ (i.text ++ after)) else found.2))) ∧
      ((∃ j, Utf8.encode (before ++ (i.text ++ after)) =
          content.take j ++ (Utf8.encode i.text ++ content.drop j)) ↔
        CodePoint.carriageReturn ∉ text) := by
  -- the request decides what runs; the arguments do not matter any more
  have hrun : run disk arguments = runInsert disk file line column kind true verbose := by
    unfold run
    rw [hrequest]
    rfl
  rw [hrun] at hsuccess ⊢
  obtain ⟨place, content, text, i, before, after, hwrote, hdisk⟩ := runInsert_write hsuccess
  refine ⟨place, content, text, i, before, after, hwrote, fun path => ?_,
    splices_iff i.text hwrote.decoded hwrote.around⟩
  rw [hdisk]
  exact Disk.lookForFile_write disk place _ path

/-! ## Section 3: A file with CR LF -/

/-- Arguments that ask for an insertion behind a property name. -/
def insertArguments : List Text :=
  ["insert", "w.json", "--line", "0", "--column", "14", "--kind", "html-editor", "--write"]

/-- What these arguments ask for. -/
def insertInvocation : Invocation :=
  ⟨some (.insert (Path.ofText "w.json") (some 0) (.to 14) (some .htmlEditor) true), false⟩

/-- A text whose first line ends in CR LF, behind a property name and a blank. -/
def returnsText : Text := "\x7b\"data_type\": \r\n\x7d"

/-- The text after the insertion. -/
def insertedText : Text := "\x7b\"data_type\": \"area\",\n\"display\": \"html-editor\"\n\x7d"

/-- A disk with one file, of the first text. -/
def returnsDisk : Disk := ⟨.directory [("w.json", .file (Utf8.encode returnsText))], []⟩

private theorem read_insertArguments :
    InsertDraft.grammar.read insertArguments.tail = .ok (insertInvocation, []) := by
  have hsort : InsertDraft.grammar.sortAll insertArguments.tail =
      .ok [.plain "w.json", .switch "--line" InsertDraft.switches[1] none, .plain "0",
        .switch "--column" InsertDraft.switches[2] none, .plain "14",
        .switch "--kind" InsertDraft.switches[3] none, .plain "html-editor",
        .switch "--write" InsertDraft.switches[4] none] := rfl
  -- the switches of the command are known to its own parser
  refine Grammar.read_eq_ok InsertDraft.grammar
    (p := ⟨⟨some "w.json", .to 0, .to 14, .to .htmlEditor, true, false⟩, true, []⟩) hsort ?_ rfl
  refine (Grammar.readTokens_plain _ rfl rfl rfl).trans ?_
  refine (Grammar.readTokens_switch _ rfl rfl).trans ?_
  refine (Grammar.readTokens_switch _ rfl rfl).trans ?_
  refine (Grammar.readTokens_switch _ rfl rfl).trans ?_
  refine (Grammar.readTokens_switch _ rfl rfl).trans ?_
  exact Grammar.readTokens_nil _

/-- The arguments are read as a request to write. -/
theorem ofArguments_insertArguments :
    Invocation.ofArguments insertArguments = .ok insertInvocation := by
  -- to the program the switches are unknown, and so they are left to the command
  have hsort : commandGrammar.sortAll insertArguments =
      .ok [.plain "insert", .plain "w.json", .unknown "--line", .plain "0", .unknown "--column",
        .plain "14", .unknown "--kind", .plain "html-editor", .unknown "--write"] := rfl
  have hword : takeCommand "insert" insertArguments.tail = .ok (insertInvocation, []) :=
    (show takeCommand "insert" insertArguments.tail =
      InsertDraft.grammar.read insertArguments.tail from rfl).trans read_insertArguments
  have hread : commandGrammar.read insertArguments = .ok (insertInvocation, []) := by
    refine Grammar.read_eq_ok commandGrammar (p := ⟨insertInvocation, true, []⟩) hsort ?_ rfl
    refine (Grammar.readTokens_plain commandGrammar (n := 8) rfl rfl ?_).trans
      (Grammar.readTokens_nil _)
    show takeCommand "insert" insertArguments.tail = _
    exact hword
  rw [Invocation.ofArguments, if_neg (by decide), Grammar.readAll, hread]

/-- The file is found in its place. -/
theorem lookForFile_returnsDisk : returnsDisk.lookForFile (Path.ofText "w.json") =
    .ok (some (["w.json"], Utf8.encode returnsText)) := by
  have hdisk : returnsDisk.WellFormed :=
    .directory (by decide) (by decide) (List.forall_mem_singleton.mpr (.file _))
  exact (Disk.lookForFile_of_at? hdisk (by decide) rfl).trans (if_neg (by decide))

private theorem run_insertArguments : run returnsDisk insertArguments =
    ⟨returnsDisk.write ["w.json"] (Utf8.encode insertedText), [], .exit .success []⟩ := by
  rw [run, ofArguments_insertArguments]
  show runInsert returnsDisk (Path.ofText "w.json") (some 0) (.to 14) (some .htmlEditor) true false
    = _
  rw [runInsert, lookForFile_returnsDisk]
  rfl

/-- In a file with CR LF the new octets are not the old ones with the planned text between them. -/
theorem run_insert_write_returns :
    ∃ (i : Insertion) (before after : Text),
      Wrote returnsDisk (Path.ofText "w.json") (some 0) (.to 14) (some .htmlEditor) ["w.json"]
        (Utf8.encode returnsText) returnsText i before after ∧
      (run returnsDisk insertArguments).disk.lookForFile (Path.ofText "w.json") =
        .ok (some (["w.json"], Utf8.encode (before ++ (i.text ++ after)))) ∧
      ¬ ∃ j, Utf8.encode (before ++ (i.text ++ after)) = (Utf8.encode returnsText).take j ++
        (Utf8.encode i.text ++ (Utf8.encode returnsText).drop j) := by
  obtain ⟨place, content, text, i, before, after, hwrote, hfiles, hsplice⟩ :=
    run_insert_write_effect returnsDisk insertArguments (Path.ofText "w.json") (some 0) (.to 14)
      (some .htmlEditor) false [] ofArguments_insertArguments
      (congrArg Outcome.ending run_insertArguments)
  -- there is one file on the disk, and it is found in its state before
  obtain ⟨rfl, rfl⟩ : [Text.ofString "w.json"] = place ∧ Utf8.encode returnsText = content := by
    simpa [lookForFile_returnsDisk] using hwrote.found
  have hdecoded : Utf8.decode (Utf8.encode returnsText) = .ok returnsText := rfl
  obtain rfl : returnsText = text := Except.ok.inj (hdecoded.symm.trans hwrote.decoded)
  refine ⟨i, before, after, hwrote, ?_, fun h => hsplice.mp h (by decide)⟩
  rw [hfiles, lookForFile_returnsDisk]
  rfl

/-- In a file with CR LF the new octets are not the old ones with anything put in between them. -/
theorem no_splice_of_returns :
    (run returnsDisk insertArguments).ending = .exit .success [] ∧
      returnsDisk.lookForFile (Path.ofText "w.json") =
        .ok (some (["w.json"], Utf8.encode returnsText)) ∧
      (run returnsDisk insertArguments).disk.lookForFile (Path.ofText "w.json") =
        .ok (some (["w.json"], Utf8.encode insertedText)) ∧
      ∀ (fragment : Octets) (j : Nat), Utf8.encode insertedText ≠
        (Utf8.encode returnsText).take j ++ (fragment ++ (Utf8.encode returnsText).drop j) := by
  refine ⟨congrArg Outcome.ending run_insertArguments, lookForFile_returnsDisk, ?_, ?_⟩
  · rw [run_insertArguments, Disk.lookForFile_write, lookForFile_returnsDisk]
    rfl
  · intro fragment j h
    -- the one return among the old octets is before or behind the fragment; the new ones have none
    have hold : (Utf8.encode returnsText).count 0x0D = 1 := by decide
    have hnew : (Utf8.encode insertedText).count 0x0D = 0 := by decide
    have hcount := congrArg (List.count 0x0D) h
    rw [← List.take_append_drop j (Utf8.encode returnsText), List.count_append] at hold
    rw [hnew, List.count_append, List.count_append] at hcount
    omega

end FormSchema.CommandLine
