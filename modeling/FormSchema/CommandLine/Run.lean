import FormSchema.Assist.Completion
import FormSchema.CommandLine.Request
import FormSchema.Disk.Documents
import FormSchema.Log

/-!
# Running the program

What the program does with its arguments on a disk: what it prints, how it ends, and the disk after
it.  Only the `insert` command changes a file, and only when it is asked to.
-/

namespace FormSchema.CommandLine

/-! ## Section 1: Outcomes -/

/-- What the program needs where a switch has an empty value. -/
inductive Need
  | text
  | number

/-- The message of a need.  An empty value is a list of no values. -/
def Need.message : Need → Text
  | .text => "unhashable type: 'list'"
  | .number => "'<=' not supported between instances of 'int' and 'list'"

/-- How a run ends: with an exit code and messages, because the reading of arguments ended early,
or with a failure that the program does not handle. -/
inductive Ending
  | exit (code : ExitCode) (messages : Text)
  | stop (s : Stop)
  | fault (f : Disk.Fault)
  | violation (v : Contract.Violation)
  | need (n : Need)

/-- The outcome of a run: the disk after it, what it printed, and how it ended. -/
structure Outcome where
  disk : Disk
  output : Text
  ending : Ending

/-- A text as a line of its own. -/
def asLine (t : Text) : Text := t ++ [.lineFeed]

/-- An ending with an error message. -/
def complaint (message : Text) : Ending := .exit .error (asLine ("error: " ++ message))

/-- A run that ends with an error message. -/
def failed (disk : Disk) (message : Text) : Outcome := ⟨disk, [], complaint message⟩

/-- A run that prints something and succeeds. -/
def succeeded (disk : Disk) (output : Text) : Outcome := ⟨disk, output, .exit .success []⟩

/-- The spaces for each depth in printed JSON. -/
def outputIndent : Option Nat := some 2

/-! ## Section 2: Validation -/

/-- A finding as a line, with lines and columns counted from one. -/
def findingLine (uri : Text) (d : Diagnostic) : Text :=
  asLine (uri ++ ":" ++ Text.ofInt (d.range.start.line + 1) ++ ":" ++
    Text.ofInt (d.range.start.character + 1) ++ ": " ++ d.severity.word ++ ": " ++ d.message ++
    " [" ++ d.ruleId ++ "]")

/-- All findings of a report as lines. -/
def findingLines (r : Report) : Text :=
  r.documents.flatMap fun document => document.2.flatMap (findingLine document.1)

/-- The line that counts the findings of a report. -/
def totalsLine (r : Report) : Text :=
  asLine (Text.ofNat r.diagnosticsTotal ++ " diagnostic(s) in " ++ Text.ofNat r.documentsTotal ++
    " document(s)")

/-- The exit code for a report. -/
def reportCode (r : Report) : ExitCode := if r.diagnosticsTotal = 0 then .success else .violation

/-- The outcome that shows a report.  A report is nested a few levels only, so that its layout is what
is written, whatever it reports. -/
def showReport (disk : Disk) (json : Bool) (r : Report) : Outcome :=
  if json then ⟨disk, r.toJson.canonical outputIndent, .exit (reportCode r) []⟩
  else ⟨disk, findingLines r, .exit (reportCode r) (.lineFeed :: totalsLine r)⟩

/-- Findings added to earlier ones; a document found again keeps its place. -/
def mergeFindings (earlier later : Findings) : Findings :=
  later.foldl (fun findings f => findings.put f.1 f.2) earlier

/-- The ending that documents which cannot be validated make. -/
def endingOf : Disk.DocumentError → Ending
  | .fault f => .fault f
  | e => complaint e.message

/-- The findings about all documents to which a path leads.  Names to be excluded are needed for a
directory only. -/
def collectAt (disk : Disk) (exclude : Option (List Text)) (path : Path) : Except Ending Findings :=
  match exclude, disk.look path with
  | none, .ok (some ⟨_, .directory _⟩) => .error (.need .text)
  | _, _ => (disk.collect path Config.default (exclude.getD [])).mapError endingOf

/-- The findings about all documents to which some paths lead, added to earlier ones. -/
def collectAll (disk : Disk) (exclude : Option (List Text)) (findings : Findings) :
    List Path → Except Ending Findings
  | [] => .ok findings
  | path :: rest =>
    match collectAt disk exclude path with
    | .error e => .error e
    | .ok found => collectAll disk exclude (mergeFindings findings found) rest

/-- Validation of all documents to which some paths lead. -/
def runValidate (disk : Disk) (paths : List Path) (json : Bool) (exclude : Option (List Text)) :
    Outcome :=
  match collectAll disk exclude [] paths with
  | .error ending => ⟨disk, [], ending⟩
  | .ok findings =>
    match Report.build findings with
    | .error v => ⟨disk, [], .violation v⟩
    | .ok r => showReport disk json r

/-! ## Section 3: Insertion -/

/-- The column at the end of a line, or zero if there is no such line. -/
def endColumn (text : Text) (line : Int) : Int :=
  if line < 0 then 0 else (text.lines.getD line.toNat []).length

/-- The insertion of a kind at a line and a column, or else the ending. -/
def insertionAt (text : Text) (line column : Int) (kind : InsertionKind) : Except Ending Insertion :=
  (Insertion.plan text line column kind).mapError fun e => complaint e.message

/-- The insertion of a kind on a line.  The column is needed only on a line of the text. -/
def insertionOnLine (text : Text) (line : Int) (column : Setting Int) (kind : InsertionKind) :
    Except Ending Insertion :=
  match column with
  | .unset => insertionAt text line (endColumn text line) kind
  | .to n => insertionAt text line n kind
  | .empty =>
    -- every line has a column zero
    match insertionAt text line 0 kind with
    | .error ending => .error ending
    | .ok _ => .error (.need .number)

/-- The insertion that a request asks for, or else the ending.  The kind is looked at before the
line, unless the line is needed to find the column. -/
def plannedInsertion (text : Text) (line : Option Int) (column : Setting Int)
    (kind : Option InsertionKind) : Except Ending (InsertionKind × Insertion) :=
  match line, column, kind with
  | none, .unset, _ => .error (.need .number)
  | _, _, none => .error (complaint (InsertionError.unknownKind (.arr [])).message)
  | none, _, some _ => .error (.need .number)
  | some line, column, some kind =>
    (insertionOnLine text line column kind).map fun insertion => (kind, insertion)

/-- What is logged of an insertion into a file. -/
def insertedRecord (kind : InsertionKind) (file : Path) : LogRecord :=
  ⟨.info, "Inserted " ++ kind.word ++ " fragment into " ++ file.text⟩

/-- The name under which the program logs. -/
def loggerName : Text := "widget_schema"

/-- A log record as a message of the program. -/
def recordLine (r : LogRecord) : Text := asLine (r.level.name ++ " " ++ loggerName ++ ": " ++ r.text)

/-- Insertion at a place of a file, whose fragment is printed or written into the file. -/
def runInsert (disk : Disk) (file : Path) (line : Option Int) (column : Setting Int)
    (kind : Option InsertionKind) (write verbose : Bool) : Outcome :=
  match disk.lookForFile file with
  | .error f => ⟨disk, [], .fault f⟩
  | .ok none => failed disk ("file does not exist: " ++ file.text)
  | .ok (some (place, content)) =>
    match Disk.strictTextOf content with
    | .error f => ⟨disk, [], .fault f⟩
    | .ok text =>
      match plannedInsertion text line column kind with
      | .error ending => ⟨disk, [], ending⟩
      | .ok (kind, insertion) =>
        if write then
          ⟨disk.write place (Utf8.encode (insertion.applyTo text)), [],
            .exit .success (if verbose then recordLine (insertedRecord kind file) else [])⟩
        else succeeded disk (asLine insertion.text)

/-! ## Section 4: The catalog -/

/-- A text filled up with spaces at its end. -/
def padded (width : Nat) (t : Text) : Text :=
  t ++ List.replicate (width - t.length) (.scalar ' ')

/-- The length of the longest identifier of a data type. -/
def catalogWidth : Nat := (Catalog.dataTypeIds.map List.length).foldl max 0

/-- A data type as a line. -/
def dataTypeLine (d : DataType) : Text :=
  asLine (padded catalogWidth d.identifier ++ "  " ++ d.detail ++ ": " ++ d.description)

/-- The catalog as lines. -/
def catalogLines : Text := Catalog.dataTypes.flatMap dataTypeLine

/-- The templates as lines. -/
def templateLines : Text :=
  Catalog.templates.flatMap fun t => asLine (t.name ++ ": " ++ t.description)

/-- The template with a name, or an error that lists the known ones. -/
def runTemplate (disk : Disk) : Option Text → Outcome
  | none => ⟨disk, [], .need .text⟩
  | some name =>
    match Catalog.template? name with
    | some t => succeeded disk (asLine t.body.pretty)
    | none =>
      failed disk ("unknown template " ++ Quoted.quote name ++ " (known: " ++
        Text.join ", " Catalog.templateNames ++ ")")

/-! ## Section 5: The program -/

def runRequest (disk : Disk) (verbose : Bool) : Request → Outcome
  | .validate paths json exclude => runValidate disk paths json exclude
  | .complete before =>
    succeeded disk
      ((Json.arr ((Completion.provide before).map (·.toJson))).canonical outputIndent)
  | .insert file line column kind write => runInsert disk file line column kind write verbose
  | .catalog json =>
    succeeded disk (if json then Catalog.toJson.canonical outputIndent else catalogLines)
  | .template name list => if list then succeeded disk templateLines else runTemplate disk name

/-- The name of a switch in a line about usage. -/
def bracketed (name : Text) : Text := " [" ++ name ++ "]"

/-- What is printed when the reading of arguments ends early. -/
def Stop.output : Stop → Text
  | .help program names => asLine ("usage: " ++ program ++ names.flatMap bracketed)
  | .version program => asLine (program ++ " " ++ toolVersion)
  | .misuse _ _ => []

/-- The message with which a misuse is reported, empty if there is none. -/
def Stop.message : Stop → Text
  | .misuse program m => program ++ ": error: " ++ m.message
  | _ => []

/-- The exit code when the reading of arguments ends early. -/
def Stop.code : Stop → ExitCode
  | .misuse _ _ => .error
  | _ => .success

/-- The outcome of the program on a disk. -/
def run (disk : Disk) (arguments : List Text) : Outcome :=
  match Invocation.ofArguments arguments with
  | .error stop => ⟨disk, stop.output, .stop stop⟩
  | .ok ⟨none, _⟩ => failed disk "please provide a path or use a subcommand."
  | .ok ⟨some request, verbose⟩ => runRequest disk verbose request

end FormSchema.CommandLine
