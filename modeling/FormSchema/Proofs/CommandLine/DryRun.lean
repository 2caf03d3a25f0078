import FormSchema.Proofs.Assist.Session
import FormSchema.Proofs.CommandLine.Insertion
import FormSchema.Proofs.CommandLine.Switches

/-!
# Insertion with and without writing

The `insert` command either prints a fragment or writes it into the file.  Both ways it plans the
same insertion for the text of the file with its line ends made alike, so both ways it succeeds or
fails alike; what the one prints is what the other puts in at the cursor, and the file is changed in
no other case.
-/

namespace FormSchema.CommandLine

/-! ## Section 1: One plan for both -/

/-- The code with which a run ends, unless it ends with a failure that the program does not
handle. -/
def Ending.code? : Ending → Option Nat
  | .exit code _ => some code.code
  | .stop s => some s.code.code
  | _ => none

private theorem insertionOnLine_of_column {text : Text} {line c : Int} {column : Setting Int}
    (h : column.column? text line = some c) (kind : InsertionKind) :
    insertionOnLine text line column kind = insertionAt text line c kind := by
  match column with
  | .unset =>
    cases h
    rfl
  | .empty => cases h
  | .to n =>
    cases h
    rfl

section File

variable {disk : Disk} {file : Path} {place : List Text} {content : Octets} {text : Text}
  {line c : Int} {column : Setting Int} {kind : InsertionKind}
  (hfile : disk.lookForFile file = .ok (some (place, content)))
  (hdecode : Utf8.decode content = .ok text)
  (hcolumn : column.column? text.unifyLineEnds line = some c)
include hfile hdecode hcolumn

/-- The command plans an insertion for the text of the file, and what it does with the insertion is
all in which writing differs. -/
theorem runInsert_eq (write verbose : Bool) :
    runInsert disk file (some line) column (some kind) write verbose =
      match Insertion.plan text.unifyLineEnds line c kind with
      | .error e => failed disk e.message
      | .ok i =>
        if write then
          ⟨disk.write place (Utf8.encode (i.applyTo text.unifyLineEnds)), [],
            .exit .success (if verbose then recordLine (insertedRecord kind file) else [])⟩
        else succeeded disk (asLine i.text) := by
  have hstrict : Disk.strictTextOf content = .ok text.unifyLineEnds := by
    rw [Disk.strictTextOf, hdecode]
  have hplanned : plannedInsertion text.unifyLineEnds (some line) column (some kind) =
      (insertionAt text.unifyLineEnds line c kind).map fun insertion => (kind, insertion) := by
    rw [← insertionOnLine_of_column hcolumn]
    rfl
  -- both modes decode and plan alike; they part where the plan is written or printed
  rw [runInsert, hfile]
  simp only [hstrict, hplanned, insertionAt]
  cases Insertion.plan text.unifyLineEnds line c kind with
  | error e => rfl
  | ok i => rfl

end File

/-! ## Section 2: What is printed and what is written -/

/-- How a run that only prints and one that writes agree on an insertion into a file of some text:
they end with one code, which says whether the insertion can be planned; the fragment that the one
prints on a line is put in by the other at the offset of the line and column; and the file is left
as it is otherwise. -/
structure InsertsAlike (disk : Disk) (file : Path) (place : List Text) (text : Text)
    (line column : Int) (kind : InsertionKind) (printing writing : Outcome) : Prop where
  code_eq : printing.ending.code? = writing.ending.code?
  success_iff : printing.ending.code? = some 0 ↔
    ∃ i, Insertion.planFor text line column (.str kind.word) = .ok i
  failure_iff : printing.ending.code? = some 2 ↔
    ∃ e, Insertion.planFor text line column (.str kind.word) = .error e
  unchanged : printing.disk = disk
  unchanged_of_failure : writing.ending.code? ≠ some 0 → writing.disk = disk
  fragment : ∀ i, Insertion.planFor text line column (.str kind.word) = .ok i →
    printing.output = i.text ++ [.lineFeed] ∧ writing.output = [] ∧
    ∃ (l k : Nat) (new : Text), line = l ∧ column = k ∧ l < text.lines.length ∧
      k ≤ (text.lines.getD l []).length ∧
      writing.disk.lookForFile file = .ok (some (place, Utf8.encode new)) ∧
      new = text.spliceAt (text.offset l k) i.text ∧
      new.lines = text.lines.take l ++
        (Text.lines ((text.lines.getD l []).spliceAt k i.text) ++ text.lines.drop (l + 1))

/-- The insertion that is planned is made at the offset of the cursor, and on its line alone. -/
theorem applyTo_of_plan {text : Text} {line column : Int} {kind : InsertionKind} {i : Insertion}
    (h : Insertion.plan text line column kind = .ok i) :
    i.applyTo text = text.spliceAt (text.offset i.line i.character) i.text ∧
      (i.applyTo text).lines = text.lines.take i.line ++
        (Text.lines ((text.lines.getD i.line []).spliceAt i.character i.text) ++
          text.lines.drop (i.line + 1)) := by
  obtain ⟨-, -, hinside, -⟩ := Insertion.place_of_plan h
  refine ⟨?_, Text.lines_unlines_modify hinside _⟩
  obtain ⟨before, after, rfl, hline, hcharacter⟩ := Insertion.exists_cursor_of_plan h
  rw [Insertion.applyTo_append hline hcharacter, hline, hcharacter, Text.offset_append,
    Text.spliceAt_append_length]

/-- Whatever arguments ask for an insertion into a file that can be read, once to print and once to
write the fragment: both runs end alike, with success exactly if the insertion can be planned for
the text with its line ends made alike; and then what the one prints, the other writes at the
cursor. -/
theorem insert_prints_what_it_writes (disk : Disk) (file : Path) (line : Int)
    (column : Setting Int) (kind : InsertionKind) (printing writing : List Text)
    (verbose verbose' : Bool)
    (hprinting : Invocation.ofArguments printing =
      .ok ⟨some (.insert file (some line) column (some kind) false), verbose⟩)
    (hwriting : Invocation.ofArguments writing =
      .ok ⟨some (.insert file (some line) column (some kind) true), verbose'⟩)
    (place : List Text) (content : Octets) (text : Text) (c : Int)
    (hfile : disk.lookForFile file = .ok (some (place, content)))
    (hdecode : Utf8.decode content = .ok text)
    (hcolumn : column.column? text.unifyLineEnds line = some c) :
    InsertsAlike disk file place text.unifyLineEnds line c kind (run disk printing)
      (run disk writing) := by
  have hprint : run disk printing = _ :=
    (run_of_ofArguments disk hprinting).trans (runInsert_eq hfile hdecode hcolumn false verbose)
  have hwrite : run disk writing = _ :=
    (run_of_ofArguments disk hwriting).trans (runInsert_eq hfile hdecode hcolumn true verbose')
  rw [hprint, hwrite]
  -- both runs ask for the same plan, which fails for both or for neither
  cases hplan : Insertion.plan text.unifyLineEnds line c kind with
  | error e =>
    have hplan' : Insertion.planFor text.unifyLineEnds line c (.str kind.word) = .error e :=
      Insertion.planFor_word.trans hplan
    exact {
      code_eq := rfl
      success_iff := iff_of_false nofun fun ⟨i, hi⟩ => nomatch hplan'.symm.trans hi
      failure_iff := iff_of_true rfl ⟨e, hplan'⟩
      unchanged := rfl
      unchanged_of_failure := fun _ => rfl
      fragment := fun i hi => nomatch hplan'.symm.trans hi }
  | ok i =>
    have hplan' : Insertion.planFor text.unifyLineEnds line c (.str kind.word) = .ok i :=
      Insertion.planFor_word.trans hplan
    obtain ⟨hline, hcharacter, hinside, hwithin⟩ := Insertion.place_of_plan hplan
    obtain ⟨hsplice, hlines⟩ := applyTo_of_plan hplan
    refine {
      code_eq := rfl
      success_iff := iff_of_true rfl ⟨i, hplan'⟩
      failure_iff := iff_of_false nofun fun ⟨e, he⟩ => nomatch hplan'.symm.trans he
      unchanged := rfl
      unchanged_of_failure := fun hcode => absurd rfl hcode
      fragment := fun j hj => ?_ }
    obtain rfl : i = j := Except.ok.inj (hplan'.symm.trans hj)
    refine ⟨rfl, rfl, i.line, i.character, _, hline, hcharacter, hinside, hwithin, ?_, hsplice,
      hlines⟩
    show (disk.write place _).lookForFile file = _
    rw [Disk.lookForFile_write, hfile]
    simp [Except.map]

/-! ## Section 3: A file with CR LF -/

/-- The arguments that ask for an insertion behind a property name, without the last one, which asks
for it to be written. -/
def printArguments : List Text :=
  ["insert", "w.json", "--line", "0", "--column", "14", "--kind", "html-editor"]

/-- The arguments without the switch to write are read as a request that prints. -/
private theorem ofArguments_printArguments : Invocation.ofArguments printArguments =
    .ok ⟨some (.insert (Path.ofText "w.json") (some 0) (.to 14) (some .htmlEditor) false),
      false⟩ := by
  -- the command has a parser of its own, which knows its switches
  have htake : takeCommand "insert" printArguments.tail =
      .ok (⟨some (.insert (Path.ofText "w.json") (some 0) (.to 14) (some .htmlEditor) false),
        false⟩, []) := by
    have hsort : InsertDraft.grammar.sortAll printArguments.tail =
        .ok [.plain "w.json", .switch "--line" InsertDraft.switches[1] none, .plain "0",
          .switch "--column" InsertDraft.switches[2] none, .plain "14",
          .switch "--kind" InsertDraft.switches[3] none, .plain "html-editor"] := rfl
    show InsertDraft.grammar.read printArguments.tail = _
    refine Grammar.read_eq_ok InsertDraft.grammar
      (p := ⟨⟨some "w.json", .to 0, .to 14, .to .htmlEditor, false, false⟩, true, []⟩) hsort ?_ rfl
    refine (Grammar.readTokens_plain _ rfl rfl rfl).trans ?_
    refine (Grammar.readTokens_switch _ rfl rfl).trans ?_
    refine (Grammar.readTokens_switch _ rfl rfl).trans ?_
    refine (Grammar.readTokens_switch _ rfl rfl).trans ?_
    exact Grammar.readTokens_nil _
  have hread := read_command (show UnknownToProgram [] from nofun)
    (show IsWord "insert" by decide)
    (show ∀ t ∈ printArguments.tail, commandGrammar.takes t = true by decide)
  rw [htake, List.nil_append] at hread
  have hargs : printArguments = Text.ofString "insert" :: printArguments.tail := rfl
  rw [Invocation.ofArguments, if_neg (by decide), Grammar.readAll, hargs, hread]
  rfl

/-- In a file with CR LF the fragment that is printed is the one that is written. -/
theorem insert_prints_what_it_writes_returns :
    InsertsAlike returnsDisk (Path.ofText "w.json") ["w.json"] returnsText.unifyLineEnds 0 14
        .htmlEditor (run returnsDisk printArguments) (run returnsDisk insertArguments) ∧
      (run returnsDisk printArguments).output =
        "\"area\",\n\"display\": \"html-editor\"\n" := by
  refine ⟨insert_prints_what_it_writes returnsDisk (Path.ofText "w.json") 0 (.to 14) .htmlEditor
    printArguments insertArguments false false ofArguments_printArguments
    ofArguments_insertArguments ["w.json"] (Utf8.encode returnsText) returnsText 14
    lookForFile_returnsDisk rfl rfl, ?_⟩
  -- what is printed is computed, since the theorem leaves it open
  rw [run_of_ofArguments returnsDisk ofArguments_printArguments]
  show (runInsert returnsDisk (Path.ofText "w.json") (some 0) (.to 14) (some .htmlEditor) false
    false).output = _
  rw [runInsert, lookForFile_returnsDisk]
  rfl

end FormSchema.CommandLine
