import FormSchema.Assist.Insertion
import FormSchema.CommandLine.Grammar
import FormSchema.Path
import FormSchema.Text.Numeral

/-!
# Requests on the command line

What a user can ask the program to do, and the grammars in which it is asked.  A first operand that
is no command is a path to be validated, with the switches of the `validate` command.
-/

namespace FormSchema.CommandLine

/-! ## Section 1: Requests -/

/-- What a switch with a value was given: nothing because it was not used, an empty value, or a
value. -/
inductive Setting (α : Type)
  | unset
  | empty
  | to (value : α)

/-- What was given, if the switch was used. -/
def Setting.given? {α : Type} : Setting α → Option (Option α)
  | .unset => none
  | .empty => some none
  | .to value => some (some value)

/-- The setting of a switch that was used with a value or with an empty one. -/
def Setting.ofValue {α : Type} : Option α → Setting α
  | none => .empty
  | some value => .to value

/-- What the user asks for.  A switch that was given an empty value has no value here.  Of the
excluded names there is no list at all when one of them was given empty: then there is nothing to
exclude by. -/
inductive Request
  | validate (paths : List Path) (json : Bool) (exclude : Option (List Text))
  | complete (before : Text)
  | insert (file : Path) (line : Option Int) (column : Setting Int) (kind : Option InsertionKind)
      (write : Bool)
  | catalog (json : Bool)
  | template (name : Option Text) (list : Bool)

/-- The paths that a request looks at. -/
def Request.paths : Request → List Path
  | .validate paths _ _ => paths
  | .insert file _ _ _ _ => [file]
  | _ => []

/-- A request, if there is one, and whether the program tells what it does. -/
structure Invocation where
  request : Option Request
  verbose : Bool

/-! ## Section 2: Values of switches -/

/-- A value that is an integer. -/
def integerValue {σ : Type} (set : Option Int → σ → σ) (value : Option Text) (settings : σ) :
    Except Refusal σ :=
  match value with
  | none => .ok (set none settings)
  | some t =>
    match Numeral.read t with
    | .ok n => .ok (set (some n) settings)
    | .error _ => .error (.notInteger t)

/-- A value that names a kind of insertion. -/
def kindValue {σ : Type} (set : Option InsertionKind → σ → σ) (value : Option Text) (settings : σ) :
    Except Refusal σ :=
  match value with
  | none => .ok (set none settings)
  | some t =>
    match InsertionKind.ofWord? t with
    | some k => .ok (set (some k) settings)
    | none => .error (.notListed t (InsertionKind.all.map (·.word)))

/-- A value that may be any text. -/
def textValue {σ : Type} (set : Option Text → σ → σ) (value : Option Text) (settings : σ) :
    Except Refusal σ :=
  .ok (set value settings)

/-- The switch that asks for help. -/
def helpSwitch {σ : Type} : Switch σ := ⟨["-h", "--help"], .help⟩

/-- The switch that makes the program tell what it does. -/
def verboseSwitch {σ : Type} (set : σ → σ) : Switch σ := ⟨["-v", "--verbose"], .flag set⟩

/-! ## Section 3: Commands -/

def programName : Text := "widget-schema"

/-- The program with the name of a command. -/
def programOf (command : Text) : Text := programName ++ " " ++ command

/-- What is known of a request to validate. -/
structure ValidateDraft where
  paths : List Text := []
  json : Bool := false
  exclude : Option (List Text) := some []
  verbose : Bool := false

namespace ValidateDraft

/-- One more name to be excluded. -/
def excluding (name : Option Text) (d : ValidateDraft) : ValidateDraft :=
  match d.exclude, name with
  | some names, some name => { d with exclude := some (names ++ [name]) }
  | _, _ => { d with exclude := none }

/-- The switches of a request to validate. -/
def switches : List (Switch ValidateDraft) := [
  helpSwitch,
  ⟨["--json"], .flag fun d => { d with json := true }⟩,
  ⟨["--exclude"], .value (textValue excluding)⟩,
  verboseSwitch fun d => { d with verbose := true }]

/-- The request, or the name of its operands if these are missing. -/
def finish (operands : Text) (d : ValidateDraft) : Except (List Text) Invocation :=
  if d.paths.isEmpty then .error [operands]
  else .ok ⟨some (.validate (d.paths.map Path.ofText) d.json d.exclude), d.verbose⟩

def grammar : Grammar ValidateDraft Invocation :=
  ⟨programOf "validate", switches, .several fun ts d => { d with paths := ts }, {},
    finish "paths"⟩

/-- The grammar of a request without a command. -/
def pathGrammar : Grammar ValidateDraft Invocation :=
  ⟨programName, switches, .one fun t d => { d with paths := [t] }, {}, finish "path"⟩

end ValidateDraft

/-- What is known of a request to complete. -/
structure CompleteDraft where
  before : Option Text := none
  verbose : Bool := false

namespace CompleteDraft

/-- The request, or what is missing from it. -/
def finish (d : CompleteDraft) : Except (List Text) Invocation :=
  match d.before with
  | some before => .ok ⟨some (.complete before), d.verbose⟩
  | none => .error ["prefix"]

def grammar : Grammar CompleteDraft Invocation :=
  ⟨programOf "complete", [helpSwitch, verboseSwitch fun d => { d with verbose := true }],
    .one fun t d => { d with before := some t }, {}, finish⟩

end CompleteDraft

/-- What is known of a request to insert. -/
structure InsertDraft where
  file : Option Text := none
  line : Setting Int := .unset
  column : Setting Int := .unset
  kind : Setting InsertionKind := .unset
  write : Bool := false
  verbose : Bool := false

namespace InsertDraft

/-- The switches of a request to insert. -/
def switches : List (Switch InsertDraft) := [
  helpSwitch,
  ⟨["--line"], .value (integerValue fun n d => { d with line := .ofValue n })⟩,
  ⟨["--column"], .value (integerValue fun n d => { d with column := .ofValue n })⟩,
  ⟨["--kind"], .value (kindValue fun k d => { d with kind := .ofValue k })⟩,
  ⟨["--write"], .flag fun d => { d with write := true }⟩,
  verboseSwitch fun d => { d with verbose := true }]

def missing (d : InsertDraft) : List Text :=
  let file : List Text := if d.file.isNone then ["file"] else []
  let line : List Text := if d.line.given?.isNone then ["--line"] else []
  let kind : List Text := if d.kind.given?.isNone then ["--kind"] else []
  file ++ line ++ kind

/-- The request, or what is missing from it. -/
def finish (d : InsertDraft) : Except (List Text) Invocation :=
  match d.file, d.line.given?, d.kind.given? with
  | some file, some line, some kind =>
    .ok ⟨some (.insert (Path.ofText file) line d.column kind d.write), d.verbose⟩
  | _, _, _ => .error d.missing

def grammar : Grammar InsertDraft Invocation :=
  ⟨programOf "insert", switches, .one fun t d => { d with file := some t }, {}, finish⟩

end InsertDraft

/-- What is known of a request for the catalog. -/
structure CatalogDraft where
  json : Bool := false
  verbose : Bool := false

def CatalogDraft.grammar : Grammar CatalogDraft Invocation :=
  ⟨programOf "catalog",
    [helpSwitch, ⟨["--json"], .flag fun d => { d with json := true }⟩,
      verboseSwitch fun d => { d with verbose := true }],
    .none, {}, fun d => .ok ⟨some (.catalog d.json), d.verbose⟩⟩

/-- What is known of a request for a template. -/
structure TemplateDraft where
  name : Option Text := some Catalog.defaultTemplate
  list : Bool := false
  verbose : Bool := false

def TemplateDraft.grammar : Grammar TemplateDraft Invocation :=
  ⟨programOf "template",
    [helpSwitch, ⟨["--name"], .value (textValue fun t d => { d with name := t })⟩,
      ⟨["--list"], .flag fun d => { d with list := true }⟩,
      verboseSwitch fun d => { d with verbose := true }],
    .none, {}, fun d => .ok ⟨some (.template d.name d.list), d.verbose⟩⟩

/-! ## Section 4: The program -/

/-- A command: its name, and the reading of the arguments behind it. -/
structure CommandWord where
  name : Text
  read : List Text → Except Stop (Invocation × List Text)

def commands : List CommandWord := [
  ⟨"validate", ValidateDraft.grammar.read⟩,
  ⟨"complete", CompleteDraft.grammar.read⟩,
  ⟨"insert", InsertDraft.grammar.read⟩,
  ⟨"catalog", CatalogDraft.grammar.read⟩,
  ⟨"template", TemplateDraft.grammar.read⟩]

def commandNames : List Text := commands.map (·.name)

/-- The invocation that a word and the arguments behind it make, if the word is a command. -/
def takeCommand (word : Text) (rest : List Text) : Except Stop (Invocation × List Text) :=
  match commands.find? fun c => c.name = word with
  | some c => c.read rest
  | none => .error (.misuse programName (.refused ["command"] (.notListed word commandNames)))

/-- The grammar of a request with a command. -/
def commandGrammar : Grammar Invocation Invocation :=
  ⟨programName, [helpSwitch, ⟨["--version"], .version⟩], .command takeCommand, ⟨none, false⟩, .ok⟩

/-- Whether the arguments name a path and no command: their first one without a dash is neither
empty nor a command. -/
def isPathRequest (arguments : List Text) : Bool :=
  match arguments.find? fun t => t.head? ≠ some dash with
  | none => false
  | some t => !t.isEmpty && !commandNames.contains t

/-- What the arguments of the program ask for. -/
def Invocation.ofArguments (arguments : List Text) : Except Stop Invocation :=
  if isPathRequest arguments then ValidateDraft.pathGrammar.readAll arguments
  else commandGrammar.readAll arguments

end FormSchema.CommandLine
