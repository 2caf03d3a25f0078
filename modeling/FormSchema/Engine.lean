import FormSchema.Check
import FormSchema.Collection
import FormSchema.Config
import FormSchema.Json.Reader
import FormSchema.Log
import FormSchema.Path

/-!
# The validation engine

The engine reads a document, runs its passes over the tree and keeps the published findings.  While
a run is in progress the engine is in the state `validating`, and every further call is refused.  A
pass is a script of actions; it may report findings, give up, or call the engine that runs it.  What
a pass has reported before it gives up is dropped, and the other passes run as if it were not there.
-/

namespace FormSchema

/-! ## Section 1: Documents and passes -/

/-- A document at one point in time. -/
structure Snapshot where
  uri : Text
  text : Text
  languageId : Text
  version : Int

/-- A document in JSON, in its first version. -/
def Snapshot.ofText (uri text : Text) : Snapshot := ⟨uri, text, "json", 0⟩

/-- What can be asked of an engine while it validates. -/
inductive Request
  | validate (snapshot : Snapshot)
  | publish (snapshot : Snapshot)

/-- What a pass does when the engine refuses its request: note the refusal and go on, or give up. -/
inductive OnRefusal
  | note
  | giveUp
  deriving DecidableEq

/-- One action of a pass.  A report without findings at all, not even an empty list of them, is one
in which something failed: the pass gives up there. -/
inductive Action
  | report (findings : Container → Text → Option (List Diagnostic))
  | call (request : Request) (onRefusal : OnRefusal)
  | giveUp

/-- A pass: its identifier and its actions. -/
structure Pass where
  id : Text
  script : List Action

/-- The pass that runs one check.  Why the check fails, if it does, is of no interest to a run. -/
def Check.pass (check : Check) : Pass :=
  ⟨check.id, [.report fun root text => (check.findings root text).toOption]⟩

/-- The passes of an engine that is given no others: the four checks. -/
def Pass.defaults : List Pass := Check.all.map Check.pass

/-! ## Section 2: The engine and its outcomes -/

/-- Whether a run is in progress. -/
inductive EngineState
  | idle
  | validating
  deriving DecidableEq

def EngineState.word : EngineState → Text
  | .idle => "idle"
  | .validating => "validating"

/-- An engine. -/
structure Engine where
  config : Config
  passes : List Pass
  collection : Collection
  state : EngineState

/-- The refusal of a call that arrives while a run is in progress. -/
structure Busy where
  uri : Text

def Busy.message (b : Busy) : Text :=
  "validation already in progress (while validating " ++ b.uri ++ ")"

/-- The outcome of a call: the engine after it, what was logged, what passes noted, and the
answer. -/
structure Outcome (α : Type) where
  engine : Engine
  log : List LogRecord
  notes : List Text
  answer : α

/-- The outcome of a call that only answers. -/
def Outcome.pure {α : Type} (engine : Engine) (answer : α) : Outcome α := ⟨engine, [], [], answer⟩

/-- An outcome that comes after some log records and notes. -/
def Outcome.after {α : Type} (log : List LogRecord) (notes : List Text) (o : Outcome α) :
    Outcome α :=
  ⟨o.engine, log ++ o.log, notes ++ o.notes, o.answer⟩

/-- The same outcome with another answer. -/
def Outcome.withAnswer {α β : Type} (o : Outcome α) (answer : β) : Outcome β :=
  ⟨o.engine, o.log, o.notes, answer⟩

/-- A call that validates a document. -/
abbrev ValidateCall := Engine → Snapshot → Outcome (Except Busy (List Diagnostic))

/-! ## Section 3: Findings that end a run early -/

/-- The finding on a text that is not JSON. -/
def invalidJson (text : Text) (fault : Json.Fault) : Diagnostic :=
  .error .documentStart ("Invalid JSON format: " ++ fault.message text) Rule.invalidJson.id

/-- The finding on a document whose top-level value is no object. -/
def rootNotObject (value : Json) : Diagnostic :=
  .error .documentStart
    ("Invalid schema format: top-level value must be an object, found " ++ value.kindName)
    Rule.rootObject.id

/-! ## Section 4: Running passes -/

/-- The record of a publication. -/
def publishedRecord (snapshot : Snapshot) (count : Nat) : LogRecord :=
  ⟨.debug, "Published " ++ Text.ofNat count ++ " diagnostic(s) for " ++ snapshot.uri ++
    " (version " ++ Text.ofInt snapshot.version ++ ")"⟩

/-- The record of a pass that gave up. -/
def skippedRecord (pass : Pass) : LogRecord :=
  ⟨.error, "Validation pass '" ++ pass.id ++ "' raised an exception; skipped"⟩

/-- Publication on top of validation: the findings become the entry of the document. -/
def publishWith (validate : ValidateCall) : ValidateCall := fun engine snapshot =>
  let o := validate engine snapshot
  match o.answer with
  | .error _ => o
  | .ok found =>
    ⟨{ o.engine with collection := o.engine.collection.set snapshot.uri found },
      o.log ++ [publishedRecord snapshot found.length], o.notes, .ok found⟩

/-- A request answered on top of validation. -/
def requestWith (validate : ValidateCall) (engine : Engine) :
    Request → Outcome (Except Busy (List Diagnostic))
  | .validate snapshot => validate engine snapshot
  | .publish snapshot => publishWith validate engine snapshot

/-- The note of a refusal that a pass has met. -/
def refusalNote (engine : Engine) (b : Busy) : Text := engine.state.word ++ ": " ++ b.message

/-- The rest of a script, after `found` has been reported.  The answer is nothing if the pass gives
up. -/
def runScript (validate : ValidateCall) (root : Container) (text : Text) (engine : Engine)
    (found : List Diagnostic) : List Action → Outcome (Option (List Diagnostic))
  | [] => .pure engine (some found)
  | .report findings :: rest =>
    match findings root text with
    | some more => runScript validate root text engine (found ++ more) rest
    | none => .pure engine none
  -- what was reported before is dropped with the answer
  | .giveUp :: _ => .pure engine none
  | .call request onRefusal :: rest =>
    let o := requestWith validate engine request
    match o.answer, onRefusal with
    | .ok _, _ => (runScript validate root text o.engine found rest).after o.log o.notes
    | .error b, .note =>
      (runScript validate root text o.engine found rest).after o.log
        (o.notes ++ [refusalNote o.engine b])
    | .error _, .giveUp => o.withAnswer none

/-- The passes one after the other; the answer is what those found that did not give up. -/
def runPasses (validate : ValidateCall) (root : Container) (text : Text) (engine : Engine) :
    List Pass → Outcome (List Diagnostic)
  | [] => .pure engine []
  | pass :: rest =>
    let o := runScript validate root text engine [] pass.script
    let others := runPasses validate root text o.engine rest
    match o.answer with
    -- the passes behind a pass run in either case; only the findings differ
    | some found => (others.withAnswer (found ++ others.answer)).after o.log o.notes
    | none => others.after (o.log ++ [skippedRecord pass]) o.notes

/-- A run on a text: the text is read and the passes go over its tree.  A text that is not JSON and
a value that is no object give one finding each, and no pass runs. -/
def runText (validate : ValidateCall) (engine : Engine) (text : Text) : Outcome (List Diagnostic) :=
  match Json.parse text with
  | .error fault => .pure engine [invalidJson text fault]
  | .ok (.obj root) => runPasses validate root text engine engine.passes
  | .ok value => .pure engine [rootNotObject value]

/-! ## Section 5: Validation -/

/-- Validation, with `inner` to answer the calls of passes.  An engine that is validating refuses;
an idle one is validating during the run and idle after it. -/
def validateWith (inner : ValidateCall) : ValidateCall := fun engine snapshot =>
  match engine.state with
  | .validating => .pure engine (.error ⟨snapshot.uri⟩)
  | .idle =>
    -- whatever the passes did, the engine is idle again when the run ends
    let o := runText inner { engine with state := .validating } snapshot.text
    ⟨{ o.engine with state := .idle }, o.log, o.notes, .ok o.answer⟩

/-- A call that is always refused. -/
def refuse : ValidateCall := fun engine snapshot => .pure engine (.error ⟨snapshot.uri⟩)

namespace Engine

/-- Validation of a document.  A pass meets the engine while it is validating, so the calls inside
the run of a pass are refused before they would run any pass in turn, and two levels are enough. -/
def validate : ValidateCall := validateWith (validateWith refuse)

/-- Validation of a document, whose findings become its entry in the collection. -/
def publish : ValidateCall := publishWith validate

def new (config : Config) (passes : List Pass) (collection : Collection) : Engine :=
  ⟨config, passes, collection, .idle⟩

/-- An idle engine with the four checks and an empty collection. -/
def default : Engine := new Config.default Pass.defaults (.empty Collection.defaultName)

/-- The address of a document that is given none. -/
def untitled : Text := "untitled:schema.json"

/-- Whether a document is a schema document, by its language or else by its name. -/
def isSchemaDocument (engine : Engine) (snapshot : Snapshot) : Bool :=
  -- a name is not looked at if the language decides
  engine.config.languageIds.contains snapshot.languageId ||
    engine.config.matchesSuffix (Path.ofText snapshot.uri).name

/-! ## Section 6: Steps of a host -/

/-- What a host does with an engine. -/
inductive Step
  | validate (snapshot : Snapshot)
  | publish (snapshot : Snapshot)
  | changed (snapshot : Snapshot)
  | activated (snapshot : Option Snapshot)
  | closed (snapshot : Snapshot)
  | dispose
  | set (uri : Text) (diagnostics : List Diagnostic)
  | delete (uri : Text)
  | clear
  | isSchema (snapshot : Snapshot)
  | contains (uri : Text)
  | get (uri : Text)
  | name

/-- The answer to a step. -/
inductive Answer
  | nothing
  | refused (busy : Busy)
  | diagnostics (found : List Diagnostic)
  | flag (b : Bool)
  | name (t : Text)

/-- The answer that the outcome of a validation gives. -/
def Answer.ofResult : Except Busy (List Diagnostic) → Answer
  | .error b => .refused b
  | .ok found => .diagnostics found

/-- The outcome of a validation as that of a step. -/
def answered (o : Outcome (Except Busy (List Diagnostic))) : Outcome Answer :=
  o.withAnswer (.ofResult o.answer)

/-- Publication of a document that is a schema document; another one is left alone. -/
def publishIfSchema (engine : Engine) (snapshot : Snapshot) : Outcome Answer :=
  if engine.isSchemaDocument snapshot then answered (engine.publish snapshot)
  else .pure engine .nothing

/-- A change of the collection. -/
def update (engine : Engine) (f : Collection → Collection) : Outcome Answer :=
  .pure { engine with collection := f engine.collection } .nothing

def step (engine : Engine) : Step → Outcome Answer
  | .validate snapshot => answered (engine.validate snapshot)
  | .publish snapshot => answered (engine.publish snapshot)
  -- listeners publish only what is recognised as a document
  | .changed snapshot => engine.publishIfSchema snapshot
  | .activated none => .pure engine .nothing
  | .activated (some snapshot) => engine.publishIfSchema snapshot
  | .closed snapshot => engine.update (·.delete snapshot.uri)
  | .dispose => engine.update (·.clear)
  | .set uri diagnostics => engine.update (·.set uri diagnostics)
  | .delete uri => engine.update (·.delete uri)
  | .clear => engine.update (·.clear)
  | .isSchema snapshot => .pure engine (.flag (engine.isSchemaDocument snapshot))
  | .contains uri => .pure engine (.flag (engine.collection.contains uri))
  | .get uri => .pure engine (.diagnostics (engine.collection.get uri))
  | .name => .pure engine (.name engine.collection.name)

/-- A sequence of steps, each with its outcome. -/
def run (engine : Engine) : List Step → List (Outcome Answer)
  | [] => []
  | s :: rest =>
    let o := engine.step s
    o :: o.engine.run rest

end Engine

/-- The diagnostics of a text on its own, by the four checks. -/
def validateText (uri text : Text) : List Diagnostic :=
  match (Engine.default.validate (.ofText uri text)).answer with
  | .ok found => found
  | .error _ => []

end FormSchema
