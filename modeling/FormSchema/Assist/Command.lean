import FormSchema.Assist.Insertion
import FormSchema.Log

/-!
# Editor commands

Commands that insert at the cursor of an editor.  A command applies one whole edit or none: if the
text cannot be made or the editor does not take it, one error is shown and the document stays as it
is.
-/

namespace FormSchema

/-! ## Section 1: Editors and commands -/

/-- How an editor takes an edit. -/
inductive Reaction
  | accept
  | reject
  | fail (message : Text)

/-- An editor: its text, its cursor or the message with which asking for it fails, and how it takes
the next edit. -/
structure Editor where
  text : Text
  cursor : Except Text (Int × Int)
  reaction : Reaction

/-- A command that inserts. -/
structure Command where
  id : Text
  title : Text
  kind : InsertionKind

namespace Command

/-- The command that inserts the choices of a dropdown. -/
def insertDropdownChoices : Command :=
  ⟨"widget-schema.insertDropdownChoices", "dropdown choices", .dropdown⟩

/-- The command that inserts the marker of the HTML editor. -/
def insertHtmlEditorMarker : Command :=
  ⟨"widget-schema.insertHtmlEditorMarker", "HTML editor marker", .htmlEditor⟩

def all : List Command := [insertDropdownChoices, insertHtmlEditorMarker]

def ofId? (id : Text) : Option Command := all.find? fun c => c.id = id

/-! ## Section 2: Execution -/

/-- What a command did: whether an edit was applied, the applied edit, the shown errors, the log and
the text of the editor after it. -/
structure Effect where
  applied : Bool
  edits : List Insertion
  errors : List Text
  log : List LogRecord
  text : Text

/-- The error that a command shows. -/
def errorMessage (c : Command) (reason : Text) : Text :=
  "Error inserting " ++ c.title ++ ": " ++ reason

/-- An effect that changes nothing and shows an error. -/
def failure (c : Command) (editor : Editor) (reason : Text) (log : List LogRecord) : Effect :=
  ⟨false, [], [c.errorMessage reason], log, editor.text⟩

/-- The insertion that a command makes in an editor, or why it cannot be made. -/
def shape (c : Command) (editor : Editor) : Except Text Insertion :=
  match editor.cursor with
  | .error message => .error message
  | .ok (line, character) =>
    match Insertion.plan editor.text line character c.kind with
    | .error e => .error e.message
    | .ok insertion => .ok insertion

/-- The effect of a command on an editor. -/
def execute (c : Command) (editor : Editor) : Effect :=
  match c.shape editor with
  | .error reason =>
    c.failure editor reason
      [⟨.warning, c.id ++ ": could not shape insertion: " ++ reason⟩]
  | .ok insertion =>
    match editor.reaction with
    | .accept => ⟨true, [insertion], [], [], insertion.applyTo editor.text⟩
    -- the editor has the last word: what it does not take has not happened
    | .reject => c.failure editor "edit was rejected" []
    | .fail message => c.failure editor message [⟨.error, c.id ++ ": edit failed"⟩]

/-- What a command without an editor logs. -/
def withoutEditor (c : Command) : List LogRecord := [⟨.debug, c.id ++ ": no active editor"⟩]

/-- The effect of the command with an identifier, or nothing if there is no such command.  `text` is
the text of the document, which stays as it is when no editor is attached. -/
def run? (id : Text) (editor : Option Editor) (text : Text) : Option Effect :=
  (ofId? id).map fun c =>
    match editor with
    | none => ⟨false, [], [], c.withoutEditor, text⟩
    | some editor => c.execute editor

end Command

end FormSchema
