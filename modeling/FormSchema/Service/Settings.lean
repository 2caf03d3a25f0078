import FormSchema.Json.Value
import FormSchema.Text.Lines
import FormSchema.Text.LowerCase
import FormSchema.Text.Numeral

/-!
# Settings of the service

Where the service listens, who may call it, and how large a document it takes.  Each setting has a
default that a variable of the environment overrides.
-/

namespace FormSchema.Service

/-- The settings of the service. -/
structure Settings where
  host : Text
  port : Int
  debug : Bool
  corsOrigins : List Text
  maxDocumentChars : Int

namespace Settings

/-- A local service for everyone, with documents of up to two million code points. -/
def default : Settings := ⟨"127.0.0.1", 8000, false, ["*"], 2000000⟩

/-- What the names of the variables begin with. -/
def variablePrefix : Text := "WIDGET_SCHEMA_"

/-- The words that switch something on, in any case. -/
def onWords : List Text := ["true", "1", "yes"]

def isOn (t : Text) : Bool := onWords.contains t.lower

/-- The members of a list with commas, without blanks around them and without empty ones. -/
def listOf (t : Text) : List Text :=
  ((Text.split (.scalar ',') t).map Text.strip).filter fun member => !member.isEmpty

/-- The variable for a setting, if it is set. -/
def setting? (environment : Entries Text) (name : Text) : Option Text :=
  Entries.get? (variablePrefix ++ name) environment

/-- The integer of a variable, or else a default. -/
def integer (environment : Entries Text) (name : Text) (other : Int) : Except Numeral.Fault Int :=
  match setting? environment name with
  | none => .ok other
  | some t => Numeral.read t

/-- The settings that an environment gives.  The port is read first. -/
def ofEnvironment (environment : Entries Text) : Except Numeral.Fault Settings :=
  match integer environment "PORT" default.port with
  | .error f => .error f
  | .ok port =>
    match integer environment "MAX_DOCUMENT_CHARS" default.maxDocumentChars with
    | .error f => .error f
    | .ok maxDocumentChars =>
      .ok {
        host := (setting? environment "HOST").getD default.host
        port
        debug := ((setting? environment "DEBUG").map isOn).getD default.debug
        corsOrigins :=
          ((setting? environment "CORS_ORIGINS").map listOf).getD default.corsOrigins
        maxDocumentChars }

/-- Settings as JSON, under the names of the variables. -/
def toJson (s : Settings) : Json :=
  .obj [("HOST", .str s.host), ("PORT", .int s.port), ("DEBUG", .bool s.debug),
    ("CORS_ORIGINS", .arr (s.corsOrigins.map .str)),
    ("MAX_DOCUMENT_CHARS", .int s.maxDocumentChars)]

end Settings

end FormSchema.Service
