import FormSchema.Text.CodePoint

/-!
# Log records and exit codes

What the library tells its host about its own work: the records of its log, and how a run of the
program ends.
-/

namespace FormSchema

/-! ## Section 1: Log records -/

/-- The levels of log records. -/
inductive LogLevel
  | debug
  | info
  | warning
  | error
  deriving DecidableEq

/-- The name of a level in capitals. -/
def LogLevel.name : LogLevel → Text
  | .debug => "DEBUG"
  | .info => "INFO"
  | .warning => "WARNING"
  | .error => "ERROR"

/-- A record of the log. -/
structure LogRecord where
  level : LogLevel
  text : Text
  deriving DecidableEq

/-- A record as one line: its level and its text. -/
def LogRecord.line (r : LogRecord) : Text := r.level.name ++ " " ++ r.text

/-! ## Section 2: Exit codes -/

/-- How a run of the program ends. -/
inductive ExitCode
  | success
  | violation
  | error
  deriving DecidableEq

namespace ExitCode

/-- The three ways to end. -/
def all : List ExitCode := [success, violation, error]

/-- The number with which the program ends: success, at least one finding, or a failure. -/
def code : ExitCode → Nat
  | success => 0
  | violation => 1
  | error => 2

end ExitCode

end FormSchema
