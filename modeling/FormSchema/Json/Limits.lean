import FormSchema.Json.Value

/-!
# Limits of reading and writing

Values are read, converted and written by recursion, on a stack that has room for so many calls and
no more, and an integer of very many digits is neither read nor written.  Where a limit is passed,
the step that passes it fails, and what it fails with is its own: a reader names a fault of the
text, a writer one of the faults here.

How many calls are left depends on how deep the stack of the host is when the library is called; the
number here is that of a program which calls the library from a function of its own.
-/

namespace FormSchema.Json

/-! ## Section 1: Limits -/

/-- The calls that the stack has left for a reader or writer of values. -/
def callsLeft : Nat := 988

/-- The depth to which brackets may be nested in a text that is read: a reader takes one call for
each open bracket. -/
def maxDepth : Nat := callsLeft

/-- The calls that a conversion takes for each array or object: one for the value, and one that goes
through its parts. -/
def conversionCalls : Nat := 2

/-- The depth of the values that can be converted. -/
def conversionDepth : Nat := callsLeft / conversionCalls

/-- The most digits of an integer that is read or written. -/
def maxIntegerDigits : Nat := 4300

/-- Whether an integer has no more digits than are written. -/
def fitsDigits (n : Int) : Bool := n.natAbs < Nat.pow 10 maxIntegerDigits

/-! ## Section 2: Why a value is not written -/

/-- What a writer fails with: a value that is nested too deeply to be converted, to be written or to
be shown in a message, or an integer of too many digits. -/
inductive WriteFault
  | tooDeepToConvert
  | tooDeepToWrite
  | tooDeepToShow
  | longInteger
  deriving DecidableEq

/-- Whether the stack had no call left. -/
def WriteFault.isTooDeep : WriteFault → Bool
  | .longInteger => false
  | _ => true

def WriteFault.message : WriteFault → Text
  | .tooDeepToConvert => "maximum recursion depth exceeded in comparison"
  | .tooDeepToWrite => "maximum recursion depth exceeded while encoding a JSON object"
  | .tooDeepToShow => "maximum recursion depth exceeded while getting the repr of an object"
  | .longInteger =>
    "Exceeds the limit (" ++ Text.ofNat maxIntegerDigits ++ " digits) for integer string " ++
      "conversion; use sys.set_int_max_str_digits() to increase the limit"

mutual

/-- The first fault that is met when a value is gone through from the front to the back, with so
many calls left: each array and each object takes one of them while its parts are gone through, and
without one left the fault is `deep`. -/
def scanFault? (deep : WriteFault) (calls : Nat) : Json → Option WriteFault
  | .int n => if fitsDigits n then none else some .longInteger
  | .arr items =>
    -- the call comes first, so that even an empty array takes one
    match calls with
    | 0 => some deep
    | calls + 1 => scanFaultOfItems? deep calls items
  | .obj es =>
    match calls with
    | 0 => some deep
    | calls + 1 => scanFaultOfEntries? deep calls es
  | _ => none

/-- The first fault in some items. -/
def scanFaultOfItems? (deep : WriteFault) (calls : Nat) : List Json → Option WriteFault
  | [] => none
  | v :: rest => (scanFault? deep calls v).or (scanFaultOfItems? deep calls rest)

/-- The first fault in the values of some entries. -/
def scanFaultOfEntries? (deep : WriteFault) (calls : Nat) : List (Text × Json) → Option WriteFault
  | [] => none
  | (_, v) :: rest => (scanFault? deep calls v).or (scanFaultOfEntries? deep calls rest)

end

/-- Why a value cannot be written with so many calls left. -/
def encodeFault? (calls : Nat) (v : Json) : Option WriteFault := scanFault? .tooDeepToWrite calls v

/-- Why a value cannot be shown in a message with so many calls left. -/
def showFault? (calls : Nat) (v : Json) : Option WriteFault := scanFault? .tooDeepToShow calls v

/-- Why a value cannot be written after it has been converted.  Nothing is written before the
conversion is at its end, so a value that is too deep fails whatever its integers are. -/
def writeFault? (v : Json) : Option WriteFault :=
  if callsLeft < conversionCalls * v.depth then some .tooDeepToConvert
  else encodeFault? callsLeft v

end FormSchema.Json
