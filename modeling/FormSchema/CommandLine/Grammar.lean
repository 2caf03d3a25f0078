import FormSchema.Text.CodePoint
import FormSchema.Text.Lines
import FormSchema.Text.Quoted

/-!
# Command-line grammars

A grammar describes the arguments of a program: switches, which begin with a dash and may take a
value, and operands.  Arguments are first sorted into switches and plain ones, each on its own, and
then read from left to right into settings.  A switch may be written by a part of its long name
that no other name begins with, with its value behind an equals sign, and short ones may share a
dash.  Behind a lone `--` every argument is plain; as the value of a switch it is no value at all.
What no switch and no operand takes is left over.
-/

namespace FormSchema.CommandLine

/-! ## Section 1: Why reading ends early -/

/-- Why a value is refused. -/
inductive Refusal
  | notInteger (value : Text)
  | notListed (value : Text) (choices : List Text)

def Refusal.message : Refusal → Text
  | .notInteger value => "invalid int value: " ++ Quoted.quote value
  | .notListed value choices =>
    "invalid choice: " ++ Quoted.quote value ++ " (choose from " ++
      Text.join ", " (choices.map Quoted.quote) ++ ")"

/-- What is wrong with the arguments. -/
inductive Misuse
  | ambiguous (argument : Text) (names : List Text)
  | ignoredValue (names : List Text) (value : Text)
  | noValue (names : List Text)
  | refused (names : List Text) (refusal : Refusal)
  | missing (names : List Text)
  | unrecognized (arguments : List Text)

/-- A message about the argument with some names. -/
def aboutArgument (names : List Text) (message : Text) : Text :=
  "argument " ++ Text.join "/" names ++ ": " ++ message

def Misuse.message : Misuse → Text
  | .ambiguous argument names =>
    "ambiguous option: " ++ argument ++ " could match " ++ Text.join ", " names
  | .ignoredValue names value =>
    aboutArgument names ("ignored explicit argument " ++ Quoted.quote value)
  | .noValue names => aboutArgument names "expected one argument"
  | .refused names refusal => aboutArgument names refusal.message
  | .missing names => "the following arguments are required: " ++ Text.join ", " names
  | .unrecognized arguments => "unrecognized arguments: " ++ Text.join " " arguments

/-- Why the reading of arguments ends early: the user asks for help or for the version, or has
misused a program. -/
inductive Stop
  | help (program : Text) (switches : List Text)
  | version (program : Text)
  | misuse (program : Text) (m : Misuse)

/-! ## Section 2: Grammars -/

/-- What a switch does. -/
inductive Effect (σ : Type)
  | flag (set : σ → σ)
  | value (set : Option Text → σ → Except Refusal σ)
  | help
  | version

/-- A switch: its names and what it does. -/
structure Switch (σ : Type) where
  names : List Text
  effect : Effect σ

def Switch.takesValue {σ : Type} (s : Switch σ) : Bool :=
  match s.effect with
  | .value _ => true
  | _ => false

/-- The operands of a grammar: none, exactly one, one or more, or a word with everything that
follows it, from which settings are made and some arguments may be left over. -/
inductive Operands (σ : Type)
  | none
  | one (set : Text → σ → σ)
  | several (set : List Text → σ → σ)
  | command (take : Text → List Text → Except Stop (σ × List Text))

/-- A grammar: its switches and operands, the settings at the beginning, and what is made of the
settings at the end, or else the names of the arguments that are missing. -/
structure Grammar (σ ρ : Type) where
  program : Text
  switches : List (Switch σ)
  operands : Operands σ
  initial : σ
  finish : σ → Except (List Text) ρ

/-! ## Section 3: Sorting arguments -/

/-- An argument that has been sorted.  A switch comes with the text in the same argument, behind an
equals sign or directly behind the name. -/
inductive Token (σ : Type)
  | plain (t : Text)
  | separator
  | unknown (t : Text)
  | switch (name : Text) (s : Switch σ) (attached : Option Text)

/-- The argument behind which every other is plain. -/
def separatorText : Text := "--"

/-- The dash with which switches begin. -/
def dash : CodePoint := .scalar '-'

/-- The sign between a switch and its value. -/
def equals : CodePoint := .scalar '='

/-- A name with a single dash. -/
def isShort : Text → Bool
  | _ :: c :: _ => c ≠ dash
  | _ => false

/-- Whether all of a text consists of decimal digits. -/
def allDigits (t : Text) : Bool := t.all fun c => c.decimalValue?.isSome

/-- A number without a sign, with or without a point; one line feed may follow it. -/
def isUnsignedNumber (t : Text) : Bool :=
  match Text.split (.scalar '.') t.dropFinalLineFeed with
  | [whole] => !whole.isEmpty && allDigits whole
  | [whole, places] => allDigits whole && !places.isEmpty && allDigits places
  | _ => false

/-- A negative number, which is plain although it begins with a dash. -/
def isNegativeNumber : Text → Bool
  | [] => false
  | c :: rest => c = dash && isUnsignedNumber rest

/-- What stands before the first equals sign of an argument. -/
def beforeEquals (t : Text) : Text := t.takeWhile (· ≠ equals)

/-- The value behind the first equals sign of an argument, if it has one. -/
def afterEquals? (t : Text) : Option Text :=
  match t.dropWhile (· ≠ equals) with
  | [] => none
  | _ :: value => some value

namespace Grammar

variable {σ ρ : Type}

def switch? (g : Grammar σ ρ) (name : Text) : Option (Switch σ) :=
  g.switches.find? fun s => s.names.contains name

/-- All names of switches, each with its switch. -/
def names (g : Grammar σ ρ) : List (Text × Switch σ) :=
  g.switches.flatMap fun s => s.names.map fun name => (name, s)

/-- The switch with the name before an equals sign, if an argument has one. -/
def exactWithValue? (g : Grammar σ ρ) (t : Text) : Option (Token σ) :=
  match afterEquals? t, g.switch? (beforeEquals t) with
  | some value, some s => some (.switch (beforeEquals t) s (some value))
  | _, _ => none

/-- What a name makes of an argument with two dashes that begins it, perhaps with a value. -/
def longReading? (t : Text) (entry : Text × Switch σ) : Option (Text × Token σ) :=
  if (beforeEquals t).isPrefixOf entry.1 then
    some (entry.1, .switch entry.1 entry.2 (afterEquals? t))
  else none

/-- What a name makes of an argument with one dash: the short name with a value directly behind it,
or the beginning of a name. -/
def shortReading? (t : Text) (entry : Text × Switch σ) : Option (Text × Token σ) :=
  if entry.1 = t.take 2 then some (entry.1, .switch entry.1 entry.2 (some (t.drop 2)))
  else if t.isPrefixOf entry.1 then some (entry.1, .switch entry.1 entry.2 none)
  else none

/-- The ways to read an argument as a switch, each with the full name. -/
def readings (g : Grammar σ ρ) (t : Text) : List (Text × Token σ) :=
  g.names.filterMap (if isShort t then shortReading? t else longReading? t)

/-- An argument that begins with a dash and is no name of a switch. -/
def sortUnnamed (g : Grammar σ ρ) (t : Text) : Except Misuse (Token σ) :=
  match g.exactWithValue? t with
  | some token => .ok token
  | none =>
    match g.readings t with
    | [reading] => .ok reading.2
    | [] =>
      -- no switch looks like a negative number, and none has a blank in its name
      if isNegativeNumber t || t.contains (.scalar ' ') then .ok (.plain t) else .ok (.unknown t)
    | several => .error (.ambiguous t (several.map (·.1)))

/-- An argument sorted on its own. -/
def sort (g : Grammar σ ρ) (t : Text) : Except Misuse (Token σ) :=
  if t.head? ≠ some dash then .ok (.plain t)
  else
    match g.switch? t with
    | some s => .ok (.switch t s none)
    | none => if t.length = 1 then .ok (.plain t) else g.sortUnnamed t

/-- All arguments sorted, up to the first separator one by one. -/
def sortAll (g : Grammar σ ρ) : List Text → Except Misuse (List (Token σ))
  | [] => .ok []
  | t :: rest =>
    if t = separatorText then .ok (.separator :: rest.map .plain)
    else
      match g.sort t with
      | .error m => .error m
      | .ok token =>
        match g.sortAll rest with
        | .error m => .error m
        | .ok tokens => .ok (token :: tokens)

end Grammar

/-! ## Section 4: Switches -/

/-- The use of a switch, with a value from the same argument. -/
structure Use (σ : Type) where
  switch : Switch σ
  value : Option Text

/-- Whether a use takes its value from the next argument. -/
def Use.takesNext {σ : Type} (u : Use σ) : Bool := u.switch.takesValue && u.value.isNone

/-- A value, unless it is the separator. -/
def properValue? (value : Text) : Option Text := if value = separatorText then none else some value

namespace Grammar

variable {σ ρ : Type}

/-- The uses in an argument in which a text follows the name of a switch.  A switch that takes a
value takes the text; behind a short one without a value more short ones may follow. -/
def usesWith (g : Grammar σ ρ) (name : Text) (s : Switch σ) (t : Text) :
    Except Misuse (List (Use σ)) :=
  if s.takesValue then .ok [⟨s, some t⟩]
  else
    match t with
    | [] => .error (.ignoredValue s.names [])
    | c :: rest =>
      match if isShort name then g.switch? [dash, c] else none with
      | none => .error (.ignoredValue s.names (c :: rest))
      | some next =>
        if rest.isEmpty then .ok [⟨s, none⟩, ⟨next, none⟩]
        else (g.usesWith [dash, c] next rest).map (⟨s, none⟩ :: ·)

/-- The uses in an argument that begins with a switch. -/
def usesOf (g : Grammar σ ρ) (name : Text) (s : Switch σ) :
    Option Text → Except Misuse (List (Use σ))
  | none => .ok [⟨s, none⟩]
  | some attached => g.usesWith name s attached

/-- The effect of one use, where the next argument is plain or missing. -/
def perform (g : Grammar σ ρ) (next : Option Text) (settings : σ) (u : Use σ) : Except Stop σ :=
  match u.switch.effect with
  | .flag set => .ok (set settings)
  | .help => .error (.help g.program (g.names.map (·.1)))
  | .version => .error (.version g.program)
  | .value set =>
    match u.value.or next with
    | none => .error (.misuse g.program (.noValue u.switch.names))
    | some value =>
      match set (properValue? value) settings with
      | .ok changed => .ok changed
      | .error refusal => .error (.misuse g.program (.refused u.switch.names refusal))

def performAll (g : Grammar σ ρ) (next : Option Text) (settings : σ) :
    List (Use σ) → Except Stop σ
  | [] => .ok settings
  | u :: rest =>
    match g.perform next settings u with
    | .error stop => .error stop
    | .ok changed => g.performAll next changed rest

end Grammar

/-! ## Section 5: Operands -/

/-- The text of a plain argument. -/
def Token.plain? {σ : Type} : Token σ → Option Text
  | .plain t => some t
  | _ => none

/-- An argument that is no switch. -/
def Token.isOperand {σ : Type} : Token σ → Bool
  | .plain _ => true
  | .separator => true
  | _ => false

/-- How many arguments the operands take at the front of some. -/
def Operands.count {σ : Type} (o : Operands σ) (tokens : List (Token σ)) : Nat :=
  match o with
  | .none => 0
  | .one _ =>
    match tokens with
    -- a separator beside the operand is taken along with it
    | .plain _ :: .separator :: _ => 2
    | .separator :: .plain _ :: _ => 2
    | .plain _ :: _ => 1
    | _ => 0
  | .several _ =>
    let run := tokens.takeWhile Token.isOperand
    if (run.filterMap Token.plain?).isEmpty then 0 else run.length
  | .command _ =>
    match tokens with
    | [.separator] => 0
    | _ => tokens.length

/-- The settings that the operands make of the arguments they take, as sorted and as given, and what
they leave over. -/
def Operands.apply {σ : Type} (o : Operands σ) (settings : σ) (tokens : List (Token σ))
    (given : List Text) : Except Stop (σ × List Text) :=
  match o with
  | .none => .ok (settings, [])
  | .one set =>
    match tokens.filterMap Token.plain? with
    | t :: _ => .ok (set t settings, [])
    | [] => .ok (settings, [])
  | .several set => .ok (set (tokens.filterMap Token.plain?) settings, [])
  | .command take =>
    match given with
    | word :: rest => take word rest
    | [] => .ok (settings, [])

/-! ## Section 6: Reading -/

/-- How far the reading has come: the settings, whether the operands have been taken, and what is
left over. -/
structure Progress (σ : Type) where
  settings : σ
  taken : Bool
  left : List Text

/-- The text of the next argument, if it is plain. -/
def nextPlain? {σ : Type} : List (Token σ × Text) → Option Text
  | (.plain t, _) :: _ => some t
  | _ => none

namespace Grammar

variable {σ ρ : Type}

/-- Reads arguments, each sorted and as given. -/
def readTokens (g : Grammar σ ρ) (p : Progress σ) (tokens : List (Token σ × Text)) :
    Except Stop (Progress σ) :=
  match tokens with
  | [] => .ok p
  | (.unknown t, _) :: rest => g.readTokens { p with left := p.left ++ [t] } rest
  | (.switch name s attached, _) :: rest =>
    match g.usesOf name s attached with
    | .error m => .error (.misuse g.program m)
    | .ok us =>
      match g.performAll (nextPlain? rest) p.settings us with
      | .error stop => .error stop
      | .ok settings =>
        g.readTokens ⟨settings, p.taken, p.left⟩ (rest.drop (if us.any Use.takesNext then 1 else 0))
  -- a plain argument or a separator, for the operands or left over
  | token :: rest =>
    match if p.taken then 0 else g.operands.count ((token :: rest).map (·.1)) with
    | 0 => g.readTokens { p with left := p.left ++ [token.2] } rest
    | n + 1 =>
      let mine := token :: rest.take n
      match g.operands.apply p.settings (mine.map (·.1)) (mine.map (·.2)) with
      | .error stop => .error stop
      | .ok (settings, left) =>
        g.readTokens ⟨settings, true, p.left ++ left⟩ (rest.drop n)
termination_by tokens.length

/-- What some arguments say, and which of them are left over. -/
def read (g : Grammar σ ρ) (arguments : List Text) : Except Stop (ρ × List Text) :=
  match g.sortAll arguments with
  | .error m => .error (.misuse g.program m)
  | .ok tokens =>
    match g.readTokens ⟨g.initial, false, []⟩ (tokens.zip arguments) with
    | .error stop => .error stop
    | .ok p =>
      match g.finish p.settings with
      | .error names => .error (.misuse g.program (.missing names))
      | .ok result => .ok (result, p.left)

/-- What some arguments say, if none of them is left over. -/
def readAll (g : Grammar σ ρ) (arguments : List Text) : Except Stop ρ :=
  match g.read arguments with
  | .error stop => .error stop
  | .ok (result, []) => .ok result
  | .ok (_, left) => .error (.misuse g.program (.unrecognized left))

end Grammar

end FormSchema.CommandLine
