import BuildEngine.Text.Blank
import BuildEngine.Text.Number

/-!
# Grammar of arguments

How the arguments of a command are read. An argument is an option by its name (`--name`), an option
by its letter (`-n`), or a value. The value of an option is attached (`--name=v`, `-nv`, `-n=v`) or
is the next argument, unless that looks like an option itself. Behind `--` everything is a value.

Values are checked when the reading goes on to something else, so of two faults the one is
reported that is noticed first.
-/

namespace BuildEngine

/-- Why arguments cannot be read, or are not meant to be. -/
inductive UsageError where
  | unknownArgument
  /-- A value is missing, or none of those that are possible. -/
  | invalidValue
  /-- A value is not of the right form. -/
  | valueValidation
  /-- An option that may be given once is given twice. -/
  | argumentConflict
  /-- A value for an option that takes none. -/
  | tooManyValues
  | invalidSubcommand
  /-- Help is asked for. -/
  | help
  /-- Help is given because a subcommand is missing. -/
  | helpForMissing
deriving DecidableEq, Repr

/-- The exit code of a program that was used in this way. -/
def UsageError.exitCode : UsageError → Nat
  | help => 0
  | _ => 2

/-- The name and the value of a property, as they are written in one argument. -/
inductive PropertyFault where
  | noEquals (text : String)
  | noName (text : String)
deriving DecidableEq, Repr

/-- The message of a fault. -/
def PropertyFault.message : PropertyFault → String
  | noEquals text => "expected NAME=VALUE, got '" ++ text ++ "'"
  | noName text => "missing property name in '" ++ text ++ "'"

/-- The property that an argument sets. -/
def readProperty (text : String) : Except PropertyFault (String × String) :=
  match text.toList.span (· ≠ '=') with
  | (_, []) => .error (.noEquals text)
  | (name, _ :: value) =>
    if Text.trimChars name = [] then .error (.noName text)
    else .ok (String.ofList (Text.trimChars name), String.ofList value)

/-- A natural number of 64 bits, with an optional `+` in front. -/
def readCount? (text : String) : Option Nat :=
  let digits := match text.toList with
    | '+' :: rest => rest
    | cs => cs
  match Text.spanDigits digits with
  | (d :: ds, []) =>
    let n := Text.ofDigits 10 (d :: ds)
    if n < UInt64.size then some n else none
  | _ => none

namespace CommandLine

/-- What the values of an option or of arguments have to be. -/
inductive ValueKind where
  | text
  | path
  | count
  | property
  | choice (names : List String)
deriving DecidableEq, Repr

/-- Checks a value. -/
def ValueKind.check : ValueKind → String → Except UsageError Unit
  | text, _ => .ok ()
  | path, s => if s = "" then .error .invalidValue else .ok ()
  | count, s => if (readCount? s).isSome then .ok () else .error .valueValidation
  | property, s => if (readProperty s).isOk then .ok () else .error .valueValidation
  | choice names, s => if s ∈ names then .ok () else .error .invalidValue

/-- An option. -/
structure OptionRule where
  /-- The name behind `--`. -/
  name : String
  /-- The letter behind `-`. -/
  letter : Option Char
  /-- What its value is, if it takes one. -/
  value : Option ValueKind
  /-- Whether it may be given more than once. -/
  isRepeatable : Bool
  /-- Whether its value is a list with commas. -/
  isList : Bool
deriving DecidableEq, Repr

/-- What the arguments of a command are. -/
structure Grammar where
  /-- The options. -/
  options : List OptionRule
  /-- What values without an option are, if they are allowed. -/
  values : Option ValueKind
  /-- Whether more than one such value is allowed. -/
  isOpenEnded : Bool
deriving DecidableEq, Repr

/-- What is still open while arguments are read. -/
inductive Pending where
  | nothing
  /-- An option that needs a value. -/
  | option (rule : OptionRule)
  /-- An option with its value. -/
  | filled (rule : OptionRule) (value : String)
  /-- Values without an option. -/
  | values (kind : ValueKind) (values : List String)
deriving DecidableEq, Repr

/-- Arguments that have been read. -/
structure Arguments where
  /-- The options with their values, in the order in which they were settled. -/
  options : List (String × List String)
  /-- The values without an option. -/
  values : List String
deriving DecidableEq, Repr

/-- Arguments while they are read. -/
structure Reading where
  /-- What has been settled. -/
  settled : Arguments
  /-- What is open. -/
  pending : Pending
  /-- Whether a value without an option was given. -/
  hasValue : Bool
  /-- Whether everything is a value from here on. -/
  isTrailing : Bool
deriving DecidableEq, Repr

namespace Reading

/-- Nothing has been read. -/
def start : Reading :=
  ⟨⟨[], []⟩, .nothing, false, false⟩

/-- Settles an option with a value. -/
def commit (r : Reading) (rule : OptionRule) (value : String) : Except UsageError Reading := do
  if !rule.isRepeatable && r.settled.options.any (fun o => o.1 = rule.name) then
    throw .argumentConflict
  -- A value is only looked at once the option may stand here.
  let values := if rule.isList then value.splitOn "," else [value]
  values.forM ((rule.value.getD .text).check)
  let settled := { r.settled with options := r.settled.options ++ [(rule.name, values)] }
  return { r with settled, pending := .nothing }

/-- Settles what is open. -/
def settle (r : Reading) : Except UsageError Reading :=
  match r.pending with
  | .nothing => .ok r
  | .option _ => .error .invalidValue
  | .filled rule value => r.commit rule value
  | .values kind values => do
    values.forM kind.check
    let settled := { r.settled with values := r.settled.values ++ values }
    return { r with settled, pending := .nothing }

/-- Goes on with an option whose value may be attached. -/
def takeOption (r : Reading) (rule : OptionRule) (attached : Option String) :
    Except UsageError Reading :=
  match rule.value, attached with
  | none, some _ => .error .tooManyValues
  | none, none => do (← r.settle).commit rule "true"
  | some _, some value => do (← r.settle).commit rule value
  | some _, none => do return { ← r.settle with pending := .option rule }

/-- Goes on with a value that belongs to no option. -/
def takeValue (r : Reading) (g : Grammar) (value : String) : Except UsageError Reading :=
  match g.values with
  | none => .error .unknownArgument
  | some kind =>
    if !g.isOpenEnded && r.hasValue then .error .unknownArgument
    else
      match r.pending with
      | .values kind values => .ok { r with pending := .values kind (values ++ [value]) }
      | _ => do return { ← r.settle with pending := .values kind [value], hasValue := true }

/-- Goes on with an option by its name. -/
def takeName (r : Reading) (g : Grammar) (text : List Char) : Except UsageError Reading :=
  let (name, attached) := match text.span (· ≠ '=') with
    | (name, _ :: value) => (String.ofList name, some (String.ofList value))
    | (name, []) => (String.ofList name, none)
  match g.options.find? fun o => o.name = name with
  | some rule => r.takeOption rule attached
  | none =>
    if name = "help" then
      match attached with
      -- What is open is checked before help is given.
      | some _ => .error .tooManyValues
      | none => do
        let _ ← r.settle
        throw .help
    else .error .unknownArgument

/-- Goes on with options by their letters; the rest behind one that takes a value is the value. -/
def takeLetters (r : Reading) (g : Grammar) : List Char → Except UsageError Reading
  | [] => .ok r
  | c :: rest =>
    match g.options.find? fun o => o.letter = some c with
    | some rule =>
      if rule.value.isNone then do takeLetters (← r.takeOption rule none) g rest
      else
        match rest with
        | [] => r.takeOption rule none
        | '=' :: value => r.takeOption rule (some (String.ofList value))
        | value => r.takeOption rule (some (String.ofList value))
    | none =>
      if c = 'h' then do
        let _ ← r.settle
        throw .help
      else .error .unknownArgument

/-- Reads an argument. -/
def step (g : Grammar) (r : Reading) (argument : String) : Except UsageError Reading :=
  if r.isTrailing then r.takeValue g argument
  else
    match argument.toList with
    | ['-', '-'] => .ok { r with isTrailing := true }
    | '-' :: '-' :: text => r.takeName g text
    | '-' :: c :: rest => r.takeLetters g (c :: rest)
    | _ =>
      match r.pending with
      | .option rule => .ok { r with pending := .filled rule argument }
      | _ => r.takeValue g argument

end Reading

namespace Grammar

/-- Reads arguments. -/
def read (g : Grammar) (arguments : List String) : Except UsageError Arguments := do
  return (← (← arguments.foldlM (Reading.step g) .start).settle).settled

end Grammar

namespace Arguments

/-- All values of an option. -/
def all (a : Arguments) (name : String) : List String :=
  a.options.flatMap fun o => if o.1 = name then o.2 else []

/-- The first value of an option. -/
def first? (a : Arguments) (name : String) : Option String :=
  (a.all name).head?

/-- Whether an option was given. -/
def has (a : Arguments) (name : String) : Bool :=
  a.options.any fun o => o.1 = name

end Arguments

end CommandLine

end BuildEngine
