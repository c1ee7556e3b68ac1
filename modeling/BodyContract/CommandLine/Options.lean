import BodyContract.Settings.Variable
/-!
The arguments of a command: options with long and short names, flags, and positional arguments.

Arguments are read from left to right. The value of an option, and a positional argument, are only
checked when the next argument has been recognized, or at the end; an argument that is not
recognized is reported before them.
-/

namespace BodyContract

/-- Why arguments are not understood, or what they ask for instead of a command. -/
inductive UsageError where
  /-- There are no arguments at all. -/
  | noArguments
  /-- There is no command. -/
  | missingCommand
  /-- There is no command of that name. -/
  | unknownCommand
  /-- An argument that the command must have is missing. -/
  | missingArgument
  /-- There is no such option, or a positional argument too many. -/
  | unknownArgument
  /-- A value cannot be read. -/
  | malformedValue
  /-- An option has no value, or a path is empty. -/
  | missingValue
  /-- An option is given twice. -/
  | repeatedArgument
  /-- A flag is given a value. -/
  | unexpectedValue
  /-- Help is asked for. -/
  | helpAsked
  /-- The version is asked for. -/
  | versionAsked
deriving DecidableEq, Repr

/-- The wording of an error. -/
def UsageError.message : UsageError → String
  | .noArguments => "arguments are required"
  | .missingCommand => "a command is required"
  | .unknownCommand => "unrecognized command"
  | .missingArgument => "a required argument is missing"
  | .unknownArgument => "unexpected argument"
  | .malformedValue => "invalid value"
  | .missingValue => "a value is required"
  | .repeatedArgument => "an option is used twice"
  | .unexpectedValue => "a flag takes no value"
  | .helpAsked => "help"
  | .versionAsked => "version"

/-- The forms of values. -/
inductive ValueForm where
  | text
  /-- A path, which is not empty. -/
  | path
  /-- A whole number of 64 bits without a sign. -/
  | number
deriving DecidableEq, Repr

/-- What is given with an option. -/
inductive OptionKind where
  | flag
  | value (form : ValueForm)
  | help
  | version
deriving DecidableEq, Repr

/-- An option with its names. -/
structure OptionSpec where
  name : String
  letter : Option Char
  kind : OptionKind
deriving DecidableEq, Repr

/-- What arguments a command takes. -/
structure CommandSpec where
  options : List OptionSpec
  positionals : List ValueForm
deriving DecidableEq, Repr

/-- A value of an argument. -/
inductive ArgumentValue where
  | present
  | text (value : String)
  | number (value : Nat)
deriving DecidableEq, Repr

/-- An argument that has not been checked yet. -/
inductive PendingArgument where
  /-- An option that has no value yet. -/
  | bare (option : OptionSpec)
  | option (option : OptionSpec) (form : ValueForm) (text : String)
  | positional (form : ValueForm) (text : String)
deriving DecidableEq, Repr

/-- The arguments that have been read. -/
structure Arguments where
  options : List (String × ArgumentValue) := []
  positionals : List ArgumentValue := []
  pending : Option PendingArgument := none
deriving DecidableEq, Repr

namespace ValueForm

/-- Reads a value of the form. -/
def read (form : ValueForm) (text : String) : Except UsageError ArgumentValue :=
  match form with
  | .text => .ok (.text text)
  | .path => if text.isEmpty then .error .missingValue else .ok (.text text)
  | .number =>
      match Settings.numberOfText? text with
      | none => .error .malformedValue
      | some value => .ok (.number value)

end ValueForm

namespace Arguments

/-- No arguments. -/
def empty : Arguments := {}

/-- Adds an option, which may not be there yet. -/
def addOption (arguments : Arguments) (name : String) (value : Except UsageError ArgumentValue) :
    Except UsageError Arguments :=
  if (arguments.options.lookup name).isSome then
    .error .repeatedArgument
  else do
    .ok { arguments with options := arguments.options ++ [(name, ← value)] }

/-- Checks the pending argument. -/
def settle (arguments : Arguments) : Except UsageError Arguments :=
  let settled := { arguments with pending := none }
  match arguments.pending with
  | none => .ok settled
  | some (.bare _) => .error .missingValue
  | some (.option option form text) => settled.addOption option.name (form.read text)
  | some (.positional form text) => do
      .ok { settled with positionals := arguments.positionals ++ [← form.read text] }

/-- The number of positional arguments so far. -/
def positionalCount (arguments : Arguments) : Nat :=
  match arguments.pending with
  | some (.positional ..) => arguments.positionals.length + 1
  | _ => arguments.positionals.length

/-- Takes an option without a value. -/
def takeFlag (arguments : Arguments) (option : OptionSpec) : Except UsageError Arguments := do
  let arguments ← arguments.settle
  match option.kind with
  | .help => .error .helpAsked
  | .version => .error .versionAsked
  | _ => arguments.addOption option.name (.ok .present)

/-- Takes an option with the value that is attached to it, if one is. -/
def takeOption (arguments : Arguments) (option : OptionSpec) (form : ValueForm)
    (attached : Option String) : Except UsageError Arguments := do
  let arguments ← arguments.settle
  match attached with
  | none => .ok { arguments with pending := some (.bare option) }
  | some text => arguments.addOption option.name (form.read text)

/-- Takes an argument that begins with two dashes. -/
def takeLong (spec : CommandSpec) (arguments : Arguments) (text : List Char) :
    Except UsageError Arguments :=
  let (name, behind) := text.span (· != '=')
  let attached :=
    match behind with
    | [] => none
    | _ :: value => some (String.ofList value)
  match spec.options.find? fun option => option.name == String.ofList name with
  | none => .error .unknownArgument
  | some option =>
      match option.kind with
      | .value form => arguments.takeOption option form attached
      | _ => if attached.isSome then .error .unexpectedValue else arguments.takeFlag option

/-- Takes the letters behind a single dash. What follows the letter of an option with a value is
that value, behind an equals sign or not. -/
def takeLetters (spec : CommandSpec) (arguments : Arguments) :
    List Char → Except UsageError Arguments
  | [] => .ok arguments
  | letter :: rest =>
      match spec.options.find? fun option => option.letter == some letter with
      | none => .error .unknownArgument
      | some option =>
          match option.kind with
          | .value form =>
              let attached :=
                match rest with
                | [] => none
                | '=' :: value => some (String.ofList value)
                | value => some (String.ofList value)
              arguments.takeOption option form attached
          | _ => do
              let arguments ← arguments.takeFlag option
              takeLetters spec arguments rest

/-- Takes a positional argument. -/
def takePositional (spec : CommandSpec) (arguments : Arguments) (text : String) :
    Except UsageError Arguments :=
  match spec.positionals[arguments.positionalCount]? with
  | none => .error .unknownArgument
  | some form => do
      let arguments ← arguments.settle
      .ok { arguments with pending := some (.positional form text) }

/-- Takes an argument that may be an option, the value of the option in front, or positional. -/
def take (spec : CommandSpec) (arguments : Arguments) (text : String) :
    Except UsageError Arguments :=
  match text.toList with
  | '-' :: '-' :: name => arguments.takeLong spec name
  | '-' :: letter :: rest => arguments.takeLetters spec (letter :: rest)
  | _ =>
      match arguments.pending with
      | some (.bare option) =>
          match option.kind with
          | .value form => .ok { arguments with pending := some (.option option form text) }
          | _ => arguments.takePositional spec text
      | _ => arguments.takePositional spec text

/-- Takes all arguments. Behind two dashes all are positional. -/
def takeAll (spec : CommandSpec) (arguments : Arguments) : List String → Except UsageError Arguments
  | [] => arguments.settle
  | "--" :: rest => do
      let arguments ← rest.foldlM (takePositional spec) arguments
      arguments.settle
  | text :: rest => do takeAll spec (← arguments.take spec text) rest

/-- Whether an option is given. -/
def has (arguments : Arguments) (name : String) : Bool := (arguments.options.lookup name).isSome

/-- The text that is given with an option. -/
def text? (arguments : Arguments) (name : String) : Option String :=
  match arguments.options.lookup name with
  | some (.text value) => some value
  | _ => none

/-- The number that is given with an option. -/
def number? (arguments : Arguments) (name : String) : Option Nat :=
  match arguments.options.lookup name with
  | some (.number value) => some value
  | _ => none

end Arguments

end BodyContract
