import BodyContract.CommandLine.Options
/-!
The commands of the program and their arguments.
-/

namespace BodyContract

/-- A command with its arguments. -/
inductive Command where
  /-- Writes samples of an expression. -/
  | sample (expression : String) (count : Nat) (seed limit : Option Nat)
  /-- Writes the checks of an expected body. -/
  | assertions (body : String) (matchers : Option String)
      (isOrdered isGroovy checksEmptyBody : Bool) (response : String)
  /-- Verifies an actual body by an expected one. -/
  | verify (expected actual : String) (matchers : Option String) (isOrdered : Bool)
deriving DecidableEq, Repr

/-- A command, and the file with settings if one is named. -/
structure Invocation where
  settings : Option String
  command : Command
deriving DecidableEq, Repr

namespace Command

/-- The expression for the text of the response in a generated test, where no other is given. -/
def defaultResponse : String := "response.getBody().asString()"

/-- Asks for help. -/
def helpOption : OptionSpec := ⟨"help", some 'h', .help⟩

/-- Asks for the version. -/
def versionOption : OptionSpec := ⟨"version", some 'V', .version⟩

/-- Names the file with settings, in front of the command or behind it. -/
def settingsOption : OptionSpec := ⟨"config", some 'c', .value .path⟩

/-- Names the file with matchers. -/
def matchersOption : OptionSpec := ⟨"matchers", some 'm', .value .path⟩

/-- What stands in front of a command. -/
def programSpec : CommandSpec := ⟨[settingsOption, helpOption, versionOption], []⟩

/-- The arguments of the command for samples. -/
def sampleSpec : CommandSpec :=
  ⟨[⟨"count", some 'n', .value .number⟩, ⟨"seed", none, .value .number⟩,
    ⟨"iteration-limit", none, .value .number⟩, settingsOption, helpOption], [.text]⟩

/-- The arguments of the command for checks. -/
def assertionsSpec : CommandSpec :=
  ⟨[matchersOption, ⟨"ordered", none, .flag⟩, ⟨"groovy", none, .flag⟩,
    ⟨"include-empty-check", none, .flag⟩, ⟨"response", none, .value .text⟩, settingsOption,
    helpOption], [.path]⟩

/-- The arguments of the command that verifies. -/
def verifySpec : CommandSpec :=
  ⟨[matchersOption, ⟨"ordered", none, .flag⟩, settingsOption, helpOption], [.path, .path]⟩

/-- The arguments of a command by its name. -/
def spec? (name : String) : Option CommandSpec :=
  match name with
  | "xeger" => some sampleSpec
  | "assertions" => some assertionsSpec
  | "verify" => some verifySpec
  | _ => none

/-- Whether a name is that of a command, or asks for help. -/
def isName (name : String) : Bool := name == "help" || (spec? name).isSome

/-- The command with a name and arguments. -/
def ofArguments (name : String) (arguments : Arguments) : Except UsageError Command :=
  match name, arguments.positionals with
  | "xeger", [.text expression] =>
      .ok (.sample expression ((arguments.number? "count").getD 1) (arguments.number? "seed")
        (arguments.number? "iteration-limit"))
  | "assertions", [.text body] =>
      .ok (.assertions body (arguments.text? "matchers") (arguments.has "ordered")
        (arguments.has "groovy") (arguments.has "include-empty-check")
        ((arguments.text? "response").getD defaultResponse))
  | "verify", [.text expected, .text actual] =>
      .ok (.verify expected actual (arguments.text? "matchers") (arguments.has "ordered"))
  | _, _ => .error .missingArgument

end Command

namespace Invocation

/-- What is said to a request for help on some command: the name of a command may follow, and
nothing else. -/
def help : List String → UsageError
  | [] => .helpAsked
  | [name] => if Command.isName name then .helpAsked else .unknownCommand
  | _ => .unknownCommand

/-- Reads a command behind its name. The file with settings is the one named behind the command, if
there is one there. -/
def ofCommand (spec : CommandSpec) (front : Arguments) (name : String) (rest : List String) :
    Except UsageError Invocation := do
  let arguments ← Arguments.empty.takeAll spec rest
  let command ← Command.ofArguments name arguments
  let front ← front.settle
  .ok ⟨(arguments.text? "config").or (front.text? "config"), command⟩

/-- Whether an argument is the value of the option in front of it. -/
def isAwaited (front : Arguments) : Bool :=
  match front.pending with
  | some (.bare _) => true
  | _ => false

/-- What is wrong with the first argument behind two dashes, where a command should stand. -/
def misplaced (name : String) : UsageError :=
  if Command.isName name then .unknownArgument else .unknownCommand

/-- Reads the arguments of the program behind `front`. -/
def parseAux (front : Arguments) : List String → Except UsageError Invocation
  | [] => do
      let front ← front.settle
      .error (if front.options.isEmpty then .noArguments else .missingCommand)
  | text :: rest =>
      if !isAwaited front && text = "help" then
        .error (help rest)
      else
        match if isAwaited front then none else Command.spec? text with
        | some spec => ofCommand spec front text rest
        | none =>
            if text = "--" then
              match rest with
              | [] => parseAux front []
              | name :: _ => .error (misplaced name)
            else
              match front.take Command.programSpec text with
              | .ok front => parseAux front rest
              | .error error =>
                  .error (if text.startsWith "-" && text != "-" then error else .unknownCommand)

/-- Reads the arguments of the program. -/
def parse (arguments : List String) : Except UsageError Invocation :=
  parseAux .empty arguments

/-- The paths of the files that the command reads, without that of the settings. -/
def paths (invocation : Invocation) : List String :=
  match invocation.command with
  | .sample .. => []
  | .assertions body matchers _ _ _ _ => body :: matchers.toList
  | .verify expected actual matchers _ => expected :: actual :: matchers.toList

end Invocation

end BodyContract
