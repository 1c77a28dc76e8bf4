import FormulaRules.Command
import FormulaRules.Command.Assignment

/-!
# Command lines

Arguments are read from the left on two levels: before the name of a command and after it.
Switches may stand on both levels, before and after the subject of the command. A switch
with a value takes it after an equals sign or from the next argument; one letter stands for
some switches, and letters without values may share a dash. After two dashes every argument
stands for itself.

The value of a switch is looked at when the next switch or subject is reached, or at the
end of its level. What is wrong on the inner level is found before a value that is still
pending on the outer level.
-/

namespace FormulaRules

/-- Why arguments name nothing to run. -/
inductive UsageError
  | helpWanted
  | versionWanted
  /-- There are no arguments that say anything. -/
  | nothingGiven
  | unknownCommand
  | missingCommand
  | missingSubject
  | unknownArgument
  /-- A value is missing, empty, or none of the known words. -/
  | invalidValue
  | refusedAssignment
  /-- A switch that stands for one thing is given twice. -/
  | repeated
  /-- A switch without a value has one. -/
  | unwantedValue
deriving DecidableEq, Repr, Inhabited

/-- The name of a command. -/
inductive Verb
  | calculate
  | check
  | rules
  | validate
  | explain
deriving DecidableEq, Repr, Inhabited

namespace Verb

/-- How a command is written. -/
def name : Verb → String
  | calculate => "calc"
  | check => "check"
  | rules => "rules"
  | validate => "validate"
  | explain => "explain"

/-- The command of a name. -/
def ofName? (s : String) : Option Verb :=
  [calculate, check, rules, validate, explain].find? fun verb => verb.name == s

/-- Whether a command evaluates and takes variables. -/
def takesVariables : Verb → Bool
  | calculate => true
  | check => true
  | rules => true
  | _ => false

end Verb

/-- A switch with a value. -/
inductive ValueSwitch
  | config
  | format
  | assignment
  | variablesFile
deriving DecidableEq, Repr

/-- A switch without a value. -/
inductive Mark
  | verbose
  | condition
  | help
  | version
deriving DecidableEq, Repr

/-- A switch. -/
inductive Switch
  | valued (v : ValueSwitch)
  | mark (m : Mark)
deriving DecidableEq, Repr

namespace Switch

/-- The word after two dashes. -/
def word : Switch → String
  | valued .config => "config"
  | valued .format => "format"
  | valued .assignment => "var"
  | valued .variablesFile => "vars"
  | mark .verbose => "verbose"
  | mark .condition => "condition"
  | mark .help => "help"
  | mark .version => "version"

/-- The letter after one dash. -/
def letter? : Switch → Option Char
  | valued .config => some 'c'
  | valued .format => some 'f'
  | mark .verbose => some 'v'
  | mark .help => some 'h'
  | mark .version => some 'V'
  | _ => none

/-- The switches of every level. -/
def common : List Switch := [valued .config, valued .format, mark .verbose, mark .help]

/-- The switches before or after the name of a command. -/
def ofLevel : Option Verb → List Switch
  | none => mark .version :: common
  | some .validate => mark .condition :: common
  | some verb =>
    if verb.takesVariables then [valued .assignment, valued .variablesFile] ++ common else common

end Switch

/-- Something that was given and not yet looked at. -/
inductive Pending
  /-- A switch waits for its value. -/
  | awaiting (v : ValueSwitch)
  | given (v : ValueSwitch) (value : String)
  | subject (value : String)

/-- What was read on one level. -/
structure Scan where
  config : Option String := none
  format : Option OutputFormat := none
  verbose : Bool := false
  assignments : List (String × Value) := []
  variablesFile : Option String := none
  condition : Bool := false
  subject : Option String := none
  pending : Option Pending := none
  /-- Whether every further argument stands for itself. -/
  literal : Bool := false

namespace Scan

/-- A path, which is never empty. -/
def path (value : String) : Except UsageError String :=
  if value.isEmpty then throw .invalidValue else return value

/-- Keep a value unless there is one already. -/
def once {α β : Type} (old : Option α) (new : Except UsageError β) : Except UsageError β :=
  if old.isSome then throw .repeated else new

/-- Look at the value of a switch. -/
def give (s : Scan) (value : String) : ValueSwitch → Except UsageError Scan
  | .config => once s.config do return { s with config := some (← path value) }
  | .variablesFile => once s.variablesFile do return { s with variablesFile := some (← path value) }
  | .format => once s.format do
    match OutputFormat.ofName? value with
    | some format => return { s with format := some format }
    | none => throw .invalidValue
  | .assignment =>
    match Assignment.ofText value with
    | .ok pair => return { s with assignments := s.assignments ++ [pair] }
    | .error _ => throw .refusedAssignment

/-- Look at what is pending. -/
def settle (level : Option Verb) (s : Scan) : Except UsageError Scan :=
  let settled := { s with pending := none }
  match s.pending with
  | none => return s
  | some (.awaiting _) => throw .invalidValue
  | some (.given v value) => settled.give value v
  | some (.subject value) => do
    let value ← if level = some .rules then path value else pure value
    return { settled with subject := some value }

/-- Take a switch without a value. -/
def mark (level : Option Verb) (s : Scan) (m : Mark) : Except UsageError Scan := do
  let s ← s.settle level
  match m with
  | .verbose => if s.verbose then throw .repeated else return { s with verbose := true }
  | .condition => if s.condition then throw .repeated else return { s with condition := true }
  | .help => throw .helpWanted
  | .version => throw .versionWanted

/-- Take a switch with a value that is attached to it or follows. -/
def valued (level : Option Verb) (s : Scan) (v : ValueSwitch) (attached : Option String) :
    Except UsageError Scan := do
  let s ← s.settle level
  match attached with
  | some value => s.give value v
  | none => return { s with pending := some (.awaiting v) }

/-- Take a word after two dashes. -/
def long (level : Option Verb) (s : Scan) (cs : List Char) : Except UsageError Scan :=
  let word := String.ofList (cs.takeWhile (· != '='))
  let attached := match cs.dropWhile (· != '=') with
    | [] => none
    | _ :: value => some (String.ofList value)
  match (Switch.ofLevel level).find? fun switch => switch.word == word with
  | none => throw .unknownArgument
  | some (.valued v) => s.valued level v attached
  | some (.mark m) => if attached.isSome then throw .unwantedValue else s.mark level m

/-- Take the letters after one dash. What follows the letter of a switch with a value is its
value, without one equals sign before it. -/
def letters (level : Option Verb) : Scan → List Char → Except UsageError Scan
  | s, [] => return s
  | s, c :: rest =>
    match (Switch.ofLevel level).find? fun switch => switch.letter? == some c with
    | none => throw .unknownArgument
    | some (.mark m) => do letters level (← s.mark level m) rest
    | some (.valued v) =>
      match rest with
      | [] => s.valued level v none
      | '=' :: value => s.valued level v (some (String.ofList value))
      | value => s.valued level v (some (String.ofList value))

/-- Take an argument unless it stands for itself. -/
def take? (level : Option Verb) (s : Scan) (arg : String) : Except UsageError (Option Scan) :=
  if s.literal then return none
  else
    match arg.toList with
    | ['-', '-'] => return some { s with literal := true }
    | '-' :: '-' :: cs => some <$> s.long level cs
    | '-' :: c :: cs => some <$> s.letters level (c :: cs)
    | _ =>
      match s.pending with
      | some (.awaiting v) => return some { s with pending := some (.given v arg) }
      | _ => return none

/-- Whether a subject was given. -/
def hasSubject (s : Scan) : Bool :=
  match s.pending with
  | some (.subject _) => true
  | _ => s.subject.isSome

/-- Take the subject of a command. -/
def takeSubject (verb : Verb) (s : Scan) (arg : String) : Except UsageError Scan :=
  if s.hasSubject then throw .unknownArgument
  else do return { ← s.settle (some verb) with pending := some (.subject arg) }

/-- Read the arguments after the name of a command. -/
def inner (verb : Verb) : Scan → List String → Except UsageError Scan
  | s, [] => s.settle (some verb)
  | s, arg :: rest => do
    match ← s.take? (some verb) arg with
    | some s => inner verb s rest
    | none => inner verb (← s.takeSubject verb arg) rest

/-- The command that was read. -/
def command (verb : Verb) (s : Scan) : Except UsageError Command :=
  match s.subject with
  | none => throw .missingSubject
  | some subject =>
    let given := ⟨s.assignments, s.variablesFile⟩
    return match verb with
      | .calculate => .calculate subject given
      | .check => .check subject given
      | .rules => .rules subject given
      | .validate => .validate subject (if s.condition then .condition else .formula)
      | .explain => .explain subject

/-- What a request for help about commands comes to. -/
def helpAbout : List String → UsageError
  | [] => .helpWanted
  | [topic] =>
    if topic == "help" || (Verb.ofName? topic).isSome then .helpWanted else .unknownCommand
  | _ => .unknownCommand

/-- What a level without a command comes to. -/
def withoutCommand (s : Scan) : UsageError :=
  if s.config.isSome || s.format.isSome || s.verbose then .missingCommand else .nothingGiven

/-- Read all arguments. A value of the inner level goes before one of the outer level. -/
def outer : Scan → List String → Except UsageError Invocation
  | s, [] => do throw (← s.settle none).withoutCommand
  | s, arg :: rest => do
    match ← s.take? none arg with
    | some s => outer s rest
    | none =>
      let verb := Verb.ofName? arg
      if s.literal then
        throw (if verb.isSome || arg == "help" then .unknownArgument else .unknownCommand)
      else match verb with
        | none => throw (if arg == "help" then helpAbout rest else .unknownCommand)
        | some verb =>
          let found ← inner verb {} rest
          let command ← found.command verb
          let s ← s.settle none
          return {
            command
            settings := found.config.or s.config
            verbose := found.verbose || s.verbose
            format := found.format.or s.format }

end Scan

/-- The command that arguments name. -/
def Invocation.ofArguments (args : List String) : Except UsageError Invocation := Scan.outer {} args

end FormulaRules
