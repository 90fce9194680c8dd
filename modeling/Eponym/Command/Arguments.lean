/-
# Arguments

A command is given by a word, operands in a fixed order, switches, and settings with
a value.  Switches and settings may stand anywhere after the word; after `--` there
are operands only.  Arguments are read from left to right, and the first that is out
of place ends the reading, as does a question for help or for the version.
-/

namespace Eponym.Command

/-! ## Commands -/

/-- The forms of a report. -/
inductive ReportForm where
  | text
  | json
  deriving DecidableEq

/-- The files with the types that are known and with the configuration. -/
structure ModelFiles where
  types : Option String
  config : Option String
  deriving DecidableEq

/-- What is to be done. -/
inductive Action where
  /-- Shows the base names that a type suggests. -/
  | candidates (type : String) (files : ModelFiles)
  /-- Checks a name against a type. -/
  | check (name type : String) (files : ModelFiles)
  /-- Checks the subjects in a file. -/
  | lint (subjects : String) (files : ModelFiles) (form : ReportForm)
  /-- Shows the configuration that holds if none is given. -/
  | printDefaultConfig
  /-- Tells whether a configuration is valid. -/
  | validateConfig (path : String) (detailed : Bool)
  deriving DecidableEq

/-- An action, and whether to tell more about it than its result. -/
structure Invocation where
  verbose : Bool
  action : Action
  deriving DecidableEq

/-! ## The grammar of commands -/

/-- Arguments that are there or not. -/
inductive Switch where
  | verbose
  | detailed
  | help
  | version
  deriving DecidableEq

/-- Arguments that are followed by a value. -/
inductive Setting where
  | types
  | config
  | form
  deriving DecidableEq

/-- Arguments that are told apart by their places. -/
structure Operand where
  name : String
  isPath : Bool

/-- The long name of a switch. -/
def Switch.name : Switch → String
  | verbose => "verbose"
  | detailed => "detailed"
  | help => "help"
  | version => "version"

/-- The letter that stands for a switch. -/
def Switch.letter? : Switch → Option Char
  | verbose => some 'v'
  | detailed => none
  | help => some 'h'
  | version => some 'V'

/-- The long name of a setting. -/
def Setting.name : Setting → String
  | types => "types"
  | config => "config"
  | form => "format"

/-- The letter that stands for a setting. -/
def Setting.letter? : Setting → Option Char
  | types => none
  | config => some 'c'
  | form => some 'f'

/-- The environment variable that has the value of a setting that is not given. -/
def Setting.variable? : Setting → Option String
  | types => some "NOMEN_TYPES"
  | config => some "NOMEN_CONFIG"
  | form => none

/-- The words that name commands. -/
inductive Verb where
  | candidates
  | check
  | lint
  | printDefaultConfig
  | validateConfig
  deriving DecidableEq

/-- All verbs. -/
def Verb.all : List Verb := [candidates, check, lint, printDefaultConfig, validateConfig]

/-- The word for a verb. -/
def Verb.word : Verb → String
  | candidates => "candidates"
  | check => "check"
  | lint => "lint"
  | printDefaultConfig => "print-default-config"
  | validateConfig => "validate-config"

/-- The verb that a word stands for. -/
def Verb.ofWord? (w : String) : Option Verb := all.find? fun v => v.word = w

/-- The arguments that may be given. -/
structure Grammar where
  switches : List Switch
  settings : List Setting
  operands : List Operand

/-- The arguments in front of the word of a command. -/
def Grammar.front : Grammar := ⟨[.verbose, .help, .version], [], []⟩

/-- The arguments after the word of a command. -/
def Verb.grammar : Verb → Grammar
  | candidates => ⟨[.verbose, .help], [.types, .config], [⟨"TYPE", false⟩]⟩
  | check => ⟨[.verbose, .help], [.types, .config], [⟨"NAME", false⟩, ⟨"TYPE", false⟩]⟩
  | lint => ⟨[.verbose, .help], [.types, .config, .form], [⟨"SUBJECTS", true⟩]⟩
  | printDefaultConfig => ⟨[.verbose, .help], [], []⟩
  | validateConfig => ⟨[.verbose, .help, .detailed], [], [⟨"FILE", true⟩]⟩

/-! ## What ends the reading -/

/-- What is wrong with the arguments. -/
inductive Misuse where
  | missingCommand
  | unknownCommand (word : String)
  | unknownOption (given : String)
  | repeatedOption (name : String)
  | missingValue (name : String)
  | needlessValue (name : String)
  | emptyPath (name : String)
  | unknownForm (given : String)
  | missingOperand (name : String)
  | needlessOperand (given : String)
  deriving DecidableEq

/-- The text that reports a misuse. -/
def Misuse.message : Misuse → String
  | missingCommand => "a command is required"
  | unknownCommand word => s!"unknown command '{word}'"
  | unknownOption given => s!"unexpected argument '{given}'"
  | repeatedOption name => s!"'--{name}' cannot be used multiple times"
  | missingValue name => s!"a value is required for '--{name}'"
  | needlessValue name => s!"no value is expected for '--{name}'"
  | emptyPath name => s!"the path for '{name}' is empty"
  | unknownForm given => s!"'{given}' is no report format: use text or json"
  | missingOperand name => s!"the argument <{name}> is required"
  | needlessOperand given => s!"unexpected argument '{given}'"

/-- What ends the reading of arguments. -/
inductive Interruption where
  | help
  | version
  | misuse (m : Misuse)
  deriving DecidableEq

/-- The result of reading arguments. -/
abbrev Reading (α : Type) := Except Interruption α

/-- Ends the reading for a misuse. -/
def reject {α : Type} (m : Misuse) : Reading α := .error (.misuse m)

/-! ## What has been given -/

/-- The arguments of a command as far as they have been read. -/
structure Given where
  switches : List Switch
  settings : List (Setting × String)
  operands : List String

namespace Given

/-- No arguments. -/
def nothing : Given := ⟨[], [], []⟩

/-- One more switch, which answers a question or must not have been given before. -/
def turnOn (g : Given) (s : Switch) : Reading Given :=
  match s with
  | .help => .error .help
  | .version => .error .version
  | .verbose | .detailed =>
    if s ∈ g.switches then reject (.repeatedOption s.name)
    else .ok { g with switches := g.switches ++ [s] }

/-- The report form with the given name. -/
def form? (name : String) : Option ReportForm :=
  [("text", ReportForm.text), ("json", .json)].lookup name

/-- Checks the value of a setting: a path that is not empty, or the name of a form. -/
def checkValue (s : Setting) (value : String) : Reading Unit :=
  match s with
  | .types | .config => if value = "" then reject (.emptyPath s.name) else .ok ()
  | .form => if (form? value).isSome then .ok () else reject (.unknownForm value)

/-- One more setting, which must not have been given before. -/
def set (g : Given) (s : Setting) (value : String) : Reading Given :=
  if (g.settings.lookup s).isSome then reject (.repeatedOption s.name)
  else do
    checkValue s value
    return { g with settings := g.settings ++ [(s, value)] }

/-- One more operand, if there is a place for it. -/
def addOperand (g : Given) (operands : List Operand) (value : String) : Reading Given :=
  match operands[g.operands.length]? with
  | none => reject (.needlessOperand value)
  | some o =>
    if o.isPath && value = "" then reject (.emptyPath o.name)
    else .ok { g with operands := g.operands ++ [value] }

end Given

/-! ## Reading options -/

/-- Whether an argument is a switch or setting by its look. -/
def looksLikeOption (s : String) : Bool :=
  match s.toList with
  | '-' :: _ :: _ => true
  | _ => false

/-- Takes switches given by letters, and the setting at their end.  If the setting has no
value yet, it is returned as being due one. -/
def readLetters (grammar : Grammar) (given : String) :
    Given → List Char → Reading (Given × Option Setting)
  | g, [] => .ok (g, none)
  | g, c :: cs =>
    match grammar.switches.find? fun s => s.letter? = some c with
    | some s => do readLetters grammar given (← g.turnOn s) cs
    | none => match grammar.settings.find? fun s => s.letter? = some c with
      | none => reject (.unknownOption given)
      | some s => match cs with
        | [] => .ok (g, some s)
        | '=' :: value => do return (← g.set s (String.ofList value), none)
        | value => do return (← g.set s (String.ofList value), none)

/-- Takes a switch or setting given by its name, and perhaps a value after a sign of
equality. -/
def readLong (grammar : Grammar) (g : Given) (given : List Char) :
    Reading (Given × Option Setting) := do
  let name := String.ofList (given.takeWhile (· ≠ '='))
  let value? := match given.dropWhile (· ≠ '=') with
    | _ :: value => some (String.ofList value)
    | [] => none
  match grammar.switches.find? fun s => s.name = name with
  | some s => match value? with
    | some _ => reject (.needlessValue name)
    | none => return (← g.turnOn s, none)
  | none => match grammar.settings.find? fun s => s.name = name with
    | none => reject (.unknownOption ("--" ++ name))
    | some s => match value? with
      | some value => return (← g.set s value, none)
      | none => return (g, some s)

/-- Takes an argument that looks like an option. -/
def readOption (grammar : Grammar) (g : Given) (given : String) :
    Reading (Given × Option Setting) :=
  match given.toList with
  | '-' :: '-' :: name => readLong grammar g name
  | _ :: letters => readLetters grammar given g letters
  | [] => reject (.unknownOption given)

/-! ## Reading arguments -/

/-- Takes the operands after `--`. -/
def readOperands (grammar : Grammar) : Given → List String → Reading Given
  | g, [] => .ok g
  | g, s :: rest => do readOperands grammar (← g.addOperand grammar.operands s) rest

/-- Takes the arguments after the word of a command, the first of which may be the value
that a setting is due. -/
def readGiven (grammar : Grammar) : Option Setting → Given → List String → Reading Given
  | none, g, [] => .ok g
  | some due, _, [] => reject (.missingValue due.name)
  | some due, g, s :: rest =>
    if looksLikeOption s then reject (.missingValue due.name)
    else do readGiven grammar none (← g.set due s) rest
  | none, g, s :: rest =>
    if s = "--" then readOperands grammar g rest
    else if looksLikeOption s then do
      let (g, due) ← readOption grammar g s
      readGiven grammar due g rest
    else do readGiven grammar none (← g.addOperand grammar.operands s) rest

/-! ## Actions -/

/-- The operand at a place. -/
def Given.operand (g : Given) (place : Nat) (name : String) : Reading String :=
  match g.operands[place]? with
  | some value => .ok value
  | none => reject (.missingOperand name)

/-- The value of a setting, given or else in the environment. -/
def Given.settingOr (g : Given) (environment : String → Option String) (s : Setting) :
    Reading (Option String) :=
  match g.settings.lookup s with
  | some value => .ok (some value)
  | none => match s.variable?.bind environment with
    | some value => (Given.checkValue s value).map fun _ => some value
    | none => .ok none

/-- The files with types and configuration. -/
def Given.modelFiles (g : Given) (environment : String → Option String) :
    Reading ModelFiles := do
  return ⟨← g.settingOr environment .types, ← g.settingOr environment .config⟩

/-- The form of the report, which is text unless something else is said. -/
def Given.form (g : Given) : ReportForm :=
  ((g.settings.lookup .form).bind Given.form?).getD .text

/-- The action of a verb with what has been given. -/
def Verb.action (v : Verb) (environment : String → Option String) (g : Given) :
    Reading Action := do
  match v with
  | candidates => return .candidates (← g.operand 0 "TYPE") (← g.modelFiles environment)
  | check =>
    return .check (← g.operand 0 "NAME") (← g.operand 1 "TYPE") (← g.modelFiles environment)
  | lint => return .lint (← g.operand 0 "SUBJECTS") (← g.modelFiles environment) g.form
  | printDefaultConfig => return .printDefaultConfig
  | validateConfig => return .validateConfig (← g.operand 0 "FILE") (.detailed ∈ g.switches)

/-- What a question for help about the given words comes to. -/
def helpOn : List String → Interruption
  | [] => .help
  | w :: rest =>
    if (Verb.ofWord? w).isSome || w = "help" then
      match rest with
      | [] => .help
      | word :: _ => .misuse (.unknownCommand word)
    else .misuse (.unknownCommand w)

/-- Takes the arguments in front of the word of a command and the command itself. -/
def readFront (environment : String → Option String) :
    Given → List String → Reading Invocation
  | _, [] => reject .missingCommand
  | g, s :: rest =>
    if s = "--" then reject .missingCommand
    else if looksLikeOption s then do
      let (g, _) ← readOption .front g s
      readFront environment g rest
    else if s = "help" then .error (helpOn rest)
    else match Verb.ofWord? s with
      | none => reject (.unknownCommand s)
      | some v => do
        let after ← readGiven v.grammar none .nothing rest
        let action ← v.action environment after
        return ⟨.verbose ∈ g.switches ++ after.switches, action⟩

/-- The invocation that arguments stand for, in an environment. -/
def Invocation.ofArguments (environment : String → Option String) (arguments : List String) :
    Reading Invocation := readFront environment .nothing arguments

/-- The text that explains the commands. -/
def helpText : String :=
  "\n".intercalate [
    "Checks identifiers against the names that their types suggest",
    "",
    "Usage: nomen [OPTIONS] <COMMAND>",
    "",
    "Commands:",
    "  candidates <TYPE>       Show the base names that a type suggests",
    "  check <NAME> <TYPE>     Check a name against a type",
    "  lint <SUBJECTS>         Check every subject in a file",
    "  print-default-config    Show the configuration that holds if none is given",
    "  validate-config <FILE>  Tell whether a configuration is valid",
    "",
    "Options:",
    "      --types <FILE>      Types to know besides those of the runtime",
    "  -c, --config <FILE>     Configuration",
    "  -f, --format <FORM>     Form of the report of lint: text or json",
    "      --detailed          Show all settings of a valid configuration",
    "  -v, --verbose           Tell more",
    "  -h, --help              Show this text",
    "  -V, --version           Show the version", ""]

/-- The text that tells the version. -/
def versionText : String := "nomen 0.3.0\n"

end Eponym.Command
