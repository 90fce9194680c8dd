/-
# Performing actions

An action reads the files it names, in the order configuration, type model, subjects,
and ends with the first complaint.
-/
import Eponym.Command.Colour
import Eponym.Command.Outcome
import Eponym.Data.Json.Writer
import Eponym.Lint.Linter
import Eponym.Schema.File
import Eponym.Schema.Report

namespace Eponym.Command

open Data

/-! ## Showing results -/

/-- A violation on one line. -/
def violationLine (v : Violation) : String :=
  let place := match v.line with
    | some n => s!"line {n}: "
    | none => ""
  let problem := Colour.yellow.paint s!"[{v.problem.identifier}]"
  s!"{dimmed place}{v.message} {problem}"

/-- A finding on one line. -/
def findingLine (f : Finding) : String :=
  let place := dimmed s!"[{f.index}]"
  s!"{place} {violationLine f.violation}"

/-- A text with blanks after it up to a width. -/
def padded (width : Nat) (s : String) : String :=
  s ++ String.ofList (List.replicate (width - s.length) ' ')

/-- A report as lines of text. -/
def reportLines (r : Report) : List String :=
  r.findings.map findingLine ++
    if r.isClean then
      let mark := Colour.green.paint "✅"
      [s!"{mark} {r.checked} subjects checked, no naming violations"]
    else
      let mark := Colour.red.paint "❌"
      ["", s!"{mark} {r.total} violations in {r.affected} of " ++
        s!"{r.checked} subjects"] ++
      r.counts.map fun c => s!"   {padded 32 c.1.identifier} {c.2}"

/-- Whether something is switched on, in a word. -/
def stateWord (b : Bool) : String := if b then "enabled" else "disabled"

/-- The candidates of a type, and the base names of its interfaces. -/
def candidateLines (d : Descriptor) (candidates : List String)
    (interfaces : List (String × String)) : List String :=
  let type := Colour.cyan.paint d.text
  if candidates.isEmpty then
    let none := dimmed "No naming constraint for"
    [s!"{none} {type}"]
  else
    let title := heading "Candidate base names for"
    [s!"{title} {type}"] ++ candidates.map (fun b => "  " ++ Colour.green.paint b) ++
      if interfaces.isEmpty then []
      else ["", heading "Interface base names (bare use discouraged)"] ++
        interfaces.map fun i =>
          let interface := dimmed s!"({i.2})"
          s!"  {Colour.yellow.paint i.1} {interface}"

/-- The settings of a valid configuration. -/
def configurationLines (c : NamingConfig) (detailed : Bool) : List String :=
  [heading "📊 Configuration Summary",
    s!"   Denied type names:       {c.deniedTypes.length}",
    s!"   Denied candidate names:  {c.deniedBases.length}",
    s!"   Interface bare-name check: {stateWord c.bareNameCheck}"] ++
    if !detailed then []
    else ["", heading "🔧 Detailed Settings",
      s!"   Type suffix rule:     {stateWord c.toggles.typeSuffix}",
      s!"   Iterable plural rule: {stateWord c.toggles.iterablePlural}",
      s!"   Foreach value rule:   {stateWord c.toggles.foreachValue}"] ++
      c.deniedTypes.map (fun n => "   deny type:      " ++ Colour.cyan.paint n) ++
      c.deniedBases.map fun b => "   deny candidate: " ++ Colour.cyan.paint b

/-- What is said of a configuration that is not valid. -/
def adviceLines : List String :=
  ["", heading "🔧 Common issues:",
    "   • Check YAML syntax (indentation, colons, quotes)",
    "   • Deny-list entries must be non-empty and contain no whitespace", "",
    dimmed "💡 Tip: Use 'nomen print-default-config' to see valid format"]

/-- The default configuration as the text of a file. -/
def defaultConfigurationLines : List String :=
  [dimmed "# Default nomen configuration",
    dimmed "# Save this to a file and customize as needed",
    dimmed "# Usage: nomen lint subjects.yml --config your-config.yml", "",
    Configuration.default.toYaml]

/-! ## Loading -/

section Load

variable {m : Type → Type} [Monad m]

/-- A result that may be a complaint instead. -/
abbrev Attempt (m : Type → Type) (α : Type) := ExceptT Complaint m α

/-- Takes a result, or complains about the fault. -/
def orComplain {α : Type} (r : Except Fault α) : Attempt m α :=
  ExceptT.mk (pure (r.mapError .ofFault))

/-- Takes a result, or complains with a message of its own that is due to the fault. -/
def orComplainThat {α : Type} (message : String) (r : Except Fault α) : Attempt m α :=
  ExceptT.mk (pure (r.mapError fun f => (Complaint.ofFault f).within message))

/-- The configuration in a file, if it is valid.  For a file that cannot be read, the
complaint is only that. -/
def configurationAt (read : String → m Content) (path : String) :
    Attempt m Configuration := do
  let content ← liftM (read path)
  let config ← ExceptT.mk (pure ((Configuration.ofFile path content).mapError fun
    | .io message cause => ⟨message, [cause]⟩
    | f => .ofFault f))
  match config.fault? with
  | some f => throw (.ofFault f)
  | none => return config

/-- The configuration that is asked for. -/
def configurationOf (read : String → m Content) (files : ModelFiles) :
    Attempt m Configuration :=
  match files.config with
  | some path => configurationAt read path
  | none => return .default

/-- The types that are known. -/
def catalogueOf (read : String → m Content) (files : ModelFiles) : Attempt m Catalogue := do
  match files.types with
  | some path =>
    let content ← liftM (read path)
    orComplainThat s!"Failed to load type model from {path}" (Catalogue.ofFile path content)
  | none => return .builtins

/-- The linter that configuration and types make. -/
def linterOf (read : String → m Content) (files : ModelFiles) : Attempt m Linter := do
  let config ← configurationOf read files
  let catalogue ← catalogueOf read files
  orComplain (Linter.ofConfig config.naming (.catalogue catalogue))

/-- The subjects in a file. -/
def subjectsOf (read : String → m Content) (path : String) : Attempt m (List Subject) := do
  let content ← liftM (read path)
  orComplainThat s!"Failed to load subjects from {path}" (Subject.batchOfFile path content)

end Load

/-! ## Actions -/

/-- The result of a session with a linter, and the remarks made on the way. -/
def consult {α : Type} (e : Linter) (session : StateM Session α) : α × List Remark :=
  let (a, s) := session.run .new
  (a, (e.config.notices ++ s.notices).map .warning)

/-- The outcome of asking for the candidates of a type. -/
def showCandidates (e : Linter) (d : Descriptor) : Outcome :=
  let session : StateM Session (List String × List (String × String)) := do
    return (← e.candidates d, ← e.interfaceBaseNames d)
  let ((candidates, interfaces), remarks) := consult e session
  .ofLines true (candidateLines d candidates interfaces) remarks

/-- A name without the signs in front that mark it as a variable. -/
def bareVariable (name : String) : String := String.ofList (name.toList.dropWhile (· = '$'))

/-- The outcome of checking a name against a type. -/
def checkName (e : Linter) (given : String) (d : Descriptor) : Outcome :=
  let name := bareVariable given
  let (found, remarks) := consult e (e.checkName name d none)
  let lines :=
    if found.isEmpty then
      let mark := Colour.green.paint "✅"
      [s!"{mark} ${name} matches {Colour.cyan.paint d.text}"]
    else found.map violationLine
  .ofLines found.isEmpty lines remarks

/-- The outcome of checking the subjects of a file. -/
def lintSubjects (e : Linter) (subjects : List Subject) (form : ReportForm) : Outcome :=
  let (report, remarks) := consult e (e.checkAll subjects)
  let lines := match form with
    | .json => [Json.writeLines 0 report.encode]
    | .text => reportLines report
  .ofLines report.isClean lines (.detail s!"Loaded {subjects.length} subjects" :: remarks)

/-- The outcome of validating a configuration. -/
def showValidity (path : String) (detailed : Bool) (loaded : Except Complaint Configuration) :
    Outcome :=
  let title := heading "🔍 Validating configuration:"
  let head := [s!"{title} {Colour.cyan.paint path}", ""]
  match loaded with
  | .ok config =>
    let verdict := bold (Colour.brightGreen.paint "✅ Configuration file is valid!")
    .ofLines true (head ++ [verdict, ""] ++ configurationLines config.naming detailed) []
  | .error c =>
    let verdict := Colour.red.paint "❌ Configuration validation failed:"
    { Outcome.ofLines false (head ++ adviceLines) [] with
      complaint := some s!"{verdict} {c.line}" }

section Perform

variable {m : Type → Type} [Monad m]

/-- The outcome of an attempt. -/
def performed (a : Attempt m Outcome) : m Outcome := do
  match ← a.run with
  | .ok outcome => return outcome
  | .error c => return .ofComplaint c

/-- The outcome of an action, with files read by the given function. -/
def perform (read : String → m Content) : Action → m Outcome
  | .candidates type files => performed do
    let e ← linterOf read files
    return showCandidates e (← orComplain (Descriptor.parse type))
  | .check name type files => performed do
    let e ← linterOf read files
    return checkName e name (← orComplain (Descriptor.parse type))
  | .lint subjects files form => performed do
    let e ← linterOf read files
    return lintSubjects e (← subjectsOf read subjects) form
  | .printDefaultConfig => return .ofLines true defaultConfigurationLines []
  | .validateConfig path detailed => do
    return showValidity path detailed (← (configurationAt read path).run)

/-- Keeps the remarks that are worth telling. -/
def Outcome.filterRemarks (verbose : Bool) (o : Outcome) : Outcome :=
  { o with remarks := o.remarks.filter fun
      | .warning _ => true
      | .detail _ => verbose }

/-- The outcome of arguments, in an environment and with files read by the given
function. -/
def outcomeOf (environment : String → Option String) (read : String → m Content)
    (arguments : List String) : m Outcome := do
  match Invocation.ofArguments environment arguments with
  | .error i => return .ofInterruption i
  | .ok i => return (← perform read i.action).filterRemarks i.verbose

end Perform

end Eponym.Command
