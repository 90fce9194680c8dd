/-
# Files

Configurations, type models and batches of subjects are kept in files.  The
extension of the path tells the format: JSON for `json`, YAML for anything else.

* `decodeText_eq_ok_iff` : a text is decoded if it is well-formed and what it says can be;
* `Format.ofPath_eq_json_iff` : which files are read as JSON.
-/
import Eponym.Data.Json.Reader
import Eponym.Data.Yaml.Writer
import Eponym.Schema.Configuration
import Eponym.Schema.Subject
import Eponym.Schema.TypeModel
import Eponym.TypeModel.Builtin

namespace Eponym

open Data

/-! ## Paths -/

/-- The parts of a path between slashes. -/
def pathParts (path : List Char) : List (List Char) := path.splitBy fun a b => a ≠ '/' && b ≠ '/'

/-- The last part of a path that names something. -/
def fileName? (path : String) : Option (List Char) :=
  match ((pathParts path.toList).filter fun p => p ≠ ['/'] && p ≠ ['.']).getLast? with
  | some name => if name = ['.', '.'] then none else some name
  | none => none

/-- What follows the last dot of a file name, unless that dot is its first character. -/
def extension? (path : String) : Option String :=
  match fileName? path with
  | none => none
  | some name =>
    let reversed := name.reverse
    let stem := (reversed.dropWhile (· ≠ '.')).drop 1
    if stem = [] then none else some (String.ofList (reversed.takeWhile (· ≠ '.')).reverse)

/-- The format of a file. -/
def Format.ofPath (path : String) : Format :=
  if extension? path = some "json" then .json else .yaml

/-- A file is read as JSON if its extension is `json`. -/
theorem Format.ofPath_eq_json_iff {path : String} :
    ofPath path = json ↔ extension? path = some "json" := by
  simp only [ofPath]
  split <;> simp_all

/-! ## Texts -/

/-- The data that a text stands for. -/
def Format.read : Format → String → Option Value
  | json, s => Json.read s
  | yaml, s => Yaml.read s

/-- What a text in the given format says. -/
def decodeText {α : Type} (d : Decoder α) (format : Format) (s : String) : Except Fault α :=
  match format.read s with
  | none => .error (.serialization format none)
  | some v => match d v with
    | .ok a => .ok a
    | .error fault => .error (.serialization format fault.reason?)

theorem decodeText_eq_ok_iff {α : Type} {d : Decoder α} {format : Format} {s : String} {a : α} :
    decodeText d format s = .ok a ↔ ∃ v, format.read s = some v ∧ d v = .ok a := by
  simp only [decodeText]
  cases h : format.read s with
  | none => simp
  | some v => cases hd : d v <;> simp [hd]

/-! ## Contents -/

/-- Why a file cannot be read or written. -/
inductive FileFailure where
  | missing
  | directory
  | notText
  | other (report : String)
  deriving DecidableEq

/-- The text that tells why a file cannot be read or written. -/
def FileFailure.message : FileFailure → String
  | missing => "No such file or directory (os error 2)"
  | directory => "Is a directory (os error 21)"
  | notText => "stream did not contain valid UTF-8"
  | other report => report

/-- The text in a file, or why it cannot be read. -/
abbrev Content := Except FileFailure String

/-- What a file in the given format says, the file being described by the given words. -/
def decodeFile {α : Type} (d : Decoder α) (format : Format) (description path : String) :
    Content → Except Fault α
  | .error failure =>
    .error (.io s!"Failed to read {description}: {path}" failure.message)
  | .ok s => decodeText d format s

namespace Configuration

/-- The configuration that a text says, read from a file with the given path. -/
def ofText (path s : String) : Except Fault Configuration := decodeText decode (.ofPath path) s

/-- The configuration in a file. -/
def ofFile (path : String) (content : Content) : Except Fault Configuration :=
  decodeFile decode (.ofPath path) "config file" path content

/-- The configuration in a file that is YAML whatever its path. -/
def ofYamlFile (path : String) (content : Content) : Except Fault Configuration :=
  decodeFile decode .yaml "config file" path content

/-- The text of a configuration in YAML. -/
def toYaml (c : Configuration) : String := Yaml.write c.encode

/-- The text that is written to the file with the given path, unless that fails. -/
def toFile (path : String) (failure : Option FileFailure) (c : Configuration) :
    Except Fault String :=
  match failure with
  | some f => .error (.io s!"Failed to write config file: {path}" f.message)
  | none => .ok c.toYaml

end Configuration

/-- The types of the runtime and those declared in a file. -/
def Catalogue.ofFile (path : String) (content : Content) : Except Fault Catalogue := do
  builtins.tryExtend
    (← decodeFile Declaration.decodeModel (.ofPath path) "type model" path content)

/-- The subjects in a file. -/
def Subject.batchOfFile (path : String) (content : Content) : Except Fault (List Subject) :=
  decodeFile decodeBatch (.ofPath path) "subjects file" path content

end Eponym
