/-
# Configuration

What a run leaves out of account and which conventions it checks.
-/
import Eponym.Denied
import Eponym.Fault
import Eponym.Text.Blank

namespace Eponym

/-- Which conventions are checked. -/
structure Toggles where
  typeSuffix : Bool
  iterablePlural : Bool
  foreachValue : Bool
  deriving DecidableEq

/-- All conventions are checked. -/
def Toggles.all : Toggles := ⟨true, true, true⟩

/-- What is denied, whether bare names of interfaces are reported, and what is checked. -/
structure NamingConfig where
  deniedTypes : List String
  deniedBases : List String
  bareNameCheck : Bool
  toggles : Toggles
  deriving DecidableEq

/-- A configuration file. -/
structure Configuration where
  naming : NamingConfig
  deriving DecidableEq

namespace NamingConfig

/-- Nothing is denied, bare names are let pass, and all conventions are checked. -/
def default : NamingConfig := ⟨[], [], false, .all⟩

/-- The deny list that the configuration describes. -/
def denied (c : NamingConfig) : Denied := .ofEntries c.deniedTypes c.deniedBases

/-- The remarks on the entries of the deny list. -/
def notices (c : NamingConfig) : List Notice := Denied.notices c.deniedTypes c.deniedBases

/-! ## Conditions -/

/-- What is wrong with an entry of a deny list. -/
inductive EntryFlaw where
  | empty
  | blankInside (entry : String)
  deriving DecidableEq

/-- The text that reports a flaw. -/
def EntryFlaw.message : EntryFlaw → String
  | empty => "Deny-list entries cannot be empty"
  | blankInside entry => s!"Deny-list entry `{entry}` contains whitespace"

/-- The flaw of an entry, if it has one. -/
def entryFlaw? (entry : String) : Option EntryFlaw :=
  if Text.isBlankText entry then some .empty
  else if Text.containsBlank entry then some (.blankInside entry)
  else none

/-- The report of the first flawed entry of a list, the first having the given place. -/
def entriesFault? (field : String) (index : Nat) : List String → Option Fault
  | [] => none
  | e :: es => match entryFlaw? e with
    | some flaw => some (.validation flaw.message (some s!"{field}[{index}]"))
    | none => entriesFault? field (index + 1) es

/-- The report of the first flawed entry, denied types before denied base names. -/
def fault? (c : NamingConfig) : Option Fault :=
  (entriesFault? "naming.deny_type_names" 0 c.deniedTypes).or
    (entriesFault? "naming.deny_candidate_names" 0 c.deniedBases)

/-- The configuration itself if it is valid. -/
def validated (c : NamingConfig) : Except Fault NamingConfig :=
  match c.fault? with
  | some fault => .error fault
  | none => .ok c

end NamingConfig

namespace Configuration

/-- The configuration that holds if none is given. -/
def default : Configuration := ⟨.default⟩

/-- The report of what is wrong with the configuration. -/
def fault? (c : Configuration) : Option Fault := c.naming.fault?

end Configuration

end Eponym
