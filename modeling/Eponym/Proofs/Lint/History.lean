/-
# What a linter was asked before

All conventions of a linter share one session, so that what is found for one subject is
remembered when the next is checked.  It changes nothing: after any requests, a subject and a
batch of subjects are reported on as they are afresh.

* `found_eq` : what is found of a subject, convention by convention;
* `answers_check`, `answers_checkAll` : a session finds what is found afresh;
* `run_check_after`, `run_checkAll_after` : it does so after any requests.
-/
import Eponym.Lint.Linter
import Eponym.Proofs.Convention.BareName
import Eponym.Proofs.Convention.CollectionName
import Eponym.Proofs.Convention.ElementName

namespace Eponym

/-! ## Requests -/

/-- What a linter may be asked, itself or through what it checks names and looks up base names
with. -/
inductive Request where
  | check (s : Subject)
  | checkAll (subjects : List Subject)
  | candidates (d : Descriptor)
  | interfaceBaseNames (d : Descriptor)
  | checkName (name : String) (d : Descriptor) (line : Option UInt64)
  | checkNarrowed (name : String) (narrowed : Descriptor) (declared : Option Descriptor)
      (line : Option UInt64)
  | ask (q : Question)

namespace Linter

/-- Serves one request, of which only the effect on the session is of interest. -/
def serve (e : Linter) : Request → StateM Session Unit
  | .check s => discard (e.check s)
  | .checkAll subjects => discard (e.checkAll subjects)
  | .candidates d => discard (e.candidates d)
  | .interfaceBaseNames d => discard (e.interfaceBaseNames d)
  | .checkName name d line => discard (e.checkName name d line)
  | .checkNarrowed name narrowed declared line =>
    discard (TypedName.checkNarrowed (Session.source e.suggester) e.config.bareNameCheck
      name narrowed declared line)
  | .ask q => discard (Session.ask e.suggester q)

/-- The session of a linter that has served some requests since it was built. -/
def after (e : Linter) (requests : List Request) : Session :=
  ((requests.forM e.serve).run Session.new).2

/-! ## What is found afresh -/

/-- What the convention about types finds of a subject. -/
def foundOfType (r : Suggester) (bareCheck : Bool) : Subject → List Violation
  | .typed _ name d line => TypedName.found r bareCheck name d line
  | .promotedProperty name d declared line => TypedName.left r bareCheck name d declared line
  | .foreachValue .. => []

/-- What the convention about iterables finds of a subject. -/
def foundOfIterable (r : Suggester) : Subject → List Violation
  | .typed .property .. => []
  | .typed _ name d line => CollectionName.found r name d line
  | .promotedProperty .. => []
  | .foreachValue .. => []

/-- What the convention about elements finds of a subject. -/
def foundOfElement (r : Suggester) : Subject → List Violation
  | .typed .. => []
  | .promotedProperty .. => []
  | .foreachValue name iterable d line => ElementName.found r name iterable d line

/-- The violations of one subject, worked out afresh. -/
def found (e : Linter) (s : Subject) : List Violation := (e.checkWith e.suggester.source s).run

/-- The findings on a list of subjects, worked out afresh, the first subject having the given
place. -/
def findings (e : Linter) (index : Nat) (subjects : List Subject) : List Finding :=
  (subjects.zipIdx index).flatMap fun p => (e.found p.1).map fun v => ⟨p.2, p.1.name, v⟩

/-- A check that may be switched off gives what it finds, or nothing. -/
theorem run_when (enabled : Bool) (found : Id (List Violation)) :
    (when enabled found).run = if enabled then found.run else [] := by
  cases enabled with
  | true => rfl
  | false => rfl

/-- Of a subject each convention finds its own violations, unless it is switched off. -/
theorem found_eq (e : Linter) (s : Subject) :
    e.found s =
      (if e.config.toggles.typeSuffix then foundOfType e.suggester e.config.bareNameCheck s
        else []) ++
      (if e.config.toggles.iterablePlural then foundOfIterable e.suggester s else []) ++
      (if e.config.toggles.foreachValue then foundOfElement e.suggester s else []) := by
  have hnone : ∀ b : Bool, (if b then ([] : List Violation) else []) = [] := fun b => ite_self []
  cases s with
  | typed place name d line =>
    have htype := run_when e.config.toggles.typeSuffix
      (TypedName.check e.suggester.source e.config.bareNameCheck name d line)
    have hiterable := run_when e.config.toggles.iterablePlural
      (CollectionName.check e.suggester.source name d line)
    rw [foundOfElement, hnone, List.append_nil]
    cases place
    · exact congr (congrArg (· ++ ·) htype) hiterable
    · rw [foundOfIterable, hnone, List.append_nil]
      exact htype
    · exact congr (congrArg (· ++ ·) htype) hiterable
  | promotedProperty name d declared line =>
    rw [foundOfIterable, foundOfElement, hnone, hnone, List.append_nil, List.append_nil]
    exact run_when _ _
  | foreachValue name iterable d line =>
    rw [foundOfType, foundOfIterable, hnone, hnone, List.nil_append, List.nil_append]
    exact run_when _ _

/-! ## What a session finds -/

section Answers

variable {e : Linter}

/-- A check that may be switched off asks what it asks, or nothing. -/
theorem answers_when {r : Suggester} {m : StateM Session (List Violation)}
    {a : Id (List Violation)} (enabled : Bool) (hm : Session.Answers r m a.run) :
    Session.Answers r (when enabled m) (when enabled a).run := by
  cases enabled with
  | true => exact hm
  | false => exact Session.answers_pure []

/-- What two actions find may be put together. -/
theorem answers_append {α : Type} {r : Suggester} {m m' : StateM Session (List α)}
    {a a' : List α} (hm : Session.Answers r m a) (hm' : Session.Answers r m' a') :
    Session.Answers r (do let x ← m; let y ← m'; return x ++ y) (a ++ a') :=
  hm.bind (hm'.map fun y => a ++ y)

/-- A session finds the violations of a subject that are found afresh. -/
theorem answers_check (s : Subject) : Session.Answers e.suggester (e.check s) (e.found s) := by
  cases s with
  | typed place name d line =>
    have htype := answers_when e.config.toggles.typeSuffix
      (TypedName.answers_check (r := e.suggester) e.config.bareNameCheck name d line)
    have hboth := answers_append htype (answers_when e.config.toggles.iterablePlural
      (CollectionName.answers_check name d line))
    cases place
    · exact hboth
    · exact htype
    · exact hboth
  | promotedProperty name d declared line =>
    exact answers_when _ (TypedName.answers_checkNarrowed _ name d declared line)
  | foreachValue name iterable d line =>
    exact answers_when _ (ElementName.answers_check name iterable d line)

/-- A session finds the findings on a list of subjects that are found afresh. -/
theorem answers_findingsWith (index : Nat) (subjects : List Subject) :
    Session.Answers e.suggester
      (e.findingsWith (Session.source e.suggester) index subjects) (e.findings index subjects) := by
  induction subjects generalizing index with
  | nil => exact Session.answers_pure []
  | cons s ss ih =>
    exact answers_append ((answers_check s).map fun vs => vs.map fun v => ⟨index, s.name, v⟩)
      (ih (index + 1))

/-- A session reports on a batch as is reported afresh. -/
theorem answers_checkAll (subjects : List Subject) :
    Session.Answers e.suggester (e.checkAll subjects)
      ⟨subjects.length, e.findings 0 subjects⟩ :=
  (answers_findingsWith 0 subjects).map (Report.mk subjects.length)

/-- Every request is answered in some way that does not depend on what was asked before. -/
theorem answers_serve (q : Request) : Session.Answers e.suggester (e.serve q) () := by
  cases q with
  | check s => exact (answers_check s).map fun _ => ()
  | checkAll subjects => exact (answers_checkAll subjects).map fun _ => ()
  | candidates d => exact ((Session.answers_suggest d).map sorted).map fun _ => ()
  | interfaceBaseNames d => exact (Session.answers_interfaceBaseNames d).map fun _ => ()
  | checkName name d line => exact (TypedName.answers_check _ name d line).map fun _ => ()
  | checkNarrowed name narrowed declared line =>
    exact (TypedName.answers_checkNarrowed _ name narrowed declared line).map fun _ => ()
  | ask q => exact (Session.answers_ask q).map fun _ => ()

end Answers

/-! ## What is found after any requests -/

/-- No requests make a linter remember what is not so. -/
theorem remembers_after (e : Linter) (requests : List Request) :
    Session.Remembers e.suggester (e.after requests) :=
  (Session.answers_forM answers_serve requests _ (Session.remembers_new _)).2

/-- After any requests, what is found of a subject is what is found afresh. -/
theorem run_check_after (e : Linter) (requests : List Request) (s : Subject) :
    ((e.check s).run (e.after requests)).1 = e.found s :=
  (answers_check s _ (e.remembers_after requests)).1

/-- After any requests, a batch is reported on as it is afresh. -/
theorem run_checkAll_after (e : Linter) (requests : List Request) (subjects : List Subject) :
    ((e.checkAll subjects).run (e.after requests)).1 =
      ⟨subjects.length, e.findings 0 subjects⟩ :=
  (answers_checkAll subjects _ (e.remembers_after requests)).1

end Linter

end Eponym
