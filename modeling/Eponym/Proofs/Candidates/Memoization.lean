/-
# Memories do not change answers

A session may be asked in any order for lineages, candidates of a type name or of
a descriptor, base names of interfaces, and reflections, and it may start from
lineages that were found before.  Whatever was asked before, each answer is the one
that is worked out without any memory.

* `Remembers` : what a session remembers is what it would find now;
* `answers_ask` : one question keeps that, and is answered as without a memory;
* `converse_eq_afresh` : so is every question of a conversation;
* `Answers.run_after` : so is whatever is asked after one.
-/
import Eponym.Candidates.Session
import Eponym.Proofs.FirstSeen

namespace Eponym

/-! ## Answers without a memory -/

/-- The types among which a type name is looked for, as they are met: the name alone if
nothing is known of it, nothing for a type of the runtime, else the reflected name, the
parents outside the runtime and the interfaces outside it. -/
def Knowledge.hierarchy (o : Knowledge) (n : TypeName) : List TypeName :=
  match o.reflect n.text with
  | none => [n]
  | some r =>
    if r.builtin then []
    else .ofString r.name ::
      ((r.parents.filter fun t => !t.builtin).map (fun t => .ofString t.name) ++
        (r.interfaces.filter fun t => !t.builtin).map fun t => .ofString t.name)

namespace Suggester

/-- The base names that a type name contributes, in the order met and with repetitions. -/
def contribution (r : Suggester) (n : TypeName) : List String :=
  (r.knowledge.hierarchy n).flatMap fun m =>
    if r.denied.deniesType m.text then []
    else m.baseNames.filter fun b => !r.denied.deniesBase b

/-- The base names that a type name suggests, worked out afresh. -/
def candidatesAfresh (r : Suggester) (n : TypeName) : List String := (r.contribution n).eraseDups

/-- The base names that a descriptor suggests, worked out afresh: the named members in
order, those of the runtime and the denied ones passed over, and of all that the others
contribute the first occurrences. -/
def suggestAfresh (r : Suggester) (d : Descriptor) : List String :=
  (d.namedMembers.flatMap fun t =>
    if t.builtin || r.denied.deniesType t.name.text then [] else r.contribution t.name).eraseDups

end Suggester

/-- A lineage lists the hierarchy of a type, each name once. -/
theorem Knowledge.members_lineage (o : Knowledge) (n : TypeName) :
    (o.lineage n).members = (o.hierarchy n).eraseDups := by
  unfold Knowledge.lineage Knowledge.hierarchy
  cases o.reflect n.text with
  | none => rfl
  | some r =>
    show r.userTypes.eraseDups = _
    unfold Reflection.userTypes
    rw [List.filter_append, List.map_append]

namespace Suggester

/-- The candidates of a type name are what it contributes, each base name once. -/
theorem candidatesOf_eq_afresh (r : Suggester) (n : TypeName) :
    r.candidatesOf n = r.candidatesAfresh n := by
  show ((((r.knowledge.lineage n).members.filter fun m =>
    !r.denied.deniesType m.text).flatMap TypeName.baseNames).filter fun b =>
      !r.denied.deniesBase b).eraseDups = (r.contribution n).eraseDups
  -- what is denied may be passed over before repetitions are
  rw [r.knowledge.members_lineage n, flatMap_filter_eq, List.filter_flatMap,
    eraseDups_flatMap_eraseDups]
  unfold contribution
  congr 2
  funext m
  by_cases h : r.denied.deniesType m.text = true <;> simp [h]

/-- What a descriptor suggests is what its members contribute, each base name once. -/
theorem suggest_eq_afresh (r : Suggester) (d : Descriptor) : r.suggest d = r.suggestAfresh d := by
  unfold suggest suggestAfresh constraining
  rw [flatMap_filter_eq]
  -- only the first occurrences count, so each member may be gone through on its own
  refine eraseDups_flatMap_congr fun t _ => ?_
  by_cases h : r.excludes t
  · have h' : (t.builtin || r.denied.deniesType t.name.text) = true := h
    rw [if_neg (by simp [h]), if_pos h']
  · have h' : ¬ (t.builtin || r.denied.deniesType t.name.text) = true := h
    rw [if_pos (by simp [h]), if_neg h', candidatesOf_eq_afresh]
    exact eraseDups_eraseDups _

end Suggester

/-! ## Memories -/

/-- A memory of what is so stays one when another such entry is made. -/
theorem Memory.remember_sound {α : Type} {m : Memory α} {f : TypeName → α}
    (hm : ∀ n a, m.find? n = some a → a = f n) {k n : TypeName} {a : α}
    (h : (m.remember k (f k)).find? n = some a) : a = f n := by
  rw [find?_remember] at h
  by_cases hn : n = k
  · rw [if_pos hn] at h
    rw [hn]
    exact (Option.some.inj h).symm
  · rw [if_neg hn] at h
    exact hm n a h

/-! ## Questions -/

/-- What a session may be asked. -/
inductive Question where
  | expand (n : TypeName)
  | candidatesOf (n : TypeName)
  | suggest (d : Descriptor)
  | interfaceBaseNames (d : Descriptor)
  | reflect (name : String)

/-- What a session answers. -/
inductive Reply where
  | lineage (members : List TypeName)
  | baseNames (names : List String)
  | interfaces (names : List (String × String))
  | reflection (r : Option Reflection)
  deriving DecidableEq

/-- The answer to a question, worked out afresh. -/
def Suggester.afresh (r : Suggester) : Question → Reply
  | .expand n => .lineage (r.knowledge.hierarchy n).eraseDups
  | .candidatesOf n => .baseNames (r.candidatesAfresh n)
  | .suggest d => .baseNames (r.suggestAfresh d)
  | .interfaceBaseNames d => .interfaces (r.interfaceBaseNames d)
  | .reflect name => .reflection (r.knowledge.reflect name)

namespace Session

/-- Asks a session one question. -/
def ask (r : Suggester) : Question → StateM Session Reply
  | .expand n => do return .lineage (← expand r.knowledge n).members
  | .candidatesOf n => do return .baseNames (← candidatesOf r n)
  | .suggest d => do return .baseNames (← suggest r d)
  | .interfaceBaseNames d => do return .interfaces (← interfaceBaseNames r d)
  | .reflect name => do return .reflection (← reflect r.knowledge name)

/-- Asks a session several questions, one after the other. -/
def converse (r : Suggester) (qs : List Question) : StateM Session (List Reply) := qs.mapM (ask r)

/-- The session of a suggester that is set up over lineages found before: they stay, and
nothing is known of candidates yet. -/
def takeOver (s : Session) : Session := { s with candidates := [], hits := 0, misses := 0 }

/-- The session of a suggester set up after the lineages of some names were asked for. -/
def warmed (o : Knowledge) (names : List TypeName) : Session :=
  ((names.forM fun n => discard (expand o n)).run new).2.takeOver

/-! ## What a session remembers -/

/-- A session remembers only what it would find if it asked again. -/
structure Remembers (r : Suggester) (s : Session) : Prop where
  lineage : ∀ n l, s.lineages.find? n = some l → l = r.knowledge.lineage n
  candidates : ∀ n bs, s.candidates.find? n = some bs → bs = r.candidatesOf n

/-- A session that remembers only what is so answers in the given way, and is then still
such a session. -/
def Answers {α : Type} (r : Suggester) (m : StateM Session α) (a : α) : Prop :=
  ∀ s, Remembers r s → (m.run s).1 = a ∧ Remembers r (m.run s).2

section Answers

variable {α β : Type} {r : Suggester}

theorem answers_pure (a : α) : Answers r (pure a) a := fun _ h => ⟨rfl, h⟩

/-- Actions follow one another. -/
theorem Answers.bind {m : StateM Session α} {f : α → StateM Session β} {a : α} {b : β}
    (hm : Answers r m a) (hf : Answers r (f a) b) : Answers r (m >>= f) b := by
  intro s hs
  obtain ⟨ha, hs'⟩ := hm s hs
  have hb := hf (m.run s).2 hs'
  rw [← ha] at hb
  exact hb

theorem Answers.map {m : StateM Session α} {a : α} (hm : Answers r m a) (f : α → β) :
    Answers r (do return f (← m)) (f a) :=
  hm.bind (answers_pure (f a))

theorem Answers.ite {p : Prop} [Decidable p] {m m' : StateM Session α} {a a' : α}
    (hm : Answers r m a) (hm' : Answers r m' a') :
    Answers r (if p then m else m') (if p then a else a') := by
  split
  · exact hm
  · exact hm'

/-- Several questions of one kind are answered one by one. -/
theorem answers_mapM {f : α → StateM Session β} {g : α → β} (hf : ∀ x, Answers r (f x) (g x))
    (xs : List α) : Answers r (xs.mapM f) (xs.map g) := by
  induction xs with
  | nil => exact answers_pure []
  | cons x xs ih =>
    rw [List.mapM_cons]
    exact (hf x).bind (ih.bind (answers_pure _))

/-- Several actions of one kind that each keep to what is so do so one after the other. -/
theorem answers_forM {f : α → StateM Session Unit} (hf : ∀ x, Answers r (f x) ()) (xs : List α) :
    Answers r (xs.forM f) () := by
  induction xs with
  | nil => exact answers_pure ()
  | cons x xs ih => exact (hf x).bind ih

/-- Only the two memories count. -/
theorem Remembers.congr {s t : Session} (hs : Remembers r s) (hl : t.lineages = s.lineages)
    (hc : t.candidates = s.candidates) : Remembers r t :=
  ⟨fun n l h => hs.lineage n l (hl ▸ h), fun n bs h => hs.candidates n bs (hc ▸ h)⟩

/-- The lineage of a name may be entered under it. -/
theorem Remembers.enterLineage {s t : Session} (hs : Remembers r s) (n : TypeName)
    (hl : t.lineages = s.lineages.remember n (r.knowledge.lineage n))
    (hc : t.candidates = s.candidates) : Remembers r t := by
  refine ⟨fun m l h => ?_, fun m bs h => hs.candidates m bs (hc ▸ h)⟩
  rw [hl] at h
  exact Memory.remember_sound hs.lineage h

/-- The candidates of a name may be entered under it. -/
theorem Remembers.enterCandidates {s t : Session} (hs : Remembers r s) (n : TypeName)
    (hl : t.lineages = s.lineages)
    (hc : t.candidates = s.candidates.remember n (r.candidatesOf n)) : Remembers r t := by
  refine ⟨fun m l h => hs.lineage m l (hl ▸ h), fun m bs h => ?_⟩
  rw [hc] at h
  exact Memory.remember_sound hs.candidates h

/-! ## Single questions -/

theorem answers_reflect (name : String) :
    Answers r (reflect r.knowledge name) (r.knowledge.reflect name) := by
  intro s hs
  exact ⟨rfl, hs.congr rfl rfl⟩

/-- A lineage that is remembered is given as it is. -/
theorem run_expand_of_found {o : Knowledge} {n : TypeName} {s : Session} {l : Lineage}
    (h : s.lineages.find? n = some l) : (expand o n).run s = (l, s) := by
  unfold expand
  rw [StateT.run_bind, StateT.run_get, pure_bind, h]
  rfl

/-- A lineage that is not remembered is worked out and entered. -/
theorem run_expand_of_missing {o : Knowledge} {n : TypeName} {s : Session}
    (h : s.lineages.find? n = none) :
    (expand o n).run s = (o.lineage n,
      { s with
        lineages := s.lineages.remember n (o.lineage n)
        expansions := s.expansions + 1
        reflections := s.reflections + 1
        notices := s.notices ++ o.notices n.text }) := by
  unfold expand
  rw [StateT.run_bind, StateT.run_get, pure_bind, h]
  rfl

/-- A lineage is the same found and remembered. -/
theorem answers_expand (n : TypeName) :
    Answers r (expand r.knowledge n) (r.knowledge.lineage n) := by
  intro s hs
  cases h : s.lineages.find? n with
  | some l =>
    rw [run_expand_of_found h]
    exact ⟨hs.lineage n l h, hs⟩
  | none =>
    rw [run_expand_of_missing h]
    exact ⟨rfl, hs.enterLineage n rfl rfl⟩

/-- Candidates that are remembered are given as they are. -/
theorem run_candidatesOf_of_found {n : TypeName} {s : Session} {bs : List String}
    (h : s.candidates.find? n = some bs) :
    (candidatesOf r n).run s = (bs, { s with hits := s.hits + 1 }) := by
  unfold candidatesOf
  rw [StateT.run_bind, StateT.run_get, pure_bind, h]
  rfl

/-- Candidates that are not remembered are worked out from the lineage and entered. -/
theorem run_candidatesOf_of_missing {n : TypeName} {s t : Session} {l : Lineage}
    (h : s.candidates.find? n = none)
    (he : (expand r.knowledge n).run { s with misses := s.misses + 1 } = (l, t)) :
    (candidatesOf r n).run s = (r.candidatesFrom l.members,
      { t with candidates := t.candidates.remember n (r.candidatesFrom l.members) }) := by
  unfold candidatesOf
  rw [StateT.run_bind, StateT.run_get, pure_bind, h]
  show (let p := (expand r.knowledge n).run { s with misses := s.misses + 1 }
    (r.candidatesFrom p.1.members,
      { p.2 with candidates := p.2.candidates.remember n (r.candidatesFrom p.1.members) })) = _
  rw [he]

/-- Candidates are the same found and remembered. -/
theorem answers_candidatesOf (n : TypeName) :
    Answers r (candidatesOf r n) (r.candidatesOf n) := by
  intro s hs
  cases h : s.candidates.find? n with
  | some bs =>
    rw [run_candidatesOf_of_found h]
    exact ⟨hs.candidates n bs h, hs.congr rfl rfl⟩
  | none =>
    -- the lineage is asked for in a session that differs by one miss
    have hmiss : Remembers r { s with misses := s.misses + 1 } := hs.congr rfl rfl
    obtain ⟨hl, ht⟩ := answers_expand n _ hmiss
    rcases he : (expand r.knowledge n).run { s with misses := s.misses + 1 } with ⟨l, t⟩
    rw [he] at hl ht
    rw [run_candidatesOf_of_missing h he]
    have hfound : r.candidatesFrom l.members = r.candidatesOf n := by
      show r.candidatesFrom l.members = r.candidatesFrom (r.knowledge.lineage n).members
      rw [show l = r.knowledge.lineage n from hl]
    rw [hfound]
    exact ⟨rfl, ht.enterCandidates n rfl rfl⟩

theorem answers_suggest (d : Descriptor) : Answers r (suggest r d) (r.suggest d) := by
  have h := answers_mapM (r := r) (f := fun t : NamedType => candidatesOf r t.name)
    (fun t => answers_candidatesOf t.name) (r.constraining d)
  exact h.map fun found => found.flatten.eraseDups

/-- The base names of interfaces are not remembered at all. -/
theorem answers_interfaceBaseNames (d : Descriptor) :
    Answers r (interfaceBaseNames r d) (r.interfaceBaseNames d) := by
  have h := answers_mapM (r := r)
    (f := fun t : NamedType => do return r.bareNames (← reflect r.knowledge t.name.text))
    (fun t => (answers_reflect t.name.text).map r.bareNames) (r.constraining d)
  exact h.map fun found => distinctBy Prod.fst found.flatten

/-- One question is answered as without a memory. -/
theorem answers_ask (q : Question) : Answers r (ask r q) (r.afresh q) := by
  cases q with
  | expand n =>
    have h := (answers_expand (r := r) n).map fun l => Reply.lineage l.members
    rw [r.knowledge.members_lineage n] at h
    exact h
  | candidatesOf n =>
    have h := (answers_candidatesOf (r := r) n).map Reply.baseNames
    rw [r.candidatesOf_eq_afresh n] at h
    exact h
  | suggest d =>
    have h := (answers_suggest (r := r) d).map Reply.baseNames
    rw [r.suggest_eq_afresh d] at h
    exact h
  | interfaceBaseNames d => exact (answers_interfaceBaseNames d).map Reply.interfaces
  | reflect name => exact (answers_reflect name).map Reply.reflection

end Answers

/-! ## Conversations -/

theorem remembers_new (r : Suggester) : Remembers r new :=
  ⟨fun _ _ h => (nomatch h), fun _ _ h => (nomatch h)⟩

/-- What a suggester takes over from an earlier session is so. -/
theorem Remembers.takeOver {r : Suggester} {s : Session} (hs : Remembers r s) :
    Remembers r s.takeOver :=
  ⟨hs.lineage, fun _ _ h => (nomatch h)⟩

/-- Names may be asked about before a suggester is set up. -/
theorem remembers_warmed (r : Suggester) (names : List TypeName) :
    Remembers r (warmed r.knowledge names) := by
  have h : ∀ n, Answers r (discard (expand r.knowledge n)) () := fun n =>
    (answers_expand n).map fun _ => ()
  exact (answers_forM h names new (remembers_new r)).2.takeOver

/-- The session of a suggester that was set up after the lineages of some names were asked
for, and has been asked some questions since. -/
def after (r : Suggester) (names : List TypeName) (qs : List Question) : Session :=
  ((converse r qs).run (warmed r.knowledge names)).2

/-- No conversation makes a session remember what is not so. -/
theorem remembers_after (r : Suggester) (names : List TypeName) (qs : List Question) :
    Remembers r (after r names qs) :=
  (answers_mapM answers_ask qs _ (remembers_warmed r names)).2

/-- After any conversation a session gives the answer that it would give afresh. -/
theorem Answers.run_after {α : Type} {r : Suggester} {m : StateM Session α} {a : α}
    (h : Answers r m a) (names : List TypeName) (qs : List Question) :
    (m.run (after r names qs)).1 = a :=
  (h _ (remembers_after r names qs)).1

/-- Whatever was asked before, and whatever lineages were found before the suggester was
set up, each question is answered as without a memory. -/
theorem converse_eq_afresh (r : Suggester) (names : List TypeName) (qs : List Question) :
    ((converse r qs).run (warmed r.knowledge names)).1 = qs.map r.afresh :=
  (answers_mapM answers_ask qs _ (remembers_warmed r names)).1

end Session

end Eponym
