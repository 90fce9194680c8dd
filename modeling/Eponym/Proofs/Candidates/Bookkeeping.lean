/-
# What a session counts

A session counts how often candidates were asked for and were remembered or not, how many
lineages it worked out, and how often it asked what is known of a type.  The counts follow from
the questions alone: each lineage and each list of candidates is worked out once for a name, in
the spelling that was asked for, and only a lineage that is worked out, a question for the base
names of interfaces and a question for a type itself lead to a reflection.

* `Memory.Holds` : the names that a memory has an entry for;
* `Tallies` : the counts and memories of a session fit the calls that were made;
* `records_ask` : one question adds the calls that it leads to;
* `counts_exact` : the counts after any conversation.
-/
import Eponym.Proofs.Candidates.Memoization

namespace Eponym

/-! ## Calls -/

/-- What is asked of the memories of a session, or of the knowledge of types without them. -/
inductive Call where
  | expand (n : TypeName)
  | candidatesOf (n : TypeName)
  | reflect
  deriving DecidableEq

namespace Call

/-- The name whose candidates are asked for. -/
def asked? : Call → Option TypeName
  | candidatesOf n => some n
  | expand _ | reflect => none

/-- The name whose lineage is asked for, be it by the call itself or because it is the first to
ask for the candidates of the name. -/
def expanded? : Call → Option TypeName
  | expand n | candidatesOf n => some n
  | reflect => none

/-- Where candidates are asked for, a lineage is. -/
theorem expanded?_of_asked? {c : Call} {n : TypeName} (h : c.asked? = some n) :
    c.expanded? = some n := by
  cases c with
  | expand m => exact nomatch h
  | candidatesOf m => exact h
  | reflect => exact nomatch h

end Call

/-- The calls that a question leads to.  A descriptor leads to one for each member that is
neither denied nor of the runtime. -/
def Question.calls (r : Suggester) : Question → List Call
  | expand n => [.expand n]
  | candidatesOf n => [.candidatesOf n]
  | suggest d => (r.constraining d).map fun t => .candidatesOf t.name
  | interfaceBaseNames d => (r.constraining d).map fun _ => .reflect
  | reflect _ => [.reflect]

/-! ## Entries of a memory -/

namespace Memory

variable {α : Type} {m : Memory α} {names : List TypeName} {n : TypeName}

/-- The memory has one entry for each of the names, which may be given repeatedly, and no
other. -/
structure Holds (m : Memory α) (names : List TypeName) : Prop where
  nodup : (m.map Prod.fst).Nodup
  mem_iff : ∀ n, n ∈ m.map Prod.fst ↔ n ∈ names

/-- Nothing is found exactly for the names that have no entry. -/
theorem find?_eq_none_iff : m.find? n = none ↔ n ∉ m.map Prod.fst := by
  rw [find?, List.lookup_eq_none_iff, List.mem_map]
  constructor
  · rintro h ⟨p, hp, rfl⟩
    exact absurd (h p hp) (by simp)
  · intro h p hp
    rw [bne_iff_ne]
    rintro rfl
    exact h ⟨p, hp, rfl⟩

theorem Holds.find?_eq_none_iff (h : m.Holds names) : m.find? n = none ↔ n ∉ names := by
  rw [Memory.find?_eq_none_iff, h.mem_iff]

/-- Something is found only for a name that was given. -/
theorem Holds.mem_of_find? (h : m.Holds names) {a : α} (hn : m.find? n = some a) :
    n ∈ names := by
  refine Decidable.byContradiction fun hno => ?_
  rw [h.find?_eq_none_iff.2 hno] at hn
  exact nomatch hn

theorem holds_nil : Holds ([] : Memory α) [] := ⟨List.nodup_nil, fun _ => Iff.rfl⟩

/-- A name that has an entry may be given again. -/
theorem Holds.again (h : m.Holds names) (hn : n ∈ names) : m.Holds (names ++ [n]) := by
  refine ⟨h.nodup, fun k => ?_⟩
  rw [h.mem_iff, List.mem_append, List.mem_singleton]
  constructor
  · exact Or.inl
  · rintro (hk | rfl)
    · exact hk
    · exact hn

/-- An entry may be made for a name that has none. -/
theorem Holds.remember (h : m.Holds names) (hn : m.find? n = none) (a : α) :
    (m.remember n a).Holds (names ++ [n]) := by
  have hkeys : (m.remember n a).map Prod.fst = n :: m.map Prod.fst := rfl
  refine ⟨?_, fun k => ?_⟩
  · rw [hkeys]
    exact List.nodup_cons.2 ⟨Memory.find?_eq_none_iff.1 hn, h.nodup⟩
  · rw [hkeys, List.mem_cons, h.mem_iff, List.mem_append, List.mem_singleton, or_comm]

theorem Holds.length_eq (h : m.Holds names) : m.length = names.eraseDups.length := by
  have hperm : (m.map Prod.fst).Perm names.eraseDups := by
    refine (List.perm_ext_iff_of_nodup h.nodup (nodup_eraseDups names)).2 fun k => ?_
    rw [h.mem_iff, List.mem_eraseDups]
  rw [← hperm.length_eq, List.length_map]

end Memory

namespace Session

/-! ## Counts that fit -/

/-- A session has worked out the lineages of the given names, each once, and has asked for so
many reflections apart from these. -/
structure Expanded (s : Session) (names : List TypeName) (apart : Nat) : Prop where
  holds : s.lineages.Holds names
  expansions : s.expansions = s.lineages.length
  reflections : s.reflections = s.lineages.length + apart

/-- A session was asked for the candidates of the given names, and has worked them out each
time that a name was new. -/
structure Asked (s : Session) (names : List TypeName) : Prop where
  holds : s.candidates.Holds names
  misses : s.misses = s.candidates.length
  hits : s.hits + s.misses = names.length

/-- What a session remembers and has counted fits the calls that were made. -/
structure Tallies (s : Session) (made : List Call) : Prop where
  expanded : Expanded s (made.filterMap Call.expanded?) (made.count .reflect)
  asked : Asked s (made.filterMap Call.asked?)

section Steps

variable {r : Suggester} {o : Knowledge} {s t : Session} {names : List TypeName} {apart : Nat}
  {n : TypeName}

/-- A lineage that is asked for is there afterwards, and only a new one is worked out. -/
theorem Expanded.expand (h : Expanded s names apart) (n : TypeName) :
    Expanded ((expand o n).run s).2 (names ++ [n]) apart := by
  cases hn : s.lineages.find? n with
  | some l =>
    rw [run_expand_of_found hn]
    exact ⟨h.holds.again (h.holds.mem_of_find? hn), h.expansions, h.reflections⟩
  | none =>
    rw [run_expand_of_missing hn]
    have hlength : (s.lineages.remember n (o.lineage n)).length = s.lineages.length + 1 := rfl
    refine ⟨h.holds.remember hn _, ?_, ?_⟩
    · show s.expansions + 1 = (s.lineages.remember n (o.lineage n)).length
      rw [hlength, h.expansions]
    · show s.reflections + 1 = (s.lineages.remember n (o.lineage n)).length + apart
      rw [hlength, h.reflections]
      omega

/-- To ask for a lineage does not touch the candidates, nor how often they were missing. -/
theorem run_expand_with (o : Knowledge) (n : TypeName) (s : Session) (misses : Nat) :
    (expand o n).run { s with misses } =
      (((expand o n).run s).1, { ((expand o n).run s).2 with misses }) := by
  cases hn : s.lineages.find? n with
  | some l =>
    rw [run_expand_of_found hn]
    exact run_expand_of_found hn
  | none =>
    rw [run_expand_of_missing hn]
    exact run_expand_of_missing hn

/-- What was asked of the candidates stays as it is when a lineage is asked for. -/
theorem run_expand_frame (o : Knowledge) (n : TypeName) (s : Session) :
    ((expand o n).run s).2.candidates = s.candidates ∧
      ((expand o n).run s).2.hits = s.hits ∧ ((expand o n).run s).2.misses = s.misses := by
  cases hn : s.lineages.find? n with
  | some l =>
    rw [run_expand_of_found hn]
    exact ⟨rfl, rfl, rfl⟩
  | none =>
    rw [run_expand_of_missing hn]
    exact ⟨rfl, rfl, rfl⟩

/-- Only the candidates and how often they were asked for count. -/
theorem Asked.congr (h : Asked s names) (hc : t.candidates = s.candidates)
    (hh : t.hits = s.hits) (hm : t.misses = s.misses) : Asked t names := by
  refine ⟨hc ▸ h.holds, ?_, ?_⟩
  · rw [hm, hc, h.misses]
  · rw [hh, hm, h.hits]

/-- Candidates that are remembered are asked for once more. -/
theorem Asked.hit (h : Asked s names) (hn : n ∈ names) :
    Asked { s with hits := s.hits + 1 } (names ++ [n]) := by
  refine ⟨h.holds.again hn, h.misses, ?_⟩
  show s.hits + 1 + s.misses = _
  rw [List.length_append, List.length_singleton, ← h.hits]
  omega

/-- Candidates that are not remembered are entered, which is one miss. -/
theorem Asked.miss (h : Asked s names) (hn : s.candidates.find? n = none) {bs : List String}
    (hc : t.candidates = s.candidates.remember n bs) (hh : t.hits = s.hits)
    (hm : t.misses = s.misses + 1) : Asked t (names ++ [n]) := by
  refine ⟨hc ▸ h.holds.remember hn bs, ?_, ?_⟩
  · rw [hm, hc, h.misses]
    rfl
  · rw [hh, hm, List.length_append, List.length_singleton, ← h.hits]
    omega

end Steps

/-! ## Calls that are recorded -/

/-- The action leads to the given calls: it leaves behind a session whose counts fit them and
what went before. -/
def Records {α : Type} (m : StateM Session α) (calls : List Call) : Prop :=
  ∀ s made, Tallies s made → Tallies (m.run s).2 (made ++ calls)

section Records

variable {α β : Type} {r : Suggester} {o : Knowledge}

theorem records_pure (a : α) : Records (pure a) [] := by
  intro s made h
  rw [List.append_nil]
  exact h

theorem Records.bind {m : StateM Session α} {f : α → StateM Session β} {cs ds : List Call}
    (hm : Records m cs) (hf : ∀ a, Records (f a) ds) : Records (m >>= f) (cs ++ ds) := by
  intro s made h
  rw [← List.append_assoc]
  exact hf (m.run s).1 (m.run s).2 (made ++ cs) (hm s made h)

theorem Records.map {m : StateM Session α} {cs : List Call} (hm : Records m cs) (f : α → β) :
    Records (do return f (← m)) cs := by
  have h := hm.bind fun a => records_pure (f a)
  rwa [List.append_nil] at h

/-- The calls of several actions of one kind follow one another. -/
theorem records_mapM {f : α → StateM Session β} {g : α → List Call}
    (hf : ∀ x, Records (f x) (g x)) (xs : List α) : Records (xs.mapM f) (xs.flatMap g) := by
  induction xs with
  | nil => exact records_pure []
  | cons x xs ih =>
    rw [List.mapM_cons, List.flatMap_cons]
    exact (hf x).bind fun y => ih.map fun ys => y :: ys

/-- So do those of actions whose answers are of no interest. -/
theorem records_forM {f : α → StateM Session Unit} {g : α → List Call}
    (hf : ∀ x, Records (f x) (g x)) (xs : List α) : Records (xs.forM f) (xs.flatMap g) := by
  induction xs with
  | nil => exact records_pure ()
  | cons x xs ih =>
    rw [List.flatMap_cons]
    exact (hf x).bind fun _ => ih

/-- What one more call adds. -/
theorem tallies_concat_iff {s : Session} {made : List Call} {c : Call} :
    Tallies s (made ++ [c]) ↔
      Expanded s (made.filterMap Call.expanded? ++ c.expanded?.toList)
          (made.count .reflect + [c].count .reflect) ∧
        Asked s (made.filterMap Call.asked? ++ c.asked?.toList) := by
  have hone : ∀ f : Call → Option TypeName,
      (made ++ [c]).filterMap f = made.filterMap f ++ (f c).toList := by
    intro f
    rw [List.filterMap_append]
    cases hf : f c <;> simp [hf]
  constructor
  · rintro ⟨he, ha⟩
    rw [hone, List.count_append] at he
    rw [hone] at ha
    exact ⟨he, ha⟩
  · rintro ⟨he, ha⟩
    rw [← hone, ← List.count_append] at he
    rw [← hone] at ha
    exact ⟨he, ha⟩

/-- A reflection counts as one. -/
theorem records_reflect (o : Knowledge) (name : String) :
    Records (reflect o name) [.reflect] := by
  intro s made h
  refine tallies_concat_iff.2 ⟨?_, ?_⟩
  · rw [Call.expanded?, Option.toList_none, List.append_nil]
    refine ⟨h.expanded.holds, h.expanded.expansions, ?_⟩
    show s.reflections + 1 = s.lineages.length + (made.count .reflect + 1)
    rw [h.expanded.reflections, Nat.add_assoc]
  · rw [Call.asked?, Option.toList_none, List.append_nil]
    exact ⟨h.asked.holds, h.asked.misses, h.asked.hits⟩

/-- A lineage is asked for under its name. -/
theorem records_expand (o : Knowledge) (n : TypeName) : Records (expand o n) [.expand n] := by
  intro s made h
  obtain ⟨hc, hh, hm⟩ := run_expand_frame o n s
  refine tallies_concat_iff.2 ⟨h.expanded.expand n, ?_⟩
  rw [Call.asked?, Option.toList_none, List.append_nil]
  exact h.asked.congr hc hh hm

/-- Candidates are asked for under their name, and so is a lineage if they are new. -/
theorem records_candidatesOf (r : Suggester) (n : TypeName) :
    Records (candidatesOf r n) [.candidatesOf n] := by
  intro s made h
  refine tallies_concat_iff.2 ?_
  rw [Call.expanded?, Call.asked?, Option.toList_some]
  cases hn : s.candidates.find? n with
  | some bs =>
    rw [run_candidatesOf_of_found hn]
    have hasked : n ∈ made.filterMap Call.asked? := h.asked.holds.mem_of_find? hn
    -- whoever asked for the candidates first asked for the lineage
    have hexpanded : n ∈ made.filterMap Call.expanded? := by
      obtain ⟨c, hc, hcn⟩ := List.mem_filterMap.1 hasked
      exact List.mem_filterMap.2 ⟨c, hc, Call.expanded?_of_asked? hcn⟩
    refine ⟨?_, h.asked.hit hasked⟩
    exact ⟨h.expanded.holds.again hexpanded, h.expanded.expansions, h.expanded.reflections⟩
  | none =>
    obtain ⟨hc, hh, hm⟩ := run_expand_frame r.knowledge n s
    have hlineage := h.expanded.expand (o := r.knowledge) n
    rw [run_candidatesOf_of_missing hn (run_expand_with r.knowledge n s (s.misses + 1))]
    refine ⟨⟨hlineage.holds, hlineage.expansions, hlineage.reflections⟩, ?_⟩
    exact h.asked.miss hn (congrArg (fun m => Memory.remember m n _) hc) hh rfl

theorem records_suggest (r : Suggester) (d : Descriptor) :
    Records (suggest r d) (Question.calls r (.suggest d)) := by
  have h := records_mapM (f := fun t : NamedType => candidatesOf r t.name)
    (fun t => records_candidatesOf r t.name) (r.constraining d)
  rw [← List.map_eq_flatMap] at h
  exact h.map fun found => found.flatten.eraseDups

/-- The members of a descriptor are reflected on one after the other. -/
theorem records_interfaceBaseNames (r : Suggester) (d : Descriptor) :
    Records (interfaceBaseNames r d) (Question.calls r (.interfaceBaseNames d)) := by
  have h := records_mapM
    (f := fun t : NamedType => do return r.bareNames (← reflect r.knowledge t.name.text))
    (fun t => (records_reflect r.knowledge t.name.text).map r.bareNames) (r.constraining d)
  rw [← List.map_eq_flatMap] at h
  exact h.map fun found => distinctBy Prod.fst found.flatten

/-- A question leads to its calls. -/
theorem records_ask (r : Suggester) (q : Question) : Records (ask r q) (q.calls r) := by
  cases q with
  | expand n => exact (records_expand r.knowledge n).map fun l => Reply.lineage l.members
  | candidatesOf n => exact (records_candidatesOf r n).map Reply.baseNames
  | suggest d => exact (records_suggest r d).map Reply.baseNames
  | interfaceBaseNames d => exact (records_interfaceBaseNames r d).map Reply.interfaces
  | reflect name => exact (records_reflect r.knowledge name).map Reply.reflection

end Records

/-! ## Conversations -/

theorem tallies_new : Tallies new [] :=
  ⟨⟨Memory.holds_nil, rfl, rfl⟩, ⟨Memory.holds_nil, rfl, rfl⟩⟩

/-- Where only lineages were asked for, a suggester may take over. -/
theorem Tallies.takeOver {s : Session} {made : List Call} (h : Tallies s made)
    (hmade : made.filterMap Call.asked? = []) : Tallies s.takeOver made := by
  refine ⟨⟨h.expanded.holds, h.expanded.expansions, h.expanded.reflections⟩, ?_⟩
  rw [hmade]
  exact ⟨Memory.holds_nil, rfl, rfl⟩

/-- The lineages of some names may be asked for before a suggester is set up. -/
theorem tallies_warmed (o : Knowledge) (names : List TypeName) :
    Tallies (warmed o names) (names.map .expand) := by
  have h := records_forM (f := fun n => discard (expand o n))
    (fun n => (records_expand o n).map fun _ => ()) names new [] tallies_new
  rw [← List.map_eq_flatMap, List.nil_append] at h
  refine h.takeOver ?_
  rw [List.filterMap_map]
  exact List.filterMap_eq_nil_iff.2 fun _ _ => rfl

/-- After a conversation what is counted fits the calls that its questions led to. -/
theorem tallies_after (r : Suggester) (names : List TypeName) (qs : List Question) :
    Tallies (after r names qs) (names.map .expand ++ qs.flatMap (Question.calls r)) :=
  records_mapM (records_ask r) qs _ _ (tallies_warmed r.knowledge names)

/-- Candidates that are all remembered are given as they are. -/
theorem run_mapM_candidatesOf_of_found {r : Suggester} {ts : List NamedType} {s : Session}
    (h : ∀ t ∈ ts, s.candidates.find? t.name ≠ none) :
    ((ts.mapM fun t => candidatesOf r t.name).run s).2 =
      { s with hits := s.hits + ts.length } := by
  induction ts generalizing s with
  | nil => rfl
  | cons t ts ih =>
    obtain ⟨bs, hbs⟩ := Option.ne_none_iff_exists'.1 (h t List.mem_cons_self)
    have hrest : ∀ t ∈ ts, s.candidates.find? t.name ≠ none := fun u hu =>
      h u (List.mem_cons_of_mem t hu)
    rw [List.mapM_cons]
    show ((ts.mapM fun t => candidatesOf r t.name).run ((candidatesOf r t.name).run s).2).2 = _
    rw [run_candidatesOf_of_found hbs, ih (s := { s with hits := s.hits + 1 }) hrest,
      List.length_cons, Nat.add_right_comm, Nat.add_assoc]

/-- A descriptor that was asked about leads to nothing but hits. -/
theorem run_suggest_again {r : Suggester} {names : List TypeName} {qs : List Question}
    {d : Descriptor} (h : .suggest d ∈ qs) :
    ((suggest r d).run (after r names qs)).2 =
      { after r names qs with hits := (after r names qs).hits + (r.constraining d).length } := by
  refine run_mapM_candidatesOf_of_found fun t ht => ?_
  have hasked := (tallies_after r names qs).asked.holds
  rw [ne_eq, hasked.find?_eq_none_iff, Decidable.not_not, List.filterMap_append, List.mem_append]
  right
  refine List.mem_filterMap.2 ⟨.candidatesOf t.name, ?_, rfl⟩
  exact List.mem_flatMap.2 ⟨_, h, List.mem_map_of_mem ht⟩

/-- The counts after any conversation, with the lineages of some names asked for before the
suggester was set up.  Each lineage is worked out once for a name, and so are candidates; a
reflection is asked for with each new lineage, and for each question about a type itself or
the base names of interfaces.  A descriptor that was asked about before adds nothing but hits. -/
theorem counts_exact (r : Suggester) (names : List TypeName) (qs : List Question) :
    let s := after r names qs
    let calls := qs.flatMap (Question.calls r)
    let asked := calls.filterMap Call.asked?
    let expanded := names ++ calls.filterMap Call.expanded?
    s.expansions = s.lineages.length ∧ s.lineages.length = expanded.eraseDups.length ∧
      s.misses = asked.eraseDups.length ∧ s.hits + s.misses = asked.length ∧
      s.reflections = s.lineages.length + calls.count .reflect ∧
      ∀ d, .suggest d ∈ qs → ((suggest r d).run s).2 =
        { s with hits := s.hits + (r.constraining d).length } := by
  intro s calls asked expanded
  obtain ⟨he, ha⟩ := tallies_after r names qs
  have hexpanded : (names.map Call.expand ++ calls).filterMap Call.expanded? = expanded := by
    rw [List.filterMap_append, List.filterMap_map]
    exact congrArg (· ++ _) (List.filterMap_some ..)
  have hasked : (names.map Call.expand ++ calls).filterMap Call.asked? = asked := by
    rw [List.filterMap_append, List.filterMap_map]
    exact congrArg (· ++ _) (List.filterMap_eq_nil_iff.2 fun _ _ => rfl)
  have hcount : (names.map Call.expand ++ calls).count .reflect = calls.count .reflect := by
    rw [List.count_append, List.count_eq_zero.2 (by simp), Nat.zero_add]
  rw [hexpanded, hcount] at he
  rw [hasked] at ha
  refine ⟨he.expansions, he.holds.length_eq, ?_, ha.hits, he.reflections, ?_⟩
  · rw [ha.misses, ha.holds.length_eq]
  · exact fun d hd => run_suggest_again hd

-- Two spellings of a declared type are two names, one of which was met before.
example :
    let r : Suggester := ⟨.catalogue (Catalogue.empty.register
      ⟨.ofString "App\\Node", .plainClass, [], [], false⟩), ⟨[], []⟩⟩
    let s := after r [.ofString "App\\Node"] [.suggest (.ofName "App\\Node"),
      .suggest (.union [.ofName "app\\node", .ofName "App\\Node"])]
    s.hits = 1 ∧ s.misses = 2 ∧ s.expansions = 2 ∧ s.reflections = 2 := by decide +kernel

end Session

end Eponym
