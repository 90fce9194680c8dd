/-
# What a catalogue remembers

A catalogue is changed by registering a declaration as it is, or by adding a list of them, which
stops in front of the first that is not valid and keeps what has been added.  Whatever was done
before, a catalogue remembers of each key the declaration that was registered last, and nothing
that it is asked depends on anything else.

* `Declaration.IsValid` : what a declaration that is added has to be like;
* `extend_of_first` : a list is added up to the first declaration that is not valid;
* `foldl_apply_builtins` : the types of the runtime count as registered first;
* `lookup_after_iff`, `size_after` : what is found, and how much there is;
* `reflect_congr_of_lookup` : reflection depends on what is found alone;
* `last_registered_counts` : all of it, for any history of changes.
-/
import Mathlib.Data.Finset.Card
import Mathlib.Data.Finset.Dedup
import Mathlib.Data.List.TakeWhile
import Eponym.TypeModel.Builtin
import Eponym.TypeModel.Reflection

namespace Eponym

/-! ## Valid declarations -/

namespace Declaration

/-- A declaration with a name that has no blanks, of a type that extends and implements what
its kind allows for: a class extends at most one type, enumerations and traits extend none, and
interfaces and traits implement none. -/
structure IsValid (d : Declaration) : Prop where
  name_ne : d.name.text ≠ ""
  no_blank : Text.containsBlank d.name.text = false
  one_parent : d.kind = .plainClass → d.extended.length ≤ 1
  extends_none : d.kind = .enum ∨ d.kind = .trait → d.extended = []
  implements_none : d.kind = .interface ∨ d.kind = .trait → d.implemented = []

/-- A declaration is valid exactly if it has no flaw. -/
theorem isValid_iff {d : Declaration} : d.IsValid ↔ d.flaw? = none := by
  rw [flaw?_eq_none_iff]
  constructor
  · rintro ⟨hname, hblank, hone, hext, himp⟩
    exact ⟨hname, hblank, hone, hext, himp⟩
  · rintro ⟨hname, hblank, hone, hext, himp⟩
    exact ⟨hname, hblank, hone, hext, himp⟩

instance (d : Declaration) : Decidable d.IsValid := decidable_of_iff _ isValid_iff.symm

/-- The declaration is the last one of the list with the given key. -/
def IsLast (ds : List Declaration) (k : String) (d : Declaration) : Prop :=
  ∃ before after, ds = before ++ d :: after ∧ d.key = k ∧ ∀ e ∈ after, e.key ≠ k

/-- The last declaration with a key is the first from the end. -/
theorem isLast_iff {ds : List Declaration} {k : String} {d : Declaration} :
    IsLast ds k d ↔ (ds.reverse.find? fun e => e.key = k) = some d := by
  rw [List.find?_eq_some_iff_append]
  constructor
  · rintro ⟨before, after, rfl, hk, hafter⟩
    refine ⟨decide_eq_true hk, after.reverse, before.reverse, by simp, fun e he => ?_⟩
    simpa using hafter e (List.mem_reverse.1 he)
  · rintro ⟨hk, xs, ys, hds, hxs⟩
    refine ⟨ys.reverse, xs.reverse, ?_, of_decide_eq_true hk, fun e he => ?_⟩
    · rw [← List.reverse_reverse ds, hds, List.reverse_append, List.reverse_cons,
        List.append_assoc, List.singleton_append]
    · simpa using hxs e (List.mem_reverse.1 he)

end Declaration

namespace Catalogue

open Declaration (IsLast)

/-! ## Registering several declarations -/

section Register

variable {r : Catalogue} {ds : List Declaration} {k : String}

/-- What is found after several registrations: what was registered last, or else what was
found before. -/
theorem lookup_foldl_register (r : Catalogue) (ds : List Declaration) (k : String) :
    (ds.foldl register r).lookup k =
      (ds.reverse.find? fun d => d.key = k).or (r.lookup k) := by
  induction ds generalizing r with
  | nil => rfl
  | cons d ds ih =>
    rw [List.foldl_cons, ih, lookup_register, List.reverse_cons, List.find?_append,
      Option.or_assoc]
    by_cases h : d.key = k
    · simp [h]
    · simp [h]

/-- The keys after a registration: those before, and that of the declaration. -/
theorem mem_keys_register {d : Declaration} :
    k ∈ (r.register d).declarations.map Declaration.key ↔
      k ∈ r.declarations.map Declaration.key ∨ k = d.key := by
  show k ∈ (d.put r.declarations).map Declaration.key ↔ _
  rw [Declaration.map_key_put]
  split
  · next hd =>
    refine (or_iff_left_of_imp ?_).symm
    rintro rfl
    exact hd
  · rw [List.mem_append, List.mem_singleton]

/-- The keys after several registrations: those before, and those of the declarations. -/
theorem mem_keys_foldl_register :
    k ∈ (ds.foldl register r).declarations.map Declaration.key ↔
      k ∈ r.declarations.map Declaration.key ∨ k ∈ ds.map Declaration.key := by
  induction ds generalizing r with
  | nil => simp
  | cons d ds ih =>
    rw [List.foldl_cons, ih, mem_keys_register, List.map_cons, List.mem_cons, or_assoc]

end Register

/-! ## Adding lists -/

section Extend

variable {r : Catalogue} {ds : List Declaration} {d : Declaration}

/-- Valid declarations at the head of a list are registered, and what follows them has the
places after theirs. -/
theorem extendFrom_append_of_valid (index : Nat) (r : Catalogue) {before : List Declaration}
    (h : ∀ e ∈ before, e.IsValid) (rest : List Declaration) :
    extendFrom index r (before ++ rest) =
      extendFrom (index + before.length) (before.foldl register r) rest := by
  induction before generalizing index r with
  | nil => rfl
  | cons e es ih =>
    obtain ⟨he, hes⟩ := List.forall_mem_cons.1 h
    rw [List.cons_append, extendFrom, Declaration.isValid_iff.1 he]
    show extendFrom (index + 1) (r.register e) (es ++ rest) = _
    rw [ih (index + 1) (r.register e) hes, List.length_cons, List.foldl_cons,
      Nat.add_assoc, Nat.add_comm 1]

/-- If all declarations of a list are valid, all are registered. -/
theorem extend_of_valid (h : ∀ e ∈ ds, e.IsValid) :
    r.extend ds = (ds.foldl register r, none) := by
  have hall := extendFrom_append_of_valid 0 r h []
  rw [List.append_nil] at hall
  rw [extend, hall]
  rfl

/-- A list is added up to the first declaration that is not valid, whose place is reported. -/
theorem extend_of_first (r : Catalogue) {before : List Declaration}
    (h : ∀ e ∈ before, e.IsValid) (hd : ¬ d.IsValid) (rest : List Declaration) :
    ∃ message part, r.extend (before ++ d :: rest) = (before.foldl register r,
      some (.validation message (some (s!"types[{before.length}]" ++ part)))) := by
  obtain ⟨flaw, hflaw⟩ := Option.ne_none_iff_exists'.1 (mt Declaration.isValid_iff.2 hd)
  refine ⟨flaw.message, flaw.part, ?_⟩
  rw [extend, extendFrom_append_of_valid 0 r h, Nat.zero_add, extendFrom, hflaw]
  rfl

/-- A list has a first declaration that is not valid, unless all are valid. -/
theorem exists_first_invalid (h : ¬ ∀ e ∈ ds, e.IsValid) :
    ∃ before d rest, ds = before ++ d :: rest ∧ (∀ e ∈ before, e.IsValid) ∧ ¬ d.IsValid := by
  induction ds with
  | nil => exact absurd (List.forall_mem_nil _) h
  | cons e es ih =>
    by_cases he : e.IsValid
    · have hes : ¬ ∀ e ∈ es, e.IsValid := fun hes => h (List.forall_mem_cons.2 ⟨he, hes⟩)
      obtain ⟨before, d, rest, rfl, hbefore, hd⟩ := ih hes
      exact ⟨e :: before, d, rest, rfl, List.forall_mem_cons.2 ⟨he, hbefore⟩, hd⟩
    · exact ⟨[], e, es, rfl, List.forall_mem_nil _, he⟩

/-- The catalogue after a list was added, wholly or in part. -/
theorem extend_fst (r : Catalogue) (ds : List Declaration) :
    (r.extend ds).1 = (ds.takeWhile fun d => d.IsValid).foldl register r := by
  by_cases h : ∀ e ∈ ds, e.IsValid
  · have hall : (ds.takeWhile fun d => d.IsValid) = ds :=
      List.takeWhile_eq_self_iff.2 fun e he => decide_eq_true (h e he)
    rw [extend_of_valid h, hall]
  · obtain ⟨before, d, rest, rfl, hbefore, hd⟩ := exists_first_invalid h
    obtain ⟨message, part, hextend⟩ := extend_of_first r hbefore hd rest
    have hfirst : ((before ++ d :: rest).takeWhile fun d => d.IsValid) = before := by
      rw [List.takeWhile_append_of_pos fun e he => decide_eq_true (hbefore e he),
        List.takeWhile_cons_of_neg (by simpa using hd), List.append_nil]
    rw [hextend, hfirst]

/-- A list is reported exactly if one of its declarations is not valid. -/
theorem extend_snd_ne_none_iff : (r.extend ds).2 ≠ none ↔ ∃ d ∈ ds, ¬ d.IsValid := by
  constructor
  · intro h
    by_contra hall
    refine h ?_
    rw [extend_of_valid fun e he => by_contra fun hne => hall ⟨e, he, hne⟩]
  · rintro ⟨d, hd, hinvalid⟩
    obtain ⟨before, e, rest, rfl, hbefore, he⟩ :=
      exists_first_invalid fun hall => hinvalid (hall d hd)
    obtain ⟨message, part, hextend⟩ := extend_of_first r hbefore he rest
    rw [hextend]
    exact Option.some_ne_none _

end Extend

/-! ## Histories -/

/-- A change of a catalogue: a declaration is registered as it is, or a list is added. -/
inductive Change where
  | register (d : Declaration)
  | extend (ds : List Declaration)

/-- The catalogue after a change, also if a list was not added wholly. -/
def Change.apply (r : Catalogue) : Change → Catalogue
  | register d => r.register d
  | extend ds => (r.extend ds).1

/-- The declarations that a change registers: of a list, those in front of the first that is
not valid. -/
def Change.registered : Change → List Declaration
  | register d => [d]
  | extend ds => ds.takeWhile fun d => d.IsValid

/-- The catalogue after some changes, without declarations at the beginning. -/
def after (changes : List Change) : Catalogue := changes.foldl Change.apply empty

/-- The declarations that some changes register, in order. -/
def registered (changes : List Change) : List Declaration :=
  changes.flatMap Change.registered

/-- A change does what registering its declarations one by one does. -/
theorem Change.apply_eq (r : Catalogue) (c : Change) :
    c.apply r = c.registered.foldl Catalogue.register r := by
  cases c with
  | register d => rfl
  | extend ds => exact extend_fst r ds

/-- So do changes, one after the other. -/
theorem after_eq (changes : List Change) :
    after changes = (registered changes).foldl register empty := by
  unfold after registered
  generalize empty = r
  induction changes generalizing r with
  | nil => rfl
  | cons c cs ih =>
    rw [List.foldl_cons, ih, Change.apply_eq, List.flatMap_cons, List.foldl_append]

/-- A catalogue that begins with the types of the runtime has had them registered. -/
theorem foldl_apply_builtins (changes : List Change) :
    changes.foldl Change.apply builtins =
      after (builtinDeclarations.map .register ++ changes) := by
  rw [after, List.foldl_append, List.foldl_map]
  rfl

/-- What is found under a key is the last declaration that was registered for it. -/
theorem lookup_after_iff {changes : List Change} {k : String} {d : Declaration} :
    (after changes).lookup k = some d ↔ IsLast (registered changes) k d := by
  rw [after_eq, lookup_foldl_register, Declaration.isLast_iff]
  show Option.or _ none = _ ↔ _
  rw [Option.or_none]

/-- There are as many types as keys have been registered. -/
theorem size_after (changes : List Change) :
    (after changes).size = ((registered changes).map Declaration.key).toFinset.card := by
  have hkeys : ((after changes).declarations.map Declaration.key).toFinset =
      ((registered changes).map Declaration.key).toFinset := by
    ext k
    rw [List.mem_toFinset, List.mem_toFinset, after_eq, mem_keys_foldl_register]
    exact or_iff_right List.not_mem_nil
  rw [← hkeys, List.toFinset_card_of_nodup (after changes).nodup_keys, List.length_map]
  rfl

/-! ## Reflection after a history -/

section Congr

variable {r s : Catalogue} (h : ∀ k, r.lookup k = s.lookup k)

include h

/-- The walk to the parents depends on what is found alone. -/
theorem climb_congr_of_lookup (visited : List String) (d : Declaration) :
    r.climb visited d = s.climb visited d := by
  fun_induction r.climb visited d with
  | case1 visited d hd => rw [climb_of_nil hd]
  | case2 visited d parent ns hd hv => rw [climb_of_visited hd hv]
  | case3 visited d parent ns hd hv hp =>
    rw [climb_of_undeclared hd hv ((h parent.key).symm.trans hp)]
  | case4 visited d parent ns hd hv p hp above ih =>
    rw [climb_of_declared hd hv ((h parent.key).symm.trans hp), ← ih]

/-- The search for interfaces depends on what is found alone. -/
theorem reach_congr_of_lookup (visited : List String) (pending : List TypeName) :
    r.reach visited pending = s.reach visited pending := by
  fun_induction r.reach visited pending with
  | case1 visited => rw [reach_nil]
  | case2 visited n ns hv ih => rw [reach_cons_of_visited hv, ih]
  | case3 visited n ns hv hd ih =>
    rw [reach_cons_of_undeclared hv ((h n.key).symm.trans hd), ih]
  | case4 visited n ns hv d hd ih =>
    rw [reach_cons_of_declared hv ((h n.key).symm.trans hd), ih]

/-- The parents of a type depend on what is found alone. -/
theorem ancestry_congr_of_lookup (d : Declaration) : r.ancestry d = s.ancestry d := by
  rw [ancestry, ancestry, climb_congr_of_lookup h]

/-- Reflection depends on what is found alone. -/
theorem reflection_congr_of_lookup (d : Declaration) : r.reflection d = s.reflection d := by
  have hreflected : r.reflected = s.reflected := by
    funext n
    rw [reflected, reflected, h]
  have hroots : r.roots d = s.roots d := by
    simp only [roots, ancestry_congr_of_lookup h, h]
  rw [reflection, reflection, ancestry_congr_of_lookup h, hreflected, hroots,
    reach_congr_of_lookup h]

/-- Catalogues in which the same is found answer every reflection alike, with the same
remarks. -/
theorem reflect_congr_of_lookup (name : String) :
    r.reflect name = s.reflect name ∧ r.reflectNotices name = s.reflectNotices name := by
  have hname : r.declaration? name = s.declaration? name := h (typeKey name)
  constructor
  · rw [reflect, reflect, hname, funext (reflection_congr_of_lookup h)]
  · simp only [reflectNotices, hname, ancestry_congr_of_lookup h]

end Congr

/-- Of each key the last registration counts, whatever the changes were: it is what is found,
the size counts the keys, and reflection depends on nothing else.  A list of declarations is
reported exactly if one of them is not valid; then the first such is the one reported, by its
place, and those before it are registered, and nothing else happens. -/
theorem last_registered_counts (changes : List Change) :
    (∀ name d, (after changes).declaration? name = some d ↔
      IsLast (registered changes) (typeKey name) d) ∧
    (after changes).size = ((registered changes).map Declaration.key).toFinset.card ∧
    (∀ others,
      (∀ k d, IsLast (registered changes) k d ↔ IsLast (registered others) k d) →
      ∀ name, (after changes).reflect name = (after others).reflect name ∧
        (after changes).reflectNotices name = (after others).reflectNotices name) ∧
    ∀ ds, (((after changes).extend ds).2 ≠ none ↔ ∃ d ∈ ds, ¬ d.IsValid) ∧
      ∀ before d rest, ds = before ++ d :: rest → (∀ e ∈ before, e.IsValid) → ¬ d.IsValid →
        ((after changes).extend ds).1 = after (changes ++ before.map .register) ∧
        ∃ message part, ((after changes).extend ds).2 =
          some (.validation message (some (s!"types[{before.length}]" ++ part))) := by
  refine ⟨fun name d => lookup_after_iff, size_after changes, ?_, fun ds => ⟨?_, ?_⟩⟩
  · intro others hlast name
    refine reflect_congr_of_lookup (fun k => Option.ext fun d => ?_) name
    rw [lookup_after_iff, lookup_after_iff, hlast]
  · exact extend_snd_ne_none_iff
  · rintro before d rest rfl hbefore hd
    obtain ⟨message, part, hextend⟩ := extend_of_first (after changes) hbefore hd rest
    rw [hextend]
    refine ⟨?_, message, part, rfl⟩
    rw [after, after, List.foldl_append, List.foldl_map]
    rfl

end Catalogue

end Eponym
