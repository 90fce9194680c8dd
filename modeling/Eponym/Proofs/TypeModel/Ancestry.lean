/-
# Parents and roots

A declaration is followed by the declaration of the first type that it extends, as long as
there is one; on a cycle this never ends.  The walk upwards meets each of the declarations
that follow, and ends all the same, since it stops in front of what it has met.

* `mem_climb_of_follows` : the walk misses none of the declarations that follow;
* `mem_roots_iff` : where the search for the interfaces of a type starts.
-/
import Mathlib.Logic.Relation
import Eponym.Proofs.TypeModel.Search

namespace Eponym.Catalogue

/-! ## Declarations that follow one another -/

/-- The second declaration is that of the first type that the first one extends. -/
def HasParent (r : Catalogue) (d p : Declaration) : Prop :=
  ∃ n ns, d.extended = n :: ns ∧ r.lookup n.key = some p

/-- The second declaration is met on the way upwards from the first, or is the first. -/
def Follows (r : Catalogue) : Declaration → Declaration → Prop :=
  Relation.ReflTransGen r.HasParent

section Climb

variable {r : Catalogue} {visited : List String} {d : Declaration} {n : TypeName}

/-- A declaration that is found is found under its own key. -/
theorem lookup_key_of_lookup {k : String} (h : r.lookup k = some d) :
    r.lookup d.key = some d := by
  rw [key_of_lookup h]
  exact h

/-- A declaration that follows one that is found is found itself. -/
theorem lookup_of_follows {e : Declaration} (hd : r.lookup d.key = some d)
    (he : r.Follows d e) : r.lookup e.key = some e := by
  induction he with
  | refl => exact hd
  | tail _ hstep _ =>
    obtain ⟨n, ns, -, hp⟩ := hstep
    exact lookup_key_of_lookup hp

/-- What the walk meets is the first entry of a declaration that follows. -/
theorem follows_of_mem_climb (h : n ∈ (r.climb visited d).1) :
    ∃ e, r.Follows d e ∧ ∃ ns, e.extended = n :: ns := by
  fun_induction r.climb visited d with
  | case1 visited d hd => exact absurd h List.not_mem_nil
  | case2 visited d parent ns hd hv => exact absurd h List.not_mem_nil
  | case3 visited d parent ns hd hv hp =>
    obtain rfl := List.mem_singleton.1 h
    exact ⟨d, .refl, ns, hd⟩
  | case4 visited d parent ns hd hv p hp above ih =>
    rcases List.mem_cons.1 h with rfl | h
    · exact ⟨d, .refl, ns, hd⟩
    · obtain ⟨e, he, hn⟩ := ih h
      exact ⟨e, .head ⟨parent, ns, hd, hp⟩ he, hn⟩

/-- The walk meets the first type that the declaration extends, if it was not visited. -/
theorem climb_starts {ns : List TypeName} (hd : d.extended = n :: ns) :
    n.key ∈ visited ∨ n.key ∈ (r.climb visited d).1.map TypeName.key := by
  by_cases hv : n.key ∈ visited
  · exact .inl hv
  · right
    cases hp : r.lookup n.key with
    | none =>
      rw [climb_of_undeclared hd hv hp]
      exact List.mem_cons_self
    | some p =>
      rw [climb_of_declared hd hv hp]
      exact List.mem_cons_self

/-- The walk meets the first type that a declared parent extends, if it was not visited. -/
theorem climb_closed {m : TypeName} {e : Declaration} {ns : List TypeName}
    (hm : m ∈ (r.climb visited d).1) (he : r.lookup m.key = some e)
    (hn : e.extended = n :: ns) :
    n.key ∈ visited ∨ n.key ∈ (r.climb visited d).1.map TypeName.key := by
  fun_induction r.climb visited d with
  | case1 visited d hd => exact absurd hm List.not_mem_nil
  | case2 visited d parent ms hd hv => exact absurd hm List.not_mem_nil
  | case3 visited d parent ms hd hv hp =>
    obtain rfl := List.mem_singleton.1 hm
    exact absurd (hp.symm.trans he) (by simp)
  | case4 visited d parent ms hd hv p hp above ih =>
    rcases List.mem_cons.1 hm with rfl | hm
    · obtain rfl : p = e := Option.some.inj (hp.symm.trans he)
      exact visited_or_listed_cons (climb_starts hn)
    · exact visited_or_listed_cons (ih hm)

/-- The walk from a declared type misses none of the declarations that follow. -/
theorem mem_climb_of_follows {p : Declaration} (hd : r.lookup d.key = some d)
    (h : r.Follows d p) : p = d ∨ ∃ n ∈ (r.climb [d.key] d).1, r.lookup n.key = some p := by
  induction h with
  | refl => exact .inl rfl
  | @tail q p _ hstep ih =>
    obtain ⟨n, ns, hq, hp⟩ := hstep
    have hn : n.key ∈ [d.key] ∨ n.key ∈ (r.climb [d.key] d).1.map TypeName.key := by
      rcases ih with rfl | ⟨m, hm, hl⟩
      · exact climb_starts hq
      · exact climb_closed hm hl hq
    rcases hn with hn | hn
    · -- the way has come back to where it started
      rw [List.mem_singleton.1 hn] at hp
      exact .inl (Option.some.inj (hp.symm.trans hd))
    · obtain ⟨m, hm, hk⟩ := List.mem_map.1 hn
      refine .inr ⟨m, hm, ?_⟩
      rw [hk]
      exact hp

end Climb

/-! ## Roots -/

/-- Where the interfaces of a declared type come from: those that an interface extends,
those that an enumeration implements, and those that a class, or a declaration that follows
it, implements.  A trait has none. -/
inductive IsRoot (r : Catalogue) (d : Declaration) : TypeName → Prop
  | extended {n : TypeName} (hk : d.kind = .interface) (hn : n ∈ d.extended) : IsRoot r d n
  | implemented {n : TypeName} (hk : d.kind = .enum) (hn : n ∈ d.implemented) : IsRoot r d n
  | inherited {n : TypeName} {p : Declaration} (hk : d.kind = .plainClass)
      (hp : r.Follows d p) (hn : n ∈ p.implemented) : IsRoot r d n

section Roots

variable {r : Catalogue} {d : Declaration} {n : TypeName}

/-- The roots of a class, one walk upwards at a time. -/
theorem mem_roots_of_plainClass (hk : d.kind = .plainClass) :
    n ∈ r.roots d ↔ n ∈ d.implemented ∨
      ∃ m ∈ (r.climb [d.key] d).1, ∃ p, r.lookup m.key = some p ∧ n ∈ p.implemented := by
  simp only [roots, hk, ancestry, if_true, List.mem_append, List.mem_flatMap]
  refine or_congr Iff.rfl (exists_congr fun m => and_congr_right fun _ => ?_)
  cases r.lookup m.key with
  | none => simp
  | some p => simp

/-- The search for the interfaces of a declared type starts from its roots. -/
theorem mem_roots_iff (hd : r.lookup d.key = some d) : n ∈ r.roots d ↔ r.IsRoot d n := by
  constructor
  · intro h
    cases hk : d.kind with
    | «interface» => exact .extended hk (by simpa only [roots, hk] using h)
    | enum => exact .implemented hk (by simpa only [roots, hk] using h)
    | trait => exact absurd h (by simp [roots, hk])
    | plainClass =>
      rcases (mem_roots_of_plainClass hk).1 h with hn | ⟨m, hm, p, hp, hn⟩
      · exact .inherited hk .refl hn
      · obtain ⟨e, he, ns, hm⟩ := follows_of_mem_climb hm
        exact .inherited hk (he.tail ⟨m, ns, hm, hp⟩) hn
  · rintro (⟨hk, hn⟩ | ⟨hk, hn⟩ | ⟨hk, hp, hn⟩)
    · simpa only [roots, hk] using hn
    · simpa only [roots, hk] using hn
    · rw [mem_roots_of_plainClass hk]
      rcases mem_climb_of_follows hd hp with rfl | ⟨m, hm, hl⟩
      · exact .inl hn
      · exact .inr ⟨m, hm, _, hl, hn⟩

end Roots

end Eponym.Catalogue
