/-
# Supertypes

Right above a class stand the class that it extends and the interfaces that it implements,
right above an interface those that it extends, and right above an enumeration those that
it implements.  Where references are to types of the fitting kind, a reflection reports
what stands above the type in any number of steps, although it walks to the parents and
searches for the interfaces separately, and stops at different places on a circle.

* `WellKinded` : what is extended or implemented is of the fitting kind, or undeclared;
* `rises_iff` : what a reflection meets is what stands above.
-/
import Eponym.Proofs.TypeModel.Reachability

namespace Eponym

/-- The types right above a declared one. -/
def Declaration.above (d : Declaration) : List TypeName :=
  match d.kind with
  | .plainClass => d.extended.take 1 ++ d.implemented
  | .interface => d.extended
  | .enum => d.implemented
  | .trait => []

namespace Catalogue

/-! ## References -/

/-- All that declarations extend or implement. -/
def references (r : Catalogue) : List TypeName :=
  r.declarations.flatMap fun d => d.extended ++ d.implemented

/-- A catalogue in which classes extend classes, interfaces extend interfaces, and only
interfaces are implemented, as far as these types are declared; one that is not declared is
spelled alike wherever it is referred to. -/
structure WellKinded (r : Catalogue) : Prop where
  class_extends : ∀ d ∈ r.declarations, d.kind = .plainClass →
    ∀ n ∈ d.extended, ∀ e ∈ r.lookup n.key, e.kind = .plainClass
  interface_extends : ∀ d ∈ r.declarations, d.kind = .interface →
    ∀ n ∈ d.extended, ∀ e ∈ r.lookup n.key, e.kind = .interface
  implements : ∀ d ∈ r.declarations,
    ∀ n ∈ d.implemented, ∀ e ∈ r.lookup n.key, e.kind = .interface
  spelling : ∀ n ∈ r.references, ∀ m ∈ r.references, n.key = m.key →
    r.lookup n.key = none → n = m

/-! ## What stands above -/

/-- The declaration under the first key has a type with the second one right above it. -/
def IsBelow (r : Catalogue) (k l : String) : Prop :=
  ∃ d, r.lookup k = some d ∧ ∃ n ∈ d.above, n.key = l

/-- From the first key the second one is reached upwards in any number of steps. -/
def Rises (r : Catalogue) : String → String → Prop := Relation.ReflTransGen r.IsBelow

/-- The references that a reflection on a declared type meets: parents, then interfaces. -/
def met (r : Catalogue) (d : Declaration) : List TypeName :=
  (r.ancestry d).1 ++ r.reach [d.key] (r.roots d)

section WellKinded

variable {r : Catalogue} {d e : Declaration} {n : TypeName} {k l : String}

/-- Parents are met on the way upwards from a class. -/
theorem mem_ancestry_iff :
    n ∈ (r.ancestry d).1 ↔ d.kind = .plainClass ∧ n ∈ (r.climb [d.key] d).1 := by
  unfold ancestry
  by_cases hk : d.kind = .plainClass
  · simp only [hk, if_true, true_and]
  · simp [hk]

/-- The declarations that follow a class are found, and are classes. -/
theorem WellKinded.of_follows (h : r.WellKinded) (hd : r.lookup d.key = some d)
    (hk : d.kind = .plainClass) (he : r.Follows d e) :
    r.lookup e.key = some e ∧ e.kind = .plainClass := by
  induction he with
  | refl => exact ⟨hd, hk⟩
  | tail _ hstep ih =>
    obtain ⟨n, ns, hq, hp⟩ := hstep
    refine ⟨lookup_key_of_lookup hp, ?_⟩
    refine h.class_extends _ (mem_of_lookup ih.1) ih.2 n ?_ _ hp
    rw [hq]
    exact List.mem_cons_self

/-- What the search for interfaces reaches is an interface, if it is declared. -/
theorem WellKinded.of_reachable (h : r.WellKinded) (hd : r.lookup d.key = some d)
    (hk : r.Reachable [d.key] (r.IsRoot d) k) (he : r.lookup k = some e) :
    e.kind = .interface := by
  induction hk generalizing e with
  | root hn _ =>
    cases hn with
    | extended hk hn => exact h.interface_extends d (mem_of_lookup hd) hk _ hn e he
    | implemented _ hn => exact h.implements d (mem_of_lookup hd) _ hn e he
    | inherited hk hp hn =>
      exact h.implements _ (mem_of_lookup (h.of_follows hd hk hp).1) _ hn e he
  | step _ hl _ ih =>
    obtain ⟨p, hp, n, hn, rfl⟩ := hl
    exact h.interface_extends p (mem_of_lookup hp) (ih hp) n hn e he

/-- The declaration of a key that the search lists is one of an interface. -/
theorem WellKinded.kind_of_mem_reach (h : r.WellKinded) (hd : r.lookup d.key = some d)
    (hn : n ∈ r.reach [d.key] (r.roots d)) (he : r.lookup n.key = some e) :
    e.kind = .interface := by
  refine h.of_reachable hd ?_ he
  rw [← mem_roots_eq_isRoot hd, ← mem_keys_reach_iff]
  exact List.mem_map_of_mem hn

/-! ### What is met stands above -/

/-- The first type that a class extends stands right above it. -/
theorem isBelow_of_extends {ns : List TypeName} (hd : r.lookup d.key = some d)
    (hk : d.kind = .plainClass) (hn : d.extended = n :: ns) : r.IsBelow d.key n.key := by
  refine ⟨d, hd, n, ?_, rfl⟩
  simp [Declaration.above, hk, hn]

/-- The declarations that follow a class stand above it. -/
theorem WellKinded.rises_of_follows (h : r.WellKinded) (hd : r.lookup d.key = some d)
    (hk : d.kind = .plainClass) (he : r.Follows d e) : r.Rises d.key e.key := by
  induction he with
  | refl => exact .refl
  | tail hq hstep ih =>
    obtain ⟨n, ns, hq', hp⟩ := hstep
    obtain ⟨hlq, hkq⟩ := h.of_follows hd hk hq
    rw [key_of_lookup hp]
    exact ih.tail (isBelow_of_extends hlq hkq hq')

/-- What the search for interfaces reaches stands above the type. -/
theorem WellKinded.rises_of_reachable (h : r.WellKinded) (hd : r.lookup d.key = some d)
    (hk : r.Reachable [d.key] (r.IsRoot d) k) : r.Rises d.key k := by
  induction hk with
  | @root n hn _ =>
    cases hn with
    | extended hk hn => exact .single ⟨d, hd, n, by simpa only [Declaration.above, hk], rfl⟩
    | implemented hk hn => exact .single ⟨d, hd, n, by simpa only [Declaration.above, hk], rfl⟩
    | @inherited p hk hp hn =>
      obtain ⟨hlp, hkp⟩ := h.of_follows hd hk hp
      refine (h.rises_of_follows hd hk hp).tail ⟨p, hlp, n, ?_, rfl⟩
      simp [Declaration.above, hkp, hn]
  | step hk hl _ ih =>
    obtain ⟨p, hp, n, hn, rfl⟩ := hl
    have hkp : p.kind = .interface := h.of_reachable hd hk hp
    exact ih.tail ⟨p, hp, n, by simpa only [Declaration.above, hkp], rfl⟩

/-- What a reflection meets stands above the type. -/
theorem WellKinded.rises_of_mem_met (h : r.WellKinded) (hd : r.lookup d.key = some d)
    (hn : n ∈ r.met d) : r.Rises d.key n.key := by
  rcases List.mem_append.1 hn with hn | hn
  · obtain ⟨hk, hn⟩ := mem_ancestry_iff.1 hn
    obtain ⟨e, he, ns, hext⟩ := follows_of_mem_climb hn
    obtain ⟨hle, hke⟩ := h.of_follows hd hk he
    exact (h.rises_of_follows hd hk he).tail (isBelow_of_extends hle hke hext)
  · refine h.rises_of_reachable hd ?_
    rw [← mem_roots_eq_isRoot hd, ← mem_keys_reach_iff]
    exact List.mem_map_of_mem hn

/-! ### What stands above is met -/

/-- A root is met under its key, if it is not the type itself. -/
theorem root_met (hd : r.lookup d.key = some d) (hn : r.IsRoot d n) :
    n.key = d.key ∨ n.key ∈ (r.met d).map TypeName.key := by
  rw [met, List.map_append, List.mem_append]
  have h : n.key ∈ [d.key] ∨ n.key ∈ (r.reach [d.key] (r.roots d)).map TypeName.key :=
    reach_starts ((mem_roots_iff hd).2 hn)
  exact h.imp List.mem_singleton.1 .inr

/-- A parent is met under its key, if it is not the type itself. -/
theorem parent_met (hk : d.kind = .plainClass)
    (h : k ∈ [d.key] ∨ k ∈ (r.climb [d.key] d).1.map TypeName.key) :
    k = d.key ∨ k ∈ (r.met d).map TypeName.key := by
  rw [met, List.map_append, List.mem_append, ancestry, if_pos hk]
  exact h.imp List.mem_singleton.1 .inl

/-- The types right above a class, parent and interfaces told apart. -/
theorem mem_above_of_plainClass (hk : d.kind = .plainClass) :
    n ∈ d.above ↔ (∃ ns, d.extended = n :: ns) ∨ n ∈ d.implemented := by
  simp only [Declaration.above, hk, List.mem_append]
  cases d.extended with
  | nil => simp
  | cons m ms => simp [eq_comm]

/-- What stands right above the type is met. -/
theorem above_met (hd : r.lookup d.key = some d) (hn : n ∈ d.above) :
    n.key = d.key ∨ n.key ∈ (r.met d).map TypeName.key := by
  cases hk : d.kind with
  | plainClass =>
    rcases (mem_above_of_plainClass hk).1 hn with ⟨ns, hext⟩ | hn
    · exact parent_met hk (climb_starts hext)
    · exact root_met hd (.inherited hk .refl hn)
  | «interface» => exact root_met hd (.extended hk (by simpa only [Declaration.above, hk] using hn))
  | enum => exact root_met hd (.implemented hk (by simpa only [Declaration.above, hk] using hn))
  | trait => exact absurd hn (by simp [Declaration.above, hk])

/-- What stands right above a type that is met is met. -/
theorem WellKinded.met_closed (h : r.WellKinded) (hd : r.lookup d.key = some d)
    {m : TypeName} (hm : m ∈ r.met d) (he : r.lookup m.key = some e) (hn : n ∈ e.above) :
    n.key = d.key ∨ n.key ∈ (r.met d).map TypeName.key := by
  rcases List.mem_append.1 hm with hm | hm
  · obtain ⟨hk, hm⟩ := mem_ancestry_iff.1 hm
    obtain ⟨q, hq, ms, hext⟩ := follows_of_mem_climb hm
    have hfollows : r.Follows d e := hq.tail ⟨m, ms, hext, he⟩
    rcases (mem_above_of_plainClass (h.of_follows hd hk hfollows).2).1 hn with ⟨ns, hne⟩ | hn
    · exact parent_met hk (climb_closed hm he hne)
    · exact root_met hd (.inherited hk hfollows hn)
  · have hke : e.kind = .interface := h.kind_of_mem_reach hd hm he
    have hn : n ∈ e.extended := by simpa only [Declaration.above, hke] using hn
    rw [met, List.map_append, List.mem_append]
    exact (reach_closed hm he hn).imp List.mem_singleton.1 .inr

/-- What stands above a declared type is the type itself, and what its reflection meets. -/
theorem WellKinded.rises_iff (h : r.WellKinded) (hd : r.lookup d.key = some d) :
    r.Rises d.key k ↔ k = d.key ∨ k ∈ (r.met d).map TypeName.key := by
  constructor
  · intro hk
    induction hk with
    | refl => exact .inl rfl
    | tail _ hstep ih =>
      obtain ⟨e, he, n, hn, rfl⟩ := hstep
      rcases ih with rfl | ih
      · obtain rfl : d = e := Option.some.inj (hd.symm.trans he)
        exact above_met hd hn
      · obtain ⟨m, hm, rfl⟩ := List.mem_map.1 ih
        exact h.met_closed hd hm he hn
  · rintro (rfl | hk)
    · exact .refl
    · obtain ⟨n, hn, rfl⟩ := List.mem_map.1 hk
      exact h.rises_of_mem_met hd hn

theorem mem_references (hd : r.lookup d.key = some d) (hn : n ∈ d.extended ∨ n ∈ d.implemented) :
    n ∈ r.references :=
  List.mem_flatMap.2 ⟨d, mem_of_lookup hd, List.mem_append.2 hn⟩

/-- What a reflection meets is referred to somewhere. -/
theorem mem_references_of_met (hd : r.lookup d.key = some d) (hn : n ∈ r.met d) :
    n ∈ r.references := by
  rcases List.mem_append.1 hn with hn | hn
  · obtain ⟨e, he, ns, hext⟩ := follows_of_mem_climb (mem_ancestry_iff.1 hn).2
    refine mem_references (lookup_of_follows hd he) (.inl ?_)
    rw [hext]
    exact List.mem_cons_self
  · obtain ⟨before, after, hs⟩ := List.append_of_mem hn
    rcases reach_justified hs with hn | ⟨m, -, e, he, hn⟩
    · cases (mem_roots_iff hd).1 hn with
      | extended _ hn => exact mem_references hd (.inl hn)
      | implemented _ hn => exact mem_references hd (.inr hn)
      | inherited _ hp hn => exact mem_references (lookup_of_follows hd hp) (.inr hn)
    · exact mem_references (lookup_key_of_lookup he) (.inl hn)

end WellKinded

end Catalogue

end Eponym
