/-
# Circles

Declarations may come back to themselves, by first entries or by others.  Reflecting on a type
remarks on a circle of first entries above a class, and on no other: the search for interfaces
passes over what it has met, and does not tell a circle from a second way to the same type.

* `circular_iff` : the walk upwards comes back to what it has met if and only if it comes into
  a circle;
* `Walks` : the steps that reflecting on a type takes from one declaration to another;
* `circles_remarked` : which circles are remarked on;
* `circle_not_remarked` : interfaces in a circle below a class.
-/
import Eponym.Proofs.TypeModel.ParentChain

namespace Eponym.Catalogue

/-- Some declaration comes back to itself. -/
def Cyclic (step : Declaration → Declaration → Prop) : Prop :=
  ∃ e, Relation.TransGen step e e

/-- A declaration that comes back to itself is met on the way upwards from the given one. -/
def Circular (r : Catalogue) (d : Declaration) : Prop :=
  ∃ e, r.Follows d e ∧ Relation.TransGen r.HasParent e e

section Circular

variable {r : Catalogue} {visited : List String} {d e p q : Declaration}

theorem HasParent.unique (hp : r.HasParent d p) (hq : r.HasParent d q) : p = q := by
  obtain ⟨n, ns, hn, hp⟩ := hp
  obtain ⟨m, ms, hm, hq⟩ := hq
  obtain ⟨rfl, -⟩ := List.cons.inj (hn.symm.trans hm)
  exact Option.some.inj (hp.symm.trans hq)

/-- A way into a circle begins with a step to a parent, and goes on into the circle. -/
theorem Circular.exists_parent (h : r.Circular d) : ∃ p, r.HasParent d p ∧ r.Circular p := by
  obtain ⟨e, hfollows, hcircle⟩ := h
  rcases hfollows.cases_head with rfl | ⟨p, hp, hup⟩
  · obtain ⟨p, hp, hback⟩ := Relation.TransGen.head'_iff.1 hcircle
    exact ⟨p, hp, d, hback, hcircle⟩
  · exact ⟨p, hp, e, hup, hcircle⟩

/-- The walk does not end at the top, nor at an undeclared type, if it comes into a circle. -/
theorem climb_snd_ne_none_of_circular (h : r.Circular d) : (r.climb visited d).2 ≠ none := by
  fun_induction r.climb visited d with
  | case1 visited d hd =>
    obtain ⟨p, ⟨n, ns, hn, -⟩, -⟩ := h.exists_parent
    exact absurd (hd.symm.trans hn) (List.cons_ne_nil n ns).symm
  | case2 visited d parent ns hd hv => exact Option.some_ne_none parent
  | case3 visited d parent ns hd hv hp =>
    obtain ⟨p, ⟨n, ms, hn, hfound⟩, -⟩ := h.exists_parent
    obtain ⟨rfl, -⟩ := List.cons.inj (hd.symm.trans hn)
    exact absurd (hp.symm.trans hfound) (Option.some_ne_none p).symm
  | case4 visited d parent ns hd hv p hp above ih =>
    obtain ⟨q, hq, hcircular⟩ := h.exists_parent
    obtain rfl : p = q := HasParent.unique ⟨parent, ns, hd, hp⟩ hq
    exact ih hcircular

/-- What is met on the way upwards to a declaration lies between the two ends. -/
theorem Upward.between {ns : List TypeName} (h : r.Upward d ns (some e))
    (hd : r.lookup d.key = some d) {k : String} (hk : k ∈ d.key :: ns.map TypeName.key) :
    ∃ p, r.lookup k = some p ∧ r.Follows d p ∧ r.Follows p e := by
  generalize htop : some e = top at h
  induction h generalizing k with
  | here d =>
    obtain rfl := Option.some.inj htop
    obtain rfl := List.mem_singleton.1 hk
    exact ⟨e, hd, .refl, .refl⟩
  | undeclared => exact absurd htop (Option.some_ne_none e)
  | @step d p n ns ms _ hn hp hup ih =>
    have hparent : r.HasParent d p := ⟨n, ns, hn, hp⟩
    have hfound : r.lookup p.key = some p := lookup_key_of_lookup hp
    rcases List.mem_cons.1 hk with rfl | hk
    · obtain ⟨q, hq, -, hup⟩ := ih hfound List.mem_cons_self htop
      obtain rfl : p = q := Option.some.inj (hfound.symm.trans hq)
      exact ⟨d, hd, .refl, .head hparent hup⟩
    · rw [List.map_cons, ← key_of_lookup hp] at hk
      obtain ⟨q, hq, hpq, hup⟩ := ih hfound hk htop
      exact ⟨q, hq, .head hparent hpq, hup⟩

/-- From a declared type the walk comes back to what it has met only in a circle. -/
theorem circular_of_climb (hd : r.lookup d.key = some d) (h : (r.climb [d.key] d).2 ≠ none) :
    r.Circular d := by
  obtain ⟨top, hup, hends⟩ := upward_climb r [d.key] d
  generalize (r.climb [d.key] d).2 = again at h hends
  cases hends with
  | undeclared => exact absurd rfl h
  | top => exact absurd rfl h
  | @again e n ns he hn =>
    -- the last step closes the circle, as its end lies on the way
    obtain ⟨p, hp, hdp, hpe⟩ := hup.between hd hn
    have hback : r.HasParent e p := ⟨n, ns, he, hp⟩
    exact ⟨e, hdp.trans hpe, .head' hback hpe⟩

/-- From a declared type the walk comes back to what it has met if and only if it comes into
a circle. -/
theorem circular_iff (hd : r.lookup d.key = some d) :
    r.Circular d ↔ (r.climb [d.key] d).2 ≠ none :=
  ⟨climb_snd_ne_none_of_circular, circular_of_climb hd⟩

end Circular

/-! ## Steps -/

/-- Reflecting on a class takes the step to the parent from each declaration on the way
upwards. -/
def Climbs (r : Catalogue) (d e p : Declaration) : Prop :=
  d.kind = .plainClass ∧ r.Follows d e ∧ r.HasParent e p

/-- The steps that reflecting on a type takes from one declaration to another: those of the
walk upwards from a class, and those of the search to all that an interface extends, be it the
type itself or reached from its roots. -/
inductive Walks (r : Catalogue) (d : Declaration) : Declaration → Declaration → Prop
  | climbs {e p : Declaration} (h : r.Climbs d e p) : Walks r d e p
  | starts {p : Declaration} {n : TypeName} (hk : d.kind = .interface) (hn : n ∈ d.extended)
      (hp : r.lookup n.key = some p) : Walks r d d p
  | searches {e p : Declaration} {n : TypeName} (he : r.lookup e.key = some e)
      (hreach : r.Reachable [d.key] (r.IsRoot d) e.key) (hn : n ∈ e.extended)
      (hp : r.lookup n.key = some p) : Walks r d e p

section Steps

variable {r : Catalogue} {d : Declaration}

/-- Each step upwards from a declaration that is met is a step of the walk. -/
theorem transGen_climbs {e p : Declaration} (hk : d.kind = .plainClass) (he : r.Follows d e)
    (h : Relation.TransGen r.HasParent e p) : Relation.TransGen (r.Climbs d) e p := by
  induction h with
  | single hp => exact .single ⟨hk, he, hp⟩
  | tail hup hp ih => exact ih.tail ⟨hk, he.trans hup.to_reflTransGen, hp⟩

/-- The walk upwards is in a circle if it is that of a class and comes into one. -/
theorem cyclic_climbs_iff : Cyclic (r.Climbs d) ↔ d.kind = .plainClass ∧ r.Circular d := by
  constructor
  · rintro ⟨e, hcircle⟩
    obtain ⟨p, ⟨hk, he, -⟩, -⟩ := Relation.TransGen.head'_iff.1 hcircle
    exact ⟨hk, e, he, Relation.TransGen.mono (fun _ _ h => h.2.2) e e hcircle⟩
  · rintro ⟨hk, e, he, hcircle⟩
    exact ⟨e, transGen_climbs hk he hcircle⟩

/-- A circle is remarked on if and only if the walk upwards is in one. -/
theorem exists_remark_iff {name : String} (h : r.declaration? name = some d) :
    (∃ n, Notice.cyclicHierarchy n ∈ r.reflectNotices name) ↔ Cyclic (r.Climbs d) := by
  rw [cyclic_climbs_iff]
  by_cases hk : d.kind = .plainClass
  · rw [reflectNotices_of_plainClass h hk, circular_iff (lookup_key_of_lookup h)]
    simp [hk, Option.ne_none_iff_exists']
  · rw [reflectNotices_of_not_plainClass h hk]
    simp [hk]

/-- All remarks are on circles. -/
theorem eq_cyclicHierarchy_of_mem {name : String} {remark : Notice}
    (h : remark ∈ r.reflectNotices name) : ∃ n, remark = .cyclicHierarchy n := by
  unfold reflectNotices at h
  split at h
  · exact absurd h List.not_mem_nil
  · split at h
    · exact absurd h List.not_mem_nil
    · exact ⟨_, List.mem_singleton.1 h⟩

end Steps

/-! ## Remarks -/

/-- Reflecting on a declared type remarks on a circle if and only if the walk upwards, that of
a class, comes into one, whatever circles the search for interfaces comes into.  If no steps
that it takes lead back to where they begin, there is no remark. -/
theorem circles_remarked {r : Catalogue} {name : String} {d : Declaration}
    (h : r.declaration? name = some d) :
    ((∃ n, Notice.cyclicHierarchy n ∈ r.reflectNotices name) ↔ Cyclic (r.Climbs d)) ∧
      (¬ Cyclic (r.Walks d) → r.reflectNotices name = []) := by
  refine ⟨exists_remark_iff h, fun hacyclic => ?_⟩
  refine List.eq_nil_iff_forall_not_mem.2 fun remark hmem => hacyclic ?_
  obtain ⟨n, rfl⟩ := eq_cyclicHierarchy_of_mem hmem
  obtain ⟨e, hcircle⟩ := (exists_remark_iff h).1 ⟨n, hmem⟩
  exact ⟨e, Relation.TransGen.mono (fun _ _ => .climbs) e e hcircle⟩

/-- The first of the three classes comes into the circle of the other two. -/
theorem circles_remarked_books :
    ∃ d, books.declaration? "account" = some d ∧ Cyclic (books.Climbs d) ∧
      ∃ n, Notice.cyclicHierarchy n ∈ books.reflectNotices "account" := by
  have h : books.declaration? "account" =
      some ⟨.ofString "Account", .plainClass, [.ofString "Ledger"], [], false⟩ := by
    decide +kernel
  have hremark : ∃ n, Notice.cyclicHierarchy n ∈ books.reflectNotices "account" :=
    ⟨.ofString "LEDGER", by decide +kernel⟩
  exact ⟨_, h, (circles_remarked h).1.1 hremark, hremark⟩

/-- A class that implements the first of two interfaces that extend each other. -/
def file : Catalogue :=
  circle.register ⟨.ofString "File", .plainClass, [], [.ofString "Readable"], false⟩

/-- The circle of the two interfaces is walked, and there is no remark. -/
theorem circle_not_remarked :
    ∃ d, file.declaration? "file" = some d ∧ Cyclic (file.Walks d) ∧
      file.reflectNotices "file" = [] := by
  let d : Declaration := ⟨.ofString "File", .plainClass, [], [.ofString "Readable"], false⟩
  let readable : Declaration :=
    ⟨.ofString "Readable", .interface, [.ofString "Seekable", .ofString "Io\\Stream"], [], false⟩
  let seekable : Declaration :=
    ⟨.ofString "Seekable", .interface, [.ofString "READABLE"], [], false⟩
  have hreadable : file.lookup readable.key = some readable := by decide +kernel
  have hseekable : file.lookup seekable.key = some seekable := by decide +kernel
  have hroot : file.Reachable [d.key] (file.IsRoot d) readable.key :=
    .root (.inherited rfl .refl List.mem_cons_self) (by decide +kernel)
  have hreached : file.Reachable [d.key] (file.IsRoot d) seekable.key :=
    .step hroot ⟨readable, hreadable, _, List.mem_cons_self, rfl⟩ (by decide +kernel)
  have hout : file.Walks d readable seekable :=
    .searches hreadable hroot List.mem_cons_self hseekable
  have hback : file.Walks d seekable readable :=
    .searches hseekable hreached List.mem_cons_self (by decide +kernel)
  exact ⟨d, by decide +kernel, ⟨readable, .tail (.single hout) hback⟩, by decide +kernel⟩

end Eponym.Catalogue
