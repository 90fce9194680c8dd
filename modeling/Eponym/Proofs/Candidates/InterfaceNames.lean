/-
# Base names of interfaces are candidates

The base names of the interfaces among the members of a descriptor are found apart from
the candidates: through one reflection on the member itself, not through its lineage.  They
are candidates all the same if knowledge is faithful: if each type is known under a name that
has the key of the name asked for, so that a deny list treats both alike.

* `Knowledge.Faithful` : types are known under the names that they are asked for by;
* `Knowledge.faithful_catalogue`, `Knowledge.faithful_nothing` : what a catalogue knows is
  faithful, and so is knowledge of nothing;
* `mem_suggest_of_interface` : the base name of an interface is suggested.
-/
import Eponym.Candidates

namespace Eponym

namespace Knowledge

/-- Each type is known under the name that it is asked for by, letter case and leading
separators aside. -/
def Faithful (o : Knowledge) : Prop :=
  ∀ name t, o.reflect name = some t → typeKey t.name = typeKey name

/-- A catalogue reports a type under the name of its declaration, which has the key asked for. -/
theorem faithful_catalogue (r : Catalogue) : (catalogue r).Faithful := by
  intro name t h
  obtain ⟨d, hd, rfl⟩ := Option.map_eq_some_iff.1 h
  exact Catalogue.key_of_lookup hd

theorem faithful_nothing : nothing.Faithful := fun _ _ h => nomatch h

variable {o : Knowledge} {t : Reflection}

/-- A type outside the runtime belongs to its own lineage, under its declared name. -/
theorem name_mem_lineage {n : TypeName} (h : o.reflect n.text = some t)
    (hb : t.builtin = false) : .ofString t.name ∈ (o.lineage n).members := by
  rw [lineage, h, lineageOf, Lineage.mem_ofList, Reflection.userTypes, hb]
  exact List.mem_cons_self

end Knowledge

namespace Suggester

variable {r : Suggester} {n : TypeName} {b i : String}

/-- A base name is kept for the bare use of a type only if the type is known and outside the
runtime, and the base name is one of its own and not denied. -/
theorem of_mem_bareNames {found : Option Reflection} (h : (b, i) ∈ r.bareNames found) :
    ∃ t, found = some t ∧ t.builtin = false ∧ b ∈ baseNamesOf t.name ∧
      r.denied.deniesBase b = false := by
  cases found with
  | none => exact nomatch h
  | some t =>
    rw [bareNames] at h
    split at h
    · exact nomatch h
    · next hno =>
      obtain ⟨c, hc, heq⟩ := List.mem_map.1 h
      obtain ⟨hbase, hden⟩ := List.mem_filter.1 hc
      obtain ⟨rfl, -⟩ := Prod.mk.inj heq
      simp only [Bool.or_eq_true, not_or, Bool.not_eq_true] at hno
      exact ⟨t, rfl, hno.1, hbase, by simpa using hden⟩

/-- The base names of an interface that is not denied are among its candidates. -/
theorem mem_candidatesOf_of_bareNames (hk : r.knowledge.Faithful)
    (hn : r.denied.deniesType n.text = false)
    (hb : (b, i) ∈ r.bareNames (r.knowledge.reflect n.text)) : b ∈ r.candidatesOf n := by
  obtain ⟨t, ht, hbuiltin, hbase, hden⟩ := of_mem_bareNames hb
  refine mem_candidatesOf.2 ⟨hden, .ofString t.name,
    Knowledge.name_mem_lineage ht hbuiltin, ?_, ?_⟩
  · -- a deny list looks at keys only
    have hkey : typeKey (TypeName.ofString t.name).text = typeKey n.text :=
      (TypeName.key_ofString t.name).trans (hk n.text t ht)
    rw [Denied.deniesType, hkey]
    exact hn
  · rw [TypeName.baseNames_ofString]
    exact hbase

/-- Each base name of an interface comes from a member that may constrain an identifier. -/
theorem exists_mem_bareNames {d : Descriptor} (hb : b ∈ (r.interfaceBaseNames d).map Prod.fst) :
    ∃ t ∈ r.constraining d, ∃ i, (b, i) ∈ r.bareNames (r.knowledge.reflect t.name.text) := by
  rw [interfaceBaseNames, mem_map_distinctBy] at hb
  obtain ⟨⟨b, i⟩, hi, rfl⟩ := List.mem_map.1 hb
  obtain ⟨t, ht, hi⟩ := List.mem_flatMap.1 hi
  exact ⟨t, ht, i, hi⟩

/-- A base name of an interface among the members of a descriptor is suggested. -/
theorem mem_suggest_of_interface (hk : r.knowledge.Faithful) {d : Descriptor}
    (hb : b ∈ (r.interfaceBaseNames d).map Prod.fst) : b ∈ r.suggest d := by
  obtain ⟨t, ht, i, hi⟩ := exists_mem_bareNames hb
  have hexcl : (t.builtin || r.denied.deniesType t.name.text) = false := by
    simpa [excludes] using (List.mem_filter.1 ht).2
  exact mem_suggest.2
    ⟨t, ht, mem_candidatesOf_of_bareNames hk (Bool.or_eq_false_iff.1 hexcl).2 hi⟩

end Suggester

end Eponym
