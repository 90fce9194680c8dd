/-
# Empty candidates

A declaration without a name is refused, and an expression names no type without a short name.
What a declaration extends or implements is not looked at, so that a reference may be empty or
end in a separator.  The empty base name is suggested exactly through such references, and
then any name with a collection suffix is accepted for an iterable.

* `Descriptor.short_ne_empty_of_parse` : the types that an expression names have short names;
* `empty_mem_candidatesOf_iff` : which of them suggest the empty base name;
* `CollectionName.found_of_empty_candidate` : what is accepted because of it;
* `Session.empty_name_suggested_iff` : whether a descriptor suggests it, whatever was asked
  before.
-/
import Eponym.Proofs.BaseName
import Eponym.Proofs.Convention.CollectionName
import Eponym.Proofs.Lineage
import Eponym.Proofs.TypeExpression.Rereading

namespace Eponym

/-! ## Names in expressions -/

namespace TypeExpression

/-- A word does not end in a separator, so that a name that is one has a short name. -/
theorem IsWord.short_ne_empty {Start : Char → Prop} {n : TypeName}
    (h : IsWord Start n.text.toList) : n.short ≠ "" := by
  have hne : n.text.toList ≠ [] := by
    intro hnil
    obtain ⟨c, hc, -⟩ := h.start
    rw [hnil] at hc
    exact nomatch hc
  rw [TypeName.short, shortName, ne_eq, ← String.toList_inj, String.toList_ofList]
  exact fun hno => (shortNameChars_eq_nil.1 hno).elim hne h.last_ne

/-- The leaves of a well-formed descriptor have short names. -/
theorem WellFormed.short_ne_empty {Start : Char → Prop} {d : Descriptor}
    (hd : WellFormed Start d) : ∀ t ∈ d.leaves, t.name.short ≠ "" := by
  induction hd with
  | named _ hn => exact List.forall_mem_singleton.2 hn.toIsWord.short_ne_empty
  | union _ _ ih | intersection _ _ ih =>
    intro t ht
    rw [Descriptor.leaves, Descriptor.leavesList_eq] at ht
    obtain ⟨m, hm, ht⟩ := List.mem_flatMap.1 ht
    exact ih m hm t ht
  | iterable | keyed | null | scalar => exact List.forall_mem_nil _

end TypeExpression

theorem Descriptor.short_ne_empty_of_parse {s : String} {d : Descriptor}
    (h : Descriptor.parse s = .ok d) : ∀ t ∈ d.leaves, t.name.short ≠ "" := by
  obtain ⟨hd, -⟩ := TypeExpression.proper_expression (TypeExpression.parse_eq_ok_iff.1 h)
  exact hd.wellFormed.short_ne_empty

/-! ## Lineages -/

/-- Reflection on a declared type meets a reference without a short name, and neither type
belongs to the runtime, nor is the second one denied. -/
def Catalogue.MeetsNameless (r : Catalogue) (denied : Denied) (d : Declaration) : Prop :=
  d.builtin = false ∧ ∃ n ∈ r.met d, (r.reflected n).builtin = false ∧
    denied.deniesType n.text = false ∧ n.short = ""

/-- A type with a short name suggests the empty base name, unless that is denied, exactly if it
is declared and leads to a reference without a short name. -/
theorem empty_mem_candidatesOf_iff {r : Catalogue} {denied : Denied} {c : TypeName}
    (hc : c.short ≠ "") :
    "" ∈ Suggester.candidatesOf ⟨.catalogue r, denied⟩ c ↔ denied.deniesBase "" = false ∧
      ∃ d, r.lookup c.key = some d ∧ r.MeetsNameless denied d := by
  rw [Suggester.mem_candidatesOf]
  refine and_congr_right fun _ => ?_
  simp only [TypeName.baseNames, empty_mem_baseNamesOf_iff]
  cases hd : r.lookup c.key with
  | none =>
    rw [Catalogue.members_lineage_of_undeclared hd]
    simp only [List.mem_singleton, exists_eq_left, reduceCtorEq, false_and, exists_false,
      iff_false, not_and]
    exact fun _ => hc
  | some d =>
    have hname : d.name.short ≠ "" := by
      rwa [ne_eq, TypeName.short_eq_empty_congr (Catalogue.key_of_lookup hd)]
    simp only [Option.some.injEq, exists_eq_left', Catalogue.mem_lineage_of_lookup hd,
      Catalogue.mem_userTypes_iff]
    -- a reference and what it is reflected as have one key
    have hkey : ∀ n : TypeName, (TypeName.ofString (r.reflected n).name).key = n.key := by
      intro n
      rw [TypeName.key_ofString, (r.standsFor_reflected n).key_eq]
    constructor
    · rintro ⟨m, ⟨hb, rfl | ⟨n, hn, hbn, rfl⟩⟩, hden, hm⟩
      · exact absurd hm hname
      · rw [Denied.deniesType_congr (hkey n)] at hden
        exact ⟨hb, n, hn, hbn, hden, (TypeName.short_eq_empty_congr (hkey n)).1 hm⟩
    · rintro ⟨hb, n, hn, hbn, hden, hm⟩
      refine ⟨_, ⟨hb, .inr ⟨n, hn, hbn, rfl⟩⟩, ?_, ?_⟩
      · rwa [Denied.deniesType_congr (hkey n)]
      · exact (TypeName.short_eq_empty_congr (hkey n)).2 hm

/-- No such reference is met where all references have short names. -/
theorem Catalogue.not_meetsNameless {r : Catalogue} {denied : Denied} {k : String}
    {d : Declaration} (hr : ∀ n ∈ r.references, n.short ≠ "") (hd : r.lookup k = some d) :
    ¬ r.MeetsNameless denied d := by
  rintro ⟨-, n, hn, -, -, hshort⟩
  exact hr n (mem_references_of_met (lookup_key_of_lookup hd) hn) hshort

/-- A class meets the type that it extends, if that is not declared. -/
theorem Catalogue.meetsNameless_of_undeclared {r : Catalogue} {denied : Denied} {d : Declaration}
    {n : TypeName} {ns : List TypeName} (hb : d.builtin = false) (hk : d.kind = .plainClass)
    (hext : d.extended = n :: ns) (hne : n.key ∉ [d.key]) (hl : r.lookup n.key = none)
    (hden : denied.deniesType n.text = false) (hshort : n.short = "") :
    r.MeetsNameless denied d := by
  refine ⟨hb, n, ?_, ?_, hden, hshort⟩
  · rw [met, ancestry, if_pos hk, climb_of_undeclared hext hne hl]
    exact List.mem_append_left _ List.mem_cons_self
  · rw [(r.standsFor_reflected n).undeclared hl]

/-! ## Collections -/

/-- Where the elements of an iterable suggest the empty base name, any name is accepted that
ends in a collection suffix and has no `Map` segment. -/
theorem CollectionName.found_of_empty_candidate {r : Suggester} {d v : Descriptor}
    {line : Option UInt64} (hv : d.valueType? = some v) (hempty : "" ∈ r.suggest v)
    (context : String) {ending : String} (hending : ending ∈ collectionEndings)
    (hmap : hasMapSegment (context ++ ending) = false) :
    found r (context ++ ending) d line = [] := by
  have hcapital : ∀ e ∈ collectionEndings,
      e.toList ≠ [] ∧ capitalizeChars e.toList = e.toList := by decide
  obtain ⟨hne, hsame⟩ := hcapital ending hending
  have hconforms : conforms (context ++ ending) ending = true := by
    refine conformsChars_iff.2 (.inr ⟨hne, context.toList, ?_⟩)
    rw [hsame, String.toList_append]
  have hname : ending ∈ collectionNames "" :=
    List.mem_cons_of_mem _ (List.mem_map.2 ⟨ending, hending, String.empty_append⟩)
  rw [found_of_mem_suggest hv hempty, violations_eq_nil]
  refine ⟨hmap, List.any_eq_true.2 ⟨"", mem_sorted.2 hempty, ?_⟩⟩
  exact conformsToAny_iff.2 ⟨ending, hname, hconforms⟩

/-! ## Descriptors -/

namespace Session

/-- Let a descriptor be read from an expression, and let any declarations be given, flawed or
not.  Whatever was asked before, the empty base name is suggested exactly if it is not denied,
and a declared type among the members that may constrain an identifier leads to a reference
without a short name.  Where all references have short names it is therefore not suggested. -/
theorem empty_name_suggested_iff {text : String} {d : Descriptor}
    (hd : Descriptor.parse text = .ok d) (r : Catalogue) (denied : Denied)
    (names : List TypeName) (qs : List Question) :
    let suggester : Suggester := ⟨.catalogue r, denied⟩
    let suggested := ((suggest suggester d).run (after suggester names qs)).1
    ("" ∈ suggested ↔ denied.deniesBase "" = false ∧ ∃ t ∈ suggester.constraining d,
      ∃ e, r.declaration? t.name.text = some e ∧ r.MeetsNameless denied e) ∧
    ((∀ n ∈ r.references, n.short ≠ "") → "" ∉ suggested) := by
  intro suggester suggested
  have hsuggested : suggested = suggester.suggest d :=
    (answers_suggest d).run_after names qs
  have hshort : ∀ t ∈ suggester.constraining d, t.name.short ≠ "" := fun t ht =>
    Descriptor.short_ne_empty_of_parse hd t (mem_of_mem_distinctBy (List.mem_filter.1 ht).1)
  have hiff : "" ∈ suggested ↔ denied.deniesBase "" = false ∧
      ∃ t ∈ suggester.constraining d,
        ∃ e, r.declaration? t.name.text = some e ∧ r.MeetsNameless denied e := by
    rw [hsuggested, Suggester.mem_suggest]
    constructor
    · rintro ⟨t, ht, hempty⟩
      obtain ⟨hden, e, he, hmeets⟩ := (empty_mem_candidatesOf_iff (hshort t ht)).1 hempty
      exact ⟨hden, t, ht, e, he, hmeets⟩
    · rintro ⟨hden, t, ht, e, he, hmeets⟩
      exact ⟨t, ht, (empty_mem_candidatesOf_iff (hshort t ht)).2 ⟨hden, e, he, hmeets⟩⟩
  refine ⟨hiff, fun hr hempty => ?_⟩
  obtain ⟨-, t, -, e, he, hmeets⟩ := hiff.1 hempty
  exact Catalogue.not_meetsNameless hr he hmeets

/-- An order that extends a namespace, so to speak: a name that ends in a separator. -/
theorem empty_name_suggested_iff_vendor :
    let order : Declaration :=
      ⟨.ofString "App\\Order", .plainClass, [.ofString "Vendor\\"], [], false⟩
    let suggester : Suggester :=
      ⟨.catalogue (Catalogue.empty.register order), .ofEntries ["Vendor"] ["item"]⟩
    let d : Descriptor := .union [.ofName "app\\Order", .null]
    Descriptor.parse "?app\\Order" = .ok d ∧
      "" ∈ ((suggest suggester d).run (after suggester [] [.suggest d])).1 := by
  intro order suggester d
  have hd : Descriptor.parse "?app\\Order" = .ok d := by decide +kernel
  have hmeets : (Catalogue.empty.register order).MeetsNameless suggester.denied order :=
    Catalogue.meetsNameless_of_undeclared rfl rfl rfl (by decide +kernel) (by decide +kernel)
      (by decide +kernel) (by decide +kernel)
  refine ⟨hd, (empty_name_suggested_iff hd (Catalogue.empty.register order) suggester.denied []
    [.suggest d]).1.2 ⟨by decide +kernel, ?_⟩⟩
  exact ⟨⟨.ofString "app\\Order", false⟩, by decide +kernel, order, by decide +kernel, hmeets⟩

/-- A class that extends the empty name passes validation.  It suggests the empty base name, so
that a name need only end in `List` to be accepted for several of its objects. -/
theorem empty_name_of_valid_order :
    let order : Declaration := ⟨.ofString "App\\Order", .plainClass, [.ofString ""], [], false⟩
    let r : Catalogue := Catalogue.empty.register order
    let suggester : Suggester := ⟨.catalogue r, .ofEntries [] []⟩
    let d : Descriptor := .ofName "App\\Order"
    Catalogue.empty.tryExtend [order] = .ok r ∧ Descriptor.parse "App\\Order" = .ok d ∧
      "" ∈ ((suggest suggester d).run new).1 ∧
      ((CollectionName.check (source suggester) "anyList" (.iterable d) none).run new).1 = [] := by
  intro order r suggester d
  have hmeets : r.MeetsNameless suggester.denied order :=
    Catalogue.meetsNameless_of_undeclared rfl rfl rfl (by decide +kernel) (by decide +kernel)
      (by decide +kernel) (by decide +kernel)
  have hempty : "" ∈ suggester.suggest d := by
    refine Suggester.mem_suggest.2 ⟨⟨.ofString "App\\Order", false⟩, by decide +kernel, ?_⟩
    refine (empty_mem_candidatesOf_iff (by decide +kernel)).2 ⟨by decide +kernel, order, ?_⟩
    exact ⟨by decide +kernel, hmeets⟩
  have hvalid : order.flaw? = none := by decide +kernel
  refine ⟨?_, by decide +kernel, ?_, ?_⟩
  · simp only [Catalogue.tryExtend, Catalogue.extend, Catalogue.extendFrom, hvalid]
    rfl
  · rw [((answers_suggest d) new (remembers_new suggester)).1]
    exact hempty
  · have hending : "List" ∈ collectionEndings := by decide
    have hmap : CollectionName.hasMapSegment ("any" ++ "List") = false := by decide +kernel
    have hname : "anyList" = "any" ++ "List" := by decide
    rw [hname, ((CollectionName.answers_check ("any" ++ "List") _ none) new
      (remembers_new suggester)).1]
    exact CollectionName.found_of_empty_candidate (Descriptor.valueType?_iterable d) hempty
      "any" hending hmap

end Session

end Eponym
