/-
# Lineages of supertypes

Where references are to types of the fitting kind, the lineage of a type lists what stands
above it, types of the runtime left out.  A type of the lineage of another therefore brings
in nothing new: its own lineage is part of the other's, and so are its base names.  This
holds on circles too, of classes or of interfaces.

* `mem_lineage_iff` : a lineage is what stands above;
* `names_of_supertype` : the names of a supertype are names of its subtypes.
-/
import Eponym.Proofs.Candidates.Memoization
import Eponym.Proofs.TypeModel.Supertypes

namespace Eponym.Catalogue

/-! ## Lineages -/

/-- The type under a key does not belong to the runtime, and has the given name: that of its
declaration, or else the one that it is referred to by. -/
def IsUserType (r : Catalogue) (k : String) (m : TypeName) : Prop :=
  (∃ e, r.lookup k = some e ∧ e.builtin = false ∧ m = e.name) ∨
    (r.lookup k = none ∧ m ∈ r.references ∧ m.key = k)

section Lineage

variable {r : Catalogue} {d : Declaration} {c m n : TypeName}

/-- The lineage of a declared type comes from its reflection. -/
theorem mem_lineage_of_lookup (hd : r.lookup c.key = some d) :
    m ∈ ((Knowledge.catalogue r).lineage c).members ↔ m ∈ (r.reflection d).userTypes := by
  have hr : (Knowledge.catalogue r).reflect c.text = some (r.reflection d) := by
    show (r.lookup c.key).map r.reflection = _
    rw [hd]
    rfl
  rw [Knowledge.lineage, hr]
  exact Lineage.mem_ofList

/-- An undeclared type stands alone. -/
theorem members_lineage_of_undeclared (hc : r.lookup c.key = none) :
    ((Knowledge.catalogue r).lineage c).members = [c] := by
  have hr : (Knowledge.catalogue r).reflect c.text = none := by
    show (r.lookup c.key).map r.reflection = _
    rw [hc]
    rfl
  rw [Knowledge.lineage, hr, lineageOf_none]

/-- The types of a reflection are the type itself and what the reflection meets, types of
the runtime left out. -/
theorem mem_userTypes_iff :
    m ∈ (r.reflection d).userTypes ↔ d.builtin = false ∧ (m = d.name ∨
      ∃ n ∈ r.met d, (r.reflected n).builtin = false ∧
        m = .ofString (r.reflected n).name) := by
  have hmet : (r.reflection d).parents ++ (r.reflection d).interfaces =
      (r.met d).map r.reflected := (List.map_append ..).symm
  unfold Reflection.userTypes
  rw [hmet]
  cases hb : d.builtin with
  | true => simp [reflection, hb]
  | false =>
    simp only [reflection, hb, Bool.false_eq_true, if_false, List.mem_cons, List.mem_map,
      List.mem_filter, Bool.not_eq_true', TypeName.ofString_text, true_and]
    refine or_congr Iff.rfl ⟨?_, ?_⟩
    · rintro ⟨_, ⟨⟨n, hn, rfl⟩, ht⟩, rfl⟩
      exact ⟨n, hn, ht, rfl⟩
    · rintro ⟨n, hn, ht, rfl⟩
      exact ⟨_, ⟨⟨n, hn, rfl⟩, ht⟩, rfl⟩

/-- A reference is reflected as the type under its key, if that does not belong to the
runtime. -/
theorem WellKinded.isUserType_iff (h : r.WellKinded) (hn : n ∈ r.references) :
    r.IsUserType n.key m ↔
      (r.reflected n).builtin = false ∧ m = .ofString (r.reflected n).name := by
  unfold IsUserType reflected
  cases hl : r.lookup n.key with
  | some e => simp
  | none =>
    simp only [reduceCtorEq, false_and, exists_false, false_or, true_and,
      TypeName.ofString_text]
    constructor
    · rintro ⟨hm, hk⟩
      exact (h.spelling n hn m hm hk.symm hl).symm
    · rintro rfl
      exact ⟨hn, rfl⟩

/-- The lineage of a declared type lists the types that stand above it. -/
theorem WellKinded.mem_lineage_iff (h : r.WellKinded) (hc : r.lookup c.key = some d) :
    m ∈ ((Knowledge.catalogue r).lineage c).members ↔
      d.builtin = false ∧ ∃ k, r.Rises d.key k ∧ r.IsUserType k m := by
  have hd : r.lookup d.key = some d := lookup_key_of_lookup hc
  rw [mem_lineage_of_lookup hc, mem_userTypes_iff]
  refine and_congr_right fun hb => ⟨?_, ?_⟩
  · rintro (rfl | ⟨n, hn, hm⟩)
    · exact ⟨d.key, .refl, .inl ⟨d, hd, hb, rfl⟩⟩
    · have href := mem_references_of_met hd hn
      exact ⟨n.key, h.rises_of_mem_met hd hn, (h.isUserType_iff href).2 hm⟩
  · rintro ⟨k, hk, hm⟩
    rcases (h.rises_iff hd).1 hk with rfl | hk
    · left
      rcases hm with ⟨e, he, -, rfl⟩ | ⟨hno, -⟩
      · rw [Option.some.inj (hd.symm.trans he)]
      · exact absurd (hd.symm.trans hno) (by simp)
    · obtain ⟨n, hn, rfl⟩ := List.mem_map.1 hk
      exact .inr ⟨n, hn, (h.isUserType_iff (mem_references_of_met hd hn)).1 hm⟩

/-- The lineage of a type in the lineage of another is part of it. -/
theorem WellKinded.lineage_subset (h : r.WellKinded) {a : TypeName}
    (hc : r.lookup c.key = some d)
    (ha : a ∈ ((Knowledge.catalogue r).lineage c).members) :
    ((Knowledge.catalogue r).lineage a).members ⊆
      ((Knowledge.catalogue r).lineage c).members := by
  intro m hm
  obtain ⟨hb, k, hk, hu⟩ := (h.mem_lineage_iff hc).1 ha
  rcases hu with ⟨e, he, -, rfl⟩ | ⟨hno, -, rfl⟩
  · -- what stands above `e` stands above `d`
    have hl : r.lookup e.name.key = some e := lookup_key_of_lookup he
    obtain ⟨-, l, hl, hm⟩ := (h.mem_lineage_iff hl).1 hm
    rw [key_of_lookup he] at hl
    exact (h.mem_lineage_iff hc).2 ⟨hb, l, hk.trans hl, hm⟩
  · rw [members_lineage_of_undeclared hno, List.mem_singleton] at hm
    rw [hm]
    exact ha

end Lineage

end Eponym.Catalogue

namespace Eponym

/-! ## Base names -/

/-- A larger lineage suggests more. -/
theorem Suggester.candidatesOf_subset {r : Suggester} {a c : TypeName}
    (h : (r.knowledge.lineage a).members ⊆ (r.knowledge.lineage c).members) :
    r.candidatesOf a ⊆ r.candidatesOf c := by
  intro b hb
  obtain ⟨hden, m, hm, hdm, hb⟩ := mem_candidatesOf.1 hb
  exact mem_candidatesOf.2 ⟨hden, m, h hm, hdm, hb⟩

/-- Names that are valid for a supertype stay valid for a subtype.  Where references are to
types of the fitting kind, and whatever is denied and was asked before: if a type is in the
lineage of a declared one, its lineage is part of that, and so are its base names. -/
theorem names_of_supertype {r : Catalogue} (h : r.WellKinded) (denied : Denied)
    (names : List TypeName) (qs : List Question) {a c : TypeName} {d : Declaration}
    (hc : r.declaration? c.text = some d)
    (ha : a ∈ ((Session.expand (.catalogue r) c).run
      (Session.after ⟨.catalogue r, denied⟩ names qs)).1.members) :
    ((Session.expand (.catalogue r) a).run
        (Session.after ⟨.catalogue r, denied⟩ names qs)).1.members ⊆
      ((Session.expand (.catalogue r) c).run
        (Session.after ⟨.catalogue r, denied⟩ names qs)).1.members ∧
    ((Session.candidatesOf ⟨.catalogue r, denied⟩ a).run
        (Session.after ⟨.catalogue r, denied⟩ names qs)).1 ⊆
      ((Session.candidatesOf ⟨.catalogue r, denied⟩ c).run
        (Session.after ⟨.catalogue r, denied⟩ names qs)).1 := by
  have hexpand : ∀ n, ((Session.expand (.catalogue r) n).run
      (Session.after ⟨.catalogue r, denied⟩ names qs)).1 = (Knowledge.catalogue r).lineage n :=
    fun n => (Session.answers_expand (r := ⟨.catalogue r, denied⟩) n).run_after names qs
  rw [hexpand] at ha
  rw [hexpand, hexpand, (Session.answers_candidatesOf a).run_after names qs,
    (Session.answers_candidatesOf c).run_after names qs]
  have hsub := h.lineage_subset hc ha
  exact ⟨hsub, Suggester.candidatesOf_subset hsub⟩

/-- Two classes that extend each other, of which the first implements one of two interfaces
that extend each other; a stream that both sides refer to is not declared. -/
def Catalogue.ledgers : Catalogue :=
  (((empty.register ⟨.ofString "Account", .plainClass, [.ofString "Ledger"],
      [.ofString "Readable"], false⟩).register
    ⟨.ofString "Ledger", .plainClass, [.ofString "Account"], [.ofString "Io\\Stream"],
      false⟩).register
    ⟨.ofString "Readable", .interface, [.ofString "Seekable", .ofString "Io\\Stream"], [],
      false⟩).register ⟨.ofString "Seekable", .interface, [.ofString "READABLE"], [], false⟩

/-- On the two circles, names of the parent are names of the class that is its parent too. -/
theorem names_of_supertype_ledgers :
    let r : Suggester := ⟨.catalogue .ledgers, .ofEntries ["Io\\Stream"] []⟩
    let s := Session.after r [.ofString "Ledger"] [.candidatesOf (.ofString "Account")]
    ((Session.expand r.knowledge (.ofString "Ledger")).run s).1.members ⊆
        ((Session.expand r.knowledge (.ofString "account")).run s).1.members ∧
      ((Session.candidatesOf r (.ofString "Ledger")).run s).1 ⊆
        ((Session.candidatesOf r (.ofString "account")).run s).1 := by
  intro r s
  have h : Catalogue.ledgers.WellKinded :=
    { class_extends := by decide +kernel
      interface_extends := by decide +kernel
      implements := by decide +kernel
      spelling := by decide +kernel }
  have hc : Catalogue.ledgers.declaration? (TypeName.ofString "account").text =
      some ⟨.ofString "Account", .plainClass, [.ofString "Ledger"], [.ofString "Readable"],
        false⟩ := by decide +kernel
  have ha : .ofString "Ledger" ∈
      ((Session.expand r.knowledge (.ofString "account")).run s).1.members := by
    rw [(Session.answers_expand (r := r) _).run_after [.ofString "Ledger"]
      [.candidatesOf (.ofString "Account")]]
    exact (Catalogue.mem_lineage_of_lookup hc).2 (by decide +kernel)
  exact names_of_supertype h (.ofEntries ["Io\\Stream"] []) [.ofString "Ledger"]
    [.candidatesOf (.ofString "Account")] hc ha

end Eponym
