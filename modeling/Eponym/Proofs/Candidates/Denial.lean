/-
# What deny lists take away

A denied base name is passed over while candidates are collected, type by type, and so before
repetitions are dropped; it might as well be struck out of the finished list.  The same holds of
the base names of interfaces, of which the first with a name counts.  A denied type is passed
over itself and in the lineage of others, so that its names may stay, from other types and then
perhaps at other places; but nothing comes in.

* `suggest_eq_filter`, `interfaceBaseNames_eq_filter` : denied base names are struck out;
* `suggest_subset`, `interfaceBaseNames_subset` : to deny more adds nothing;
* `denials_only_remove` : both, for deny lists of any entries, whatever was asked before.
-/
import Eponym.Proofs.Candidates.Memoization

namespace Eponym

namespace Suggester

/-! ## Denied base names -/

/-- The suggester that denies the same types, but no base name. -/
def allowingBases (r : Suggester) : Suggester :=
  { r with denied := { r.denied with baseNames := [] } }

section Bases

variable (r : Suggester)

@[simp] theorem deniesBase_allowingBases (b : String) :
    r.allowingBases.denied.deniesBase b = false := rfl

/-- Of a type's candidates the denied base names are struck out. -/
theorem candidatesOf_eq_filter (n : TypeName) :
    r.candidatesOf n = (r.allowingBases.candidatesOf n).filter fun b => !r.denied.deniesBase b := by
  have hall : ∀ bs : List String,
      bs.filter (fun b => !r.allowingBases.denied.deniesBase b) = bs := fun bs =>
    List.filter_eq_self.2 fun b _ => by rw [deniesBase_allowingBases, Bool.not_false]
  rw [candidatesOf, candidatesOf, candidatesFrom, candidatesFrom, hall, eraseDups_filter]
  rfl

theorem constraining_allowingBases (d : Descriptor) :
    r.allowingBases.constraining d = r.constraining d := rfl

/-- Of what a descriptor suggests the denied base names are struck out, in whichever type's
candidates they stand. -/
theorem suggest_eq_filter (d : Descriptor) :
    r.suggest d = (r.allowingBases.suggest d).filter fun b => !r.denied.deniesBase b := by
  rw [suggest, suggest, constraining_allowingBases, ← eraseDups_filter, List.filter_flatMap]
  simp only [← candidatesOf_eq_filter]

/-- Of the base names of one interface the denied ones are struck out. -/
theorem bareNames_eq_filter (reflection : Option Reflection) :
    r.bareNames reflection =
      (r.allowingBases.bareNames reflection).filter fun i => !r.denied.deniesBase i.1 := by
  cases reflection with
  | none => rfl
  | some reflection =>
    rw [bareNames, bareNames]
    split
    · rfl
    · rw [List.filter_map, List.filter_filter]
      simp

/-- Of the base names of interfaces the denied ones are struck out; what is left is ascribed to
the same interfaces, since all that have a name lose it together. -/
theorem interfaceBaseNames_eq_filter (d : Descriptor) :
    r.interfaceBaseNames d =
      (r.allowingBases.interfaceBaseNames d).filter fun i => !r.denied.deniesBase i.1 := by
  rw [interfaceBaseNames, interfaceBaseNames, constraining_allowingBases,
    ← distinctBy_filter Prod.fst (fun b => !r.denied.deniesBase b), List.filter_flatMap]
  simp only [bareNames_eq_filter r]
  rfl

end Bases

end Suggester

/-! ## Denying more -/

/-- Whatever the one deny list denies, the other denies too. -/
structure Denied.Within (few more : Denied) : Prop where
  types : ∀ name : String, few.deniesType name = true → more.deniesType name = true
  bases : ∀ b : String, few.deniesBase b = true → more.deniesBase b = true

namespace Denied.Within

variable {few more : Denied}

theorem type_allowed (h : Within few more) {name : String} (hmore : more.deniesType name = false) :
    few.deniesType name = false := by
  rw [Bool.eq_false_iff] at hmore ⊢
  exact mt (h.types name) hmore

theorem base_allowed (h : Within few more) {b : String} (hmore : more.deniesBase b = false) :
    few.deniesBase b = false := by
  rw [Bool.eq_false_iff] at hmore ⊢
  exact mt (h.bases b) hmore

/-- Entries deny what fewer entries do, letter case and leading separators aside. -/
theorem of_entries {types types' bases : List String}
    (h : types.map typeKey ⊆ types'.map typeKey) :
    Within (ofEntries types bases) (ofEntries types' bases) where
  types name hname := by
    obtain ⟨e, he, hkey⟩ := deniesType_ofEntries.1 hname
    obtain ⟨e', he', hkey'⟩ := List.mem_map.1 (h (List.mem_map_of_mem he))
    exact deniesType_ofEntries.2 ⟨e', he', hkey'.trans hkey⟩
  bases _ hb := hb

end Denied.Within

namespace Suggester

section Within

variable {k : Knowledge} {few more : Denied}

/-- What may constrain an identifier under the longer deny list may do so under the shorter. -/
theorem constraining_subset (h : few.Within more) (d : Descriptor) :
    constraining ⟨k, more⟩ d ⊆ constraining ⟨k, few⟩ d := by
  intro t ht
  obtain ⟨hmem, hallowed⟩ := List.mem_filter.1 ht
  refine List.mem_filter.2 ⟨hmem, ?_⟩
  simp only [excludes, Bool.not_eq_true', Bool.or_eq_false_iff] at hallowed ⊢
  exact ⟨hallowed.1, h.type_allowed hallowed.2⟩

theorem candidatesOf_denied_subset (h : few.Within more) (n : TypeName) :
    candidatesOf ⟨k, more⟩ n ⊆ candidatesOf ⟨k, few⟩ n := by
  intro b hb
  obtain ⟨hbase, m, hm, htype, hb⟩ := mem_candidatesOf.1 hb
  exact mem_candidatesOf.2 ⟨h.base_allowed hbase, m, hm, h.type_allowed htype, hb⟩

theorem suggest_subset (h : few.Within more) (d : Descriptor) :
    suggest ⟨k, more⟩ d ⊆ suggest ⟨k, few⟩ d := by
  intro b hb
  obtain ⟨t, ht, hb⟩ := mem_suggest.1 hb
  exact mem_suggest.2 ⟨t, constraining_subset h d ht, candidatesOf_denied_subset h t.name hb⟩

/-- No base name of one interface comes in. -/
theorem bareNames_subset (h : few.Within more) (reflection : Option Reflection) :
    bareNames ⟨k, more⟩ reflection ⊆ bareNames ⟨k, few⟩ reflection := by
  cases reflection with
  | none => exact List.Subset.refl []
  | some reflection =>
    rw [bareNames, bareNames]
    split
    · exact List.Subset.refl []
    · refine List.map_subset _ fun b hb => ?_
      obtain ⟨hmem, hallowed⟩ := List.mem_filter.1 hb
      rw [Bool.not_eq_true'] at hallowed
      exact List.mem_filter.2 ⟨hmem, by rw [h.base_allowed hallowed, Bool.not_false]⟩

/-- No base name of an interface comes in, though one that stays may be ascribed to another. -/
theorem interfaceBaseNames_subset (h : few.Within more) (d : Descriptor) :
    (interfaceBaseNames ⟨k, more⟩ d).map Prod.fst ⊆
      (interfaceBaseNames ⟨k, few⟩ d).map Prod.fst := by
  intro b hb
  rw [interfaceBaseNames, mem_map_distinctBy] at hb ⊢
  obtain ⟨i, hi, rfl⟩ := List.mem_map.1 hb
  obtain ⟨t, ht, hi⟩ := List.mem_flatMap.1 hi
  refine List.mem_map_of_mem (List.mem_flatMap.2 ⟨t, constraining_subset h d ht, ?_⟩)
  exact bareNames_subset h _ hi

end Within

end Suggester

/-! ## Deny lists of entries -/

/-- Deny lists only ever remove.  Of what a descriptor suggests, and of the base names of its
interfaces, an entry strikes out the base names that have the same lower-case form, and changes
nothing else; and where the denied types are denied among others, no base name comes in.  This
holds whatever the suggesters were asked before. -/
theorem denials_only_remove (k : Knowledge) (types bases : List String) (d : Descriptor)
    (names names' : List TypeName) (qs qs' : List Question) :
    let suggested (types bases : List String) (names : List TypeName) (qs : List Question) :
        List String :=
      let r : Suggester := ⟨k, .ofEntries types bases⟩
      ((Session.suggest r d).run (Session.after r names qs)).1
    let interfaces (types bases : List String) (names : List TypeName) (qs : List Question) :
        List (String × String) :=
      let r : Suggester := ⟨k, .ofEntries types bases⟩
      ((Session.interfaceBaseNames r d).run (Session.after r names qs)).1
    let allowed (b : String) : Bool := Text.lowercase b ∉ bases.map Text.lowercase
    suggested types bases names qs = (suggested types [] names' qs').filter allowed ∧
      interfaces types bases names qs =
        (interfaces types [] names' qs').filter (fun i => allowed i.1) ∧
      ∀ types', types.map typeKey ⊆ types'.map typeKey →
        suggested types' bases names' qs' ⊆ suggested types bases names qs ∧
        (interfaces types' bases names' qs').map Prod.fst ⊆
          (interfaces types bases names qs).map Prod.fst := by
  intro suggested interfaces allowed
  have hsuggested : ∀ types bases names qs,
      suggested types bases names qs = Suggester.suggest ⟨k, .ofEntries types bases⟩ d :=
    fun _ _ names qs => (Session.answers_suggest d).run_after names qs
  have hinterfaces : ∀ types bases names qs, interfaces types bases names qs =
      Suggester.interfaceBaseNames ⟨k, .ofEntries types bases⟩ d :=
    fun _ _ names qs => (Session.answers_interfaceBaseNames d).run_after names qs
  have hallowed : ∀ b, allowed b = !(Denied.ofEntries types bases).deniesBase b := by
    intro b
    rw [Bool.eq_iff_iff, Bool.not_eq_true', ← Bool.not_eq_true, Denied.deniesBase_ofEntries]
    simp [allowed]
  refine ⟨?_, ?_, fun types' h => ⟨?_, ?_⟩⟩
  · rw [hsuggested, hsuggested, Suggester.suggest_eq_filter, funext hallowed]
    rfl
  · rw [hinterfaces, hinterfaces, Suggester.interfaceBaseNames_eq_filter]
    simp only [hallowed]
    rfl
  · rw [hsuggested, hsuggested]
    exact Suggester.suggest_subset (.of_entries h) d
  · rw [hinterfaces, hinterfaces]
    exact Suggester.interfaceBaseNames_subset (.of_entries h) d

/-- Of an order that is a document, or a page: denied base names are struck out, and so are those
of a page once that is denied beside documents. -/
theorem denials_only_remove_documents :
    let k : Knowledge := .catalogue ((Catalogue.empty.register
      ⟨.ofString "App\\Document", .interface, [], [], false⟩).register
      ⟨.ofString "App\\OrderDto", .plainClass, [], [.ofString "App\\Document"], false⟩)
    let d : Descriptor := .union [.ofName "App\\OrderDto", .ofName "App\\Page"]
    let suggested (types bases : List String) : List String :=
      let r : Suggester := ⟨k, .ofEntries types bases⟩
      ((Session.suggest r d).run (Session.after r [] [.suggest d])).1
    ["app\\document"].map typeKey ⊆ ["App\\Page", "\\APP\\Document"].map typeKey ∧
      suggested ["app\\document"] ["ORDER"] = (suggested ["app\\document"] []).filter
        (fun b => Text.lowercase b ∉ ["ORDER"].map Text.lowercase) ∧
      suggested ["App\\Page", "\\APP\\Document"] ["ORDER"] ⊆
        suggested ["app\\document"] ["ORDER"] := by
  intro k d suggested
  have h : ["app\\document"].map typeKey ⊆ ["App\\Page", "\\APP\\Document"].map typeKey := by
    decide +kernel
  obtain ⟨hbases, -, htypes⟩ := denials_only_remove k ["app\\document"] ["ORDER"] d [] []
    [.suggest d] [.suggest d]
  exact ⟨h, hbases, (htypes _ h).1⟩

end Eponym
