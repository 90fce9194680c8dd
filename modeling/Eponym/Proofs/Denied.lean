/-
# Building a deny list

A deny list is built in one pass over the entries, in which the forms met so far are kept: an
entry with a new form adds it, any other is remarked on.  So the forms met are at each place
those of the entries in front of it, and what is remarked on can be told from the list alone.

* `repeatedEntries_eq` : the remarks during a pass, from the entries in front;
* `length_foldedSet` : the forms are counted once each;
* `deny_list_exact` : what a deny list denies, counts and remarks on.
-/
import Eponym.Denied
import Mathlib

namespace Eponym

section Pass

variable {fold : String → String}

/-! ## Entries with a form met before -/

/-- The entries whose form an entry at an earlier place has. -/
def laterSpellings (fold : String → String) (entries : List String) : List String :=
  (entries.zipIdx.filter fun p => fold p.1 ∈ (entries.take p.2).map fold).map Prod.fst

/-- The forms met are those of the entries in front, and stay so behind the next entry, whether
its form is new or not. -/
theorem mem_met_iff {front seen : List String} (hseen : ∀ k, k ∈ seen ↔ k ∈ front.map fold)
    (e k : String) :
    k ∈ (if fold e ∈ seen then seen else fold e :: seen) ↔ k ∈ (front ++ [e]).map fold := by
  rw [List.map_append, List.mem_append, ← hseen, List.map_singleton, List.mem_singleton]
  by_cases he : fold e ∈ seen
  · rw [if_pos he]
    exact ⟨.inl, fun h => h.elim id fun hk => hk ▸ he⟩
  · rw [if_neg he, List.mem_cons, or_comm]

/-- As long as the forms met are those of the entries in front, the rest of the pass remarks on
the entries whose form one in front of them has. -/
theorem repeatedEntries_eq (front entries seen : List String)
    (hseen : ∀ k, k ∈ seen ↔ k ∈ front.map fold) :
    repeatedEntries fold seen entries =
      ((entries.zipIdx front.length).filter fun p =>
        fold p.1 ∈ ((front ++ entries).take p.2).map fold).map Prod.fst := by
  induction entries generalizing front seen with
  | nil => rfl
  | cons e es ih =>
    have hfront : (front ++ e :: es).take front.length = front := List.take_left
    have hlength : front.length + 1 = (front ++ [e]).length := by
      rw [List.length_append, List.length_singleton]
    have hrest := ih (front ++ [e]) _ (mem_met_iff hseen e)
    rw [repeatedEntries, List.zipIdx_cons, List.filter_cons, hfront, hlength,
      List.append_cons front e es]
    by_cases he : fold e ∈ seen
    · rw [if_pos he] at hrest
      rw [if_pos he, if_pos (decide_eq_true ((hseen _).1 he)), List.map_cons, hrest]
    · have hnew : ¬ decide (fold e ∈ front.map fold) = true := by
        rw [decide_eq_true_iff, ← hseen]
        exact he
      rw [if_neg he] at hrest
      rw [if_neg he, if_neg hnew, hrest]

/-- A whole pass remarks on the entries whose form an earlier one has. -/
theorem repeatedEntries_eq_laterSpellings (entries : List String) :
    repeatedEntries fold [] entries = laterSpellings fold entries :=
  repeatedEntries_eq [] entries [] fun _ => Iff.rfl

theorem length_foldedSet (entries : List String) :
    (foldedSet fold entries).length = (entries.map fold).toFinset.card := by
  rw [foldedSet, ← List.toFinset_card_of_nodup (nodup_eraseDups _)]
  congr 1
  ext k
  rw [List.mem_toFinset, List.mem_toFinset, List.mem_eraseDups]

theorem length_foldedSet_add_laterSpellings (entries : List String) :
    (foldedSet fold entries).length + (laterSpellings fold entries).length = entries.length := by
  rw [← repeatedEntries_eq_laterSpellings, length_foldedSet_add_repeated]

end Pass

/-! ## Deny lists -/

/-- A type is denied exactly if an entry for types has its key, a base name exactly if an entry
for base names has its lower-case form, and the entries of one list have no part in the other.
The different forms are counted, and what is remarked on are the entries, types first, with the
form of an earlier one of the same list, so that each entry is either counted or remarked on. -/
theorem deny_list_exact (types bases : List String) :
    (∀ name, (Denied.ofEntries types bases).deniesType name = true ↔
        ∃ e ∈ types, typeKey e = typeKey name) ∧
      (∀ name, (Denied.ofEntries types bases).deniesBase name = true ↔
        ∃ e ∈ bases, Text.lowercase e = Text.lowercase name) ∧
      (∀ others name, (Denied.ofEntries types others).deniesType name =
        (Denied.ofEntries types bases).deniesType name) ∧
      (∀ others name, (Denied.ofEntries others bases).deniesBase name =
        (Denied.ofEntries types bases).deniesBase name) ∧
      (Denied.ofEntries types bases).typeKeys.length = (types.map typeKey).toFinset.card ∧
      (Denied.ofEntries types bases).baseNames.length =
        (bases.map Text.lowercase).toFinset.card ∧
      Denied.notices types bases =
        ((laterSpellings typeKey types).map fun e =>
            Notice.repeatedTypeName (TypeName.ofString e).text) ++
          (laterSpellings Text.lowercase bases).map Notice.repeatedBaseName ∧
      (Denied.ofEntries types bases).typeKeys.length + (laterSpellings typeKey types).length =
        types.length ∧
      (Denied.ofEntries types bases).baseNames.length +
          (laterSpellings Text.lowercase bases).length = bases.length := by
  refine ⟨fun _ => Denied.deniesType_ofEntries, fun _ => Denied.deniesBase_ofEntries,
    fun _ _ => rfl, fun _ _ => rfl, length_foldedSet types, length_foldedSet bases, ?_,
    length_foldedSet_add_laterSpellings types, length_foldedSet_add_laterSpellings bases⟩
  rw [Denied.notices, repeatedEntries_eq_laterSpellings, repeatedEntries_eq_laterSpellings]

/-- A separator in front, capitals and a final sigma make no other name. -/
example :
    Denied.notices ["App\\Order", "\\APP\\order"] ["οδος", "item", "ΟΔΟΣ"] =
      [.repeatedTypeName "APP\\order", .repeatedBaseName "ΟΔΟΣ"] := by decide +kernel

end Eponym
