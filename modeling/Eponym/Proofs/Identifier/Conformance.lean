/-
# Conformance is an order

A context in front of a name stays in front when the name is capitalized, and a name that is
capitalized once is not changed by capitalizing it again.  So if an identifier conforms to a
base name, its capitalized form ends in that of the base name; from this one fact conformance
goes on through further contexts, and leads back to the same name only from that name.

* `capitalizeChars_suffix` : capitalized forms end in one another;
* `conformance_order` : conformance is a partial order, and a context keeps it.
-/
import Eponym.Identifier.Conformance
import Mathlib

namespace Eponym

section Conformance

variable {a b c p s : List Char}

/-! ## Capitalized texts -/

theorem capitalizeChars_capitalizeChars (s : List Char) :
    capitalizeChars (capitalizeChars s) = capitalizeChars s := by
  cases s with
  | nil => rfl
  | cons c s =>
    rw [capitalizeChars, capitalizeChars, Char.toUpper_toUpper_eq_toUpper]

/-- Only the first of two texts is changed when they are capitalized end to end. -/
theorem capitalizeChars_append (hp : p ≠ []) :
    capitalizeChars (p ++ s) = capitalizeChars p ++ s := by
  obtain ⟨c, p, rfl⟩ := List.exists_cons_of_ne_nil hp
  rfl

/-- A text that ends in a capitalized one still does when it is capitalized. -/
theorem suffix_capitalizeChars (h : capitalizeChars b <:+ a) :
    capitalizeChars b <:+ capitalizeChars a := by
  obtain ⟨p, rfl⟩ := h
  by_cases hp : p = []
  · rw [hp, List.nil_append, capitalizeChars_capitalizeChars]
  · rw [capitalizeChars_append hp]
    exact List.suffix_append ..

/-! ## Conforming texts -/

/-- An identifier conforms if it is the base name or ends in its capitalized form. -/
theorem conformsChars_iff_suffix :
    conformsChars a b = true ↔ a = b ∨ b ≠ [] ∧ capitalizeChars b <:+ a := by
  rw [conformsChars_iff]
  exact or_congr_right (and_congr_right fun _ => exists_congr fun _ => eq_comm)

theorem conformsChars_nil : conformsChars a [] = true ↔ a = [] := by
  simp [conformsChars_iff_suffix]

/-- The capitalized form of an identifier ends in that of a base name to which it conforms. -/
theorem capitalizeChars_suffix (h : conformsChars a b = true) :
    capitalizeChars b <:+ capitalizeChars a := by
  rcases conformsChars_iff_suffix.1 h with rfl | ⟨-, hsuffix⟩
  · exact List.suffix_rfl
  · exact suffix_capitalizeChars hsuffix

/-- What conforms to an identifier conforms to its base name. -/
theorem conformsChars_trans (hab : conformsChars a b = true) (hbc : conformsChars b c = true) :
    conformsChars a c = true := by
  have hends := capitalizeChars_suffix hbc
  rcases conformsChars_iff_suffix.1 hab with rfl | ⟨-, hsuffix⟩
  · exact hbc
  · by_cases hc : c = []
    · rw [hc] at hbc ⊢
      rwa [conformsChars_nil.1 hbc] at hab
    · exact conformsChars_iff_suffix.2 (.inr ⟨hc, hends.trans hsuffix⟩)

/-- Names that conform to each other are the same. -/
theorem conformsChars_antisymm (hab : conformsChars a b = true) (hba : conformsChars b a = true) :
    a = b := by
  rcases conformsChars_iff_suffix.1 hab with heq | ⟨-, hsuffix⟩
  · exact heq
  · rcases conformsChars_iff_suffix.1 hba with heq | ⟨-, hsuffix'⟩
    · exact heq.symm
    · -- neither is longer than the other, so each is the capitalized form of the other
      have hle := hsuffix.length_le
      have hle' := hsuffix'.length_le
      rw [length_capitalizeChars] at hle hle'
      have ha : capitalizeChars b = a :=
        hsuffix.eq_of_length (by rw [length_capitalizeChars]; omega)
      have hb : capitalizeChars a = b :=
        hsuffix'.eq_of_length (by rw [length_capitalizeChars]; omega)
      rw [← hb, ← ha, capitalizeChars_capitalizeChars]

/-- A context in front of a conforming identifier leaves it conforming. -/
theorem conformsChars_context (hb : b ≠ []) (h : conformsChars a b = true) :
    conformsChars (p ++ capitalizeChars a) b = true := by
  refine conformsChars_iff_suffix.2 (.inr ⟨hb, ?_⟩)
  exact (capitalizeChars_suffix h).trans (List.suffix_append ..)

end Conformance

/-! ## Identifiers -/

/-- Conformance is a partial order on all texts, and a context in front of an accepted name
leaves it accepted, by one base name or by any of some. -/
theorem conformance_order :
    (∀ a : String, conforms a a = true) ∧
      (∀ a b c : String, conforms a b = true → conforms b c = true → conforms a c = true) ∧
      (∀ a b : String, conforms a b = true → conforms b a = true → a = b) ∧
      (∀ p a b : String, b ≠ "" → conforms a b = true →
        conforms (p ++ capitalize a) b = true) ∧
      (∀ (p a : String) (bases : List String), "" ∉ bases → conformsToAny a bases = true →
        conformsToAny (p ++ capitalize a) bases = true) := by
  have hcontext : ∀ p a b : String, b ≠ "" → conforms a b = true →
      conforms (p ++ capitalize a) b = true := by
    intro p a b hb h
    rw [conforms, String.toList_append, toList_capitalize]
    exact conformsChars_context (fun hnil => hb (String.toList_eq_nil_iff.1 hnil)) h
  refine ⟨conforms_self, fun a b c => conformsChars_trans, ?_, hcontext, ?_⟩
  · intro a b hab hba
    exact String.toList_inj.1 (conformsChars_antisymm hab hba)
  · intro p a bases hbases h
    obtain ⟨base, hbase, hconforms⟩ := conformsToAny_iff.1 h
    have hne : base ≠ "" := fun hnil => hbases (hnil ▸ hbase)
    exact conformsToAny_iff.2 ⟨base, hbase, hcontext p a base hne hconforms⟩

/-- A longer context in front of a name that has one. -/
theorem conformance_order_channel :
    conforms "localReadChannel" "readChannel" = true ∧ conforms "readChannel" "channel" = true ∧
      conforms "localReadChannel" "channel" = true ∧ decapitalize "Channel" = "channel" ∧
      conforms ("my" ++ capitalize "readChannel") "channel" = true ∧
      conformsToAny ("my" ++ capitalize "readChannel") ["stream", "channel"] = true := by
  have hlocal : conforms "localReadChannel" "readChannel" = true := by decide +kernel
  have hread : conforms "readChannel" "channel" = true := by decide +kernel
  obtain ⟨-, htrans, hantisymm, hcontext, hcontexts⟩ := conformance_order
  refine ⟨hlocal, hread, htrans _ _ _ hlocal hread, ?_, hcontext _ _ _ (by decide) hread, ?_⟩
  · exact hantisymm _ _ (by decide +kernel) (by decide +kernel)
  · exact hcontexts _ _ _ (by decide) (by decide +kernel)

end Eponym
