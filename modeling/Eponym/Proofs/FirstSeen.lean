/-
# Laws of first occurrences

How `List.eraseDups` goes together with the operations that lists of names are built by:
concatenation, and going through a list to collect what each entry contributes.  What is
dropped early would have been dropped at the end as well.

* `eraseDups_flatMap_congr` : of a contribution only its first occurrences count;
* `mem_distinctBy`, `distinctBy_eq_eraseDups` : where a key determines its entry, none is lost;
* `distinctBy_flatMap_eraseDups` : repetitions of an entry contribute no new key.
-/
import Eponym.FirstSeen

namespace Eponym

section Repetitions

variable {α : Type} [DecidableEq α]

@[simp] theorem eraseDups_eraseDups (xs : List α) : xs.eraseDups.eraseDups = xs.eraseDups := by
  induction xs with
  | nil => rfl
  | cons x xs ih =>
    rw [eraseDups_cons_filter, eraseDups_cons_filter, eraseDups_filter, ih, List.filter_filter]
    simp only [Bool.and_self]

theorem eraseDups_append_eraseDups (xs ys : List α) :
    (xs ++ ys.eraseDups).eraseDups = (xs ++ ys).eraseDups := by
  rw [List.eraseDups_append, List.eraseDups_append, List.removeAll, List.removeAll,
    eraseDups_filter, eraseDups_filter, eraseDups_eraseDups]

theorem eraseDups_eraseDups_append (xs ys : List α) :
    (xs.eraseDups ++ ys).eraseDups = (xs ++ ys).eraseDups := by
  have hrest : ys.removeAll xs.eraseDups = ys.removeAll xs :=
    List.filter_congr fun y _ => by simp
  rw [List.eraseDups_append, List.eraseDups_append, eraseDups_eraseDups, hrest]

theorem eraseDups_append_congr {xs ys : List α} (h : xs.eraseDups = ys.eraseDups)
    (zs : List α) : (xs ++ zs).eraseDups = (ys ++ zs).eraseDups := by
  rw [← eraseDups_eraseDups_append, h, eraseDups_eraseDups_append]

end Repetitions

/-! ## Contributions -/

section Contribution

variable {α β : Type}

/-- Entries that are left out contribute nothing. -/
theorem flatMap_filter_eq (p : β → Bool) (f : β → List α) (xs : List β) :
    (xs.filter p).flatMap f = xs.flatMap fun x => if p x then f x else [] := by
  induction xs with
  | nil => rfl
  | cons x xs ih =>
    by_cases hx : p x
    · rw [List.filter_cons_of_pos hx, List.flatMap_cons, List.flatMap_cons, ih, if_pos hx]
    · rw [List.filter_cons_of_neg hx, List.flatMap_cons, ih, if_neg hx, List.nil_append]

variable [DecidableEq α]

/-- Of what an entry contributes only the first occurrences count. -/
theorem eraseDups_flatMap_congr {f g : β → List α} {xs : List β}
    (h : ∀ x ∈ xs, (f x).eraseDups = (g x).eraseDups) :
    (xs.flatMap f).eraseDups = (xs.flatMap g).eraseDups := by
  induction xs with
  | nil => rfl
  | cons x xs ih =>
    have hx := h x List.mem_cons_self
    have hxs := ih fun y hy => h y (List.mem_cons_of_mem x hy)
    rw [List.flatMap_cons, List.flatMap_cons, eraseDups_append_congr hx,
      ← eraseDups_append_eraseDups, hxs, eraseDups_append_eraseDups]

end Contribution

/-! ## Contributions with a key -/

section Key

variable {α β γ : Type} [DecidableEq γ]

/-- The keys of what is kept are the different keys. -/
theorem map_distinctBy (key : α → γ) (xs : List α) :
    (distinctBy key xs).map key = (xs.map key).eraseDups := by
  induction xs with
  | nil => rfl
  | cons x xs ih =>
    rw [distinctBy, List.map_cons, List.map_cons, eraseDups_cons_filter, ← ih, List.filter_map]
    rfl

/-- Where entries with one key are the same, each of them is kept. -/
theorem mem_distinctBy {key : α → γ} {x : α} {xs : List α}
    (h : ∀ y ∈ xs, key y = key x → y = x) : x ∈ distinctBy key xs ↔ x ∈ xs := by
  refine ⟨mem_of_mem_distinctBy, fun hx => ?_⟩
  have hkept : key x ∈ (distinctBy key xs).map key :=
    mem_map_distinctBy.2 (List.mem_map_of_mem hx)
  obtain ⟨y, hy, hkey⟩ := List.mem_map.1 hkept
  exact h y (mem_of_mem_distinctBy hy) hkey ▸ hy

/-- Where entries with one key are the same, the key may be left out of account. -/
theorem distinctBy_eq_eraseDups [DecidableEq α] {key : α → γ} {xs : List α}
    (h : ∀ x ∈ xs, ∀ y ∈ xs, key x = key y → x = y) : distinctBy key xs = xs.eraseDups := by
  induction xs with
  | nil => rfl
  | cons x xs ih =>
    have hxs := ih fun y hy z hz => h y (List.mem_cons_of_mem x hy) z (List.mem_cons_of_mem x hz)
    rw [distinctBy, eraseDups_cons_filter, hxs]
    congr 1
    refine List.filter_congr fun y hy => ?_
    have hmem : y ∈ x :: xs := List.mem_cons_of_mem x (List.mem_eraseDups.1 hy)
    have hkey : key y = key x ↔ y = x := ⟨h y hmem x List.mem_cons_self, congrArg key⟩
    simp only [ne_eq, hkey]

/-- Repetitions of an entry contribute no new key. -/
theorem distinctBy_flatMap_eraseDups [DecidableEq β] (key : α → γ) (f : β → List α)
    (xs : List β) :
    distinctBy key (xs.eraseDups.flatMap f) = distinctBy key (xs.flatMap f) := by
  induction xs with
  | nil => rfl
  | cons x xs ih =>
    -- the repetitions of `x` contribute only keys that the head has contributed already
    have hrep : ((xs.eraseDups.filter fun y => y ≠ x).flatMap f).filter
          (fun a => key a ∉ (f x).map key) =
        (xs.eraseDups.flatMap f).filter fun a => key a ∉ (f x).map key := by
      rw [flatMap_filter_eq, List.filter_flatMap, List.filter_flatMap]
      congr 1
      funext y
      by_cases hy : y = x
      · subst hy
        have hnone : (f y).filter (fun a => key a ∉ (f y).map key) = [] := by
          refine List.filter_eq_nil_iff.2 fun a ha => ?_
          simpa using ⟨a, ha, rfl⟩
        simpa using hnone.symm
      · simp [hy]
    have hnew : ∀ zs : List α, (distinctBy key zs).filter (fun a => key a ∉ (f x).map key) =
        distinctBy key (zs.filter fun a => key a ∉ (f x).map key) := fun zs =>
      (distinctBy_filter key (fun k => k ∉ (f x).map key) zs).symm
    rw [eraseDups_cons_filter, List.flatMap_cons, List.flatMap_cons, distinctBy_append,
      distinctBy_append, ← ih, hnew, hnew, hrep]

theorem eraseDups_flatMap_eraseDups [DecidableEq β] (f : β → List γ) (xs : List β) :
    (xs.eraseDups.flatMap f).eraseDups = (xs.flatMap f).eraseDups :=
  calc (xs.eraseDups.flatMap f).eraseDups = distinctBy id (xs.eraseDups.flatMap f) :=
        (distinctBy_id _).symm
    _ = distinctBy id (xs.flatMap f) := distinctBy_flatMap_eraseDups id f xs
    _ = (xs.flatMap f).eraseDups := distinctBy_id _

end Key

end Eponym
