/-
# When data is decoded

A decoder that is made of others succeeds when those succeed on the parts they read.

* `inspect_eq_ok_iff` : known entries come once, and each has a value;
* `lookup_append_of_ne`, `repeats_append_of_notMem` : entries under other names do not matter;
* `required_eq_ok_iff`, `optional_nullable_sound` : a field has the value that its entry says;
* `list_eq_ok_iff`, `list_map_eq_ok_iff` : the items of a list are decoded one by one;
* `natural_eq_ok_iff`, `word_natural` : a machine word is read back.
-/
import Mathlib.Data.List.Forall2
import Eponym.Data.Decoder
import Eponym.Proofs.Except

namespace Eponym.Data

open List (Forall₂)

variable {α : Type}

/-! ## Entries -/

/-- If the entry is known it has a value. -/
def HasValue (known : List (String × Decoder Unit)) (e : String × Value) : Prop :=
  ∀ d, known.lookup e.1 = some d → d e.2 = .ok ()

/-- The entries of an object can be read if no known one repeats, and each has a value. -/
theorem inspect_eq_ok_iff {known : List (String × Decoder Unit)} {es : Entries} :
    inspect known es = .ok () ↔
      repeats (known.map Prod.fst) es = false ∧ ∀ e ∈ es, HasValue known e := by
  unfold inspect
  cases repeats (known.map Prod.fst) es with
  | true => simp
  | false =>
    rw [if_neg Bool.false_ne_true, Except.forM_eq_ok_iff]
    -- the order in which they are read does not matter
    simp only [List.mem_mergeSort, true_and]
    refine forall₂_congr fun e _ => ?_
    unfold HasValue
    cases known.lookup e.1 with
    | none => simp
    | some d => simp

/-- An entry that can be decoded as expected has a value. -/
theorem HasValue.of_lookup {known : List (String × Decoder Unit)} {d : Decoder α} {name : String}
    {v : Value} {a : α} (hname : known.lookup name = some (check d)) (hv : d v = .ok a) :
    HasValue known (name, v) := by
  intro d' hd'
  rw [hname] at hd'
  rw [← Option.some.inj hd']
  show check d v = _
  rw [check, hv]
  rfl

/-- An entry that is not known may have any value. -/
theorem HasValue.of_notMem {known : List (String × Decoder Unit)} {e : String × Value}
    (h : e.1 ∉ known.map Prod.fst) : HasValue known e := by
  intro d hd
  obtain ⟨before, after, hknown, -⟩ := List.lookup_eq_some_iff.1 hd
  refine absurd ?_ h
  rw [hknown]
  exact List.mem_map.2 ⟨(e.1, d), List.mem_append_right _ List.mem_cons_self, rfl⟩

theorem lookup_append_of_ne {own es : Entries} {name : String} (h : ∀ e ∈ own, e.1 ≠ name) :
    (own ++ es).lookup name = es.lookup name := by
  have hnone : own.lookup name = none :=
    List.lookup_eq_none_iff.2 fun e he => bne_iff_ne.2 (h e he).symm
  rw [List.lookup_append, hnone, Option.none_or]

/-- Entries that are not known do not make known ones repeat. -/
theorem repeats_append_of_notMem {names : List String} {own es : Entries}
    (h : ∀ e ∈ own, e.1 ∉ names) : repeats names (own ++ es) = repeats names es := by
  rw [repeats, repeats, Bool.eq_iff_iff, List.any_eq_true, List.any_eq_true]
  refine exists_congr fun name => and_congr_right fun hname => ?_
  have hown : own.filter (fun e => e.1 = name) = [] := by
    refine List.filter_eq_nil_iff.2 fun e he hsame => h e he ?_
    rw [of_decide_eq_true hsame]
    exact hname
  rw [List.filter_append, hown, List.nil_append]

theorem required_eq_ok_iff {d : Decoder α} {name : String} {es : Entries} {a : α} :
    required d name es = .ok a ↔ ∃ v, es.lookup name = some v ∧ d v = .ok a := by
  unfold required
  cases es.lookup name with
  | none => simp
  | some v => simp

/-- A value that is not null is decoded as such. -/
theorem nullable_sound {d : Decoder α} {v : Value} {a : α} (h : nullable d v = .ok (some a)) :
    d v = .ok a := by
  unfold nullable at h
  split at h
  · cases h
  · obtain ⟨b, hb, hab⟩ := Except.map_eq_ok_iff.1 h
    rw [hb, Option.some.inj hab]

/-- A field that may be left out has the value of its entry if it has one. -/
theorem optional_nullable_sound {d : Decoder α} {name : String} {es : Entries} {a : α}
    (h : optional (nullable d) none name es = .ok (some a)) :
    ∃ v, es.lookup name = some v ∧ d v = .ok a := by
  unfold optional at h
  cases hv : es.lookup name with
  | none =>
    rw [hv] at h
    cases h
  | some v =>
    rw [hv] at h
    exact ⟨v, rfl, nullable_sound h⟩

/-! ## Lists -/

/-- Values are decoded one by one. -/
theorem each_eq_ok_iff {d : Decoder α} {vs : List Value} {as : List α} :
    each d vs = .ok as ↔ Forall₂ (fun v a => d v = .ok a) vs as := by
  induction vs generalizing as with
  | nil =>
    rw [each, List.forall₂_nil_left_iff, Except.ok.injEq]
    exact eq_comm
  | cons v vs ih =>
    rw [each, Except.bind_eq_ok_iff, List.forall₂_cons_left_iff]
    constructor
    · rintro ⟨a, ha, h⟩
      obtain ⟨as', has, h⟩ := Except.bind_eq_ok_iff.1 h
      cases h
      exact ⟨a, as', ha, ih.1 has, rfl⟩
    · rintro ⟨a, as', ha, has, rfl⟩
      exact ⟨a, ha, Except.bind_eq_ok_iff.2 ⟨as', ih.2 has, rfl⟩⟩

theorem list_eq_ok_iff {d : Decoder α} {v : Value} {as : List α} :
    list d v = .ok as ↔ ∃ vs, items v = .ok vs ∧ Forall₂ (fun v a => d v = .ok a) vs as := by
  unfold list
  rw [Except.bind_eq_ok_iff]
  simp only [each_eq_ok_iff]

/-- Each item of a list was decoded. -/
theorem exists_of_mem_list {d : Decoder α} {v : Value} {as : List α} (h : list d v = .ok as) :
    ∀ a ∈ as, ∃ w, d w = .ok a := by
  obtain ⟨vs, -, hvs⟩ := list_eq_ok_iff.1 h
  clear h
  induction hvs with
  | nil => exact List.forall_mem_nil _
  | cons ha _ ih => exact List.forall_mem_cons.2 ⟨⟨_, ha⟩, ih⟩

theorem list_map_eq_ok_iff {d : Decoder α} {encode : α → Value} {as : List α} :
    list d (.list (as.map encode)) = .ok as ↔ ∀ a ∈ as, d (encode a) = .ok a := by
  have hsame := @List.forall₂_same α (fun a b => d (encode a) = .ok b) as
  rw [← hsame, ← List.forall₂_map_left_iff (R := fun v b => d v = .ok b), ← each_eq_ok_iff]
  rfl

/-! ## Scalars -/

/-- A number is read back exactly if it is that of a machine word. -/
theorem natural_eq_ok_iff {n : Nat} : natural (.natural n) = .ok n ↔ n < wordLimit := by
  by_cases h : n < wordLimit
  · simp [natural, h]
  · simp [natural, h]

/-- A machine word is read back from the number it is. -/
theorem word_natural (n : UInt64) : word (.natural n.toNat) = .ok n := by
  have h : natural (.natural n.toNat) = .ok n.toNat := natural_eq_ok_iff.2 n.toNat_lt
  rw [word, h, Except.map, UInt64.ofNat_toNat]

/-- So it is where there might be none. -/
theorem nullable_word_natural (n : UInt64) :
    nullable word (.natural n.toNat) = .ok (some n) := by
  show (word (.natural n.toNat)).map some = _
  rw [word_natural]
  rfl

end Eponym.Data
