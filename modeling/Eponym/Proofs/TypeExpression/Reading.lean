/-
# Reading signs, lists and brackets

The parts of the reader that do not depend on what a primary is.  A reader is set against
a language: it takes a phrase off the head of a text, and every phrase is taken if what
follows cannot belong to it.

* `Reads` : a reader takes the phrases of a language off the head of a text, and nothing else;
* `reads_joined` : lists of phrases with a sign between them;
* `readBrackets_sound`, `readBrackets_complete` : brackets behind a descriptor.
-/
import Mathlib.Data.List.DropRight
import Mathlib.Data.List.TakeWhile
import Eponym.Proofs.Except
import Eponym.Proofs.TypeExpression.Grammar

namespace Eponym.TypeExpression

/-! ## White space -/

@[simp] theorem skipSpace_skipSpace (s : List Char) : skipSpace (skipSpace s) = skipSpace s :=
  List.dropWhile_idempotent isSpace s

theorem skipSpace_append {u : List Char} (h : skipSpace u ≠ []) (s : List Char) :
    skipSpace (u ++ s) = skipSpace u ++ s := by
  unfold skipSpace at *
  rw [List.dropWhile_append, if_neg (by simpa using h)]

theorem skipSpace_append_of_eq_nil {u : List Char} (h : skipSpace u = []) (s : List Char) :
    skipSpace (u ++ s) = skipSpace s := by
  unfold skipSpace at *
  rw [List.dropWhile_append, if_pos (by simpa using h)]

theorem length_skipSpace_le (s : List Char) : (skipSpace s).length ≤ s.length :=
  (List.dropWhile_sublist _).length_le

theorem exists_blank (s : List Char) : ∃ u, skipSpace u = [] ∧ s = u ++ skipSpace s := by
  refine ⟨s.takeWhile isSpace, ?_, List.takeWhile_append_dropWhile.symm⟩
  unfold skipSpace
  rw [List.dropWhile_eq_nil_iff]
  intro c hc
  exact List.mem_takeWhile_imp hc

/-- A text divides into a first sign, with white space in front, and the rest. -/
theorem exists_isSign {s r : List Char} {c : Char} (h : skipSpace s = c :: r) :
    ∃ u, s = u ++ r ∧ IsSign c u := by
  induction s with
  | nil => cases h
  | cons b s ih =>
    by_cases hb : isSpace b = true
    · rw [skipSpace, List.dropWhile_cons_of_pos hb] at h
      obtain ⟨u, rfl, hu⟩ := ih h
      refine ⟨b :: u, rfl, ?_⟩
      rw [IsSign, skipSpace, List.dropWhile_cons_of_pos hb]
      exact hu
    · rw [skipSpace, List.dropWhile_cons_of_neg hb] at h
      obtain ⟨rfl, rfl⟩ := List.cons.inj h
      refine ⟨[b], rfl, ?_⟩
      rw [IsSign, skipSpace, List.dropWhile_cons_of_neg hb]

theorem IsSign.skipSpace_append {c : Char} {u : List Char} (h : IsSign c u) (s : List Char) :
    skipSpace (u ++ s) = c :: s := by
  rw [TypeExpression.skipSpace_append (by rw [h]; exact List.cons_ne_nil c []) s, h]
  rfl

theorem IsSign.ne_nil {c : Char} {u : List Char} (h : IsSign c u) : u ≠ [] := by
  rintro rfl
  exact absurd h (List.cons_ne_nil c []).symm

/-- The character that comes next after white space, if there is any. -/
def next (s : List Char) : Option Char := (skipSpace s).head?

theorem next_congr {s t : List Char} (h : skipSpace s = skipSpace t) : next s = next t := by
  rw [next, next, h]

theorem IsSign.next_append {c : Char} {u : List Char} (h : IsSign c u) (s : List Char) :
    next (u ++ s) = some c := by
  rw [next, h.skipSpace_append]
  rfl

/-! ## Signs -/

/-- A sign is expected where it stands, and nothing but the sign is read. -/
theorem expect_eq_ok_iff {c : Char} {s r : List Char} :
    expect c s = .ok r ↔ skipSpace s = c :: r := by
  unfold expect
  cases skipSpace s with
  | nil => simp
  | cons b t =>
    by_cases hb : b = c
    · subst hb
      simp
    · simp [hb]

theorem build_eq_ok_iff {d e : Descriptor} {s r : List Char} :
    build d s = .ok (e, r) ↔ Fits d ∧ d = e ∧ s = r := by
  unfold build Fits
  by_cases h : d.height ≤ depthLimit
  · simp [h]
  · simp [h]

/-! ## Readers -/

/-- A reader takes the phrases of a language off the head of a text, whenever what comes
next is one of the given signs or the end.  White space may be skipped after the phrase. -/
structure Reads (f : Reader) (L : Language Descriptor) (follow : List (Option Char)) : Prop where
  sound : ∀ {s d r}, f s = .ok (d, r) → ∃ w t, s = w ++ t ∧ skipSpace t = skipSpace r ∧ L w d
  complete : ∀ {w d} t, L w d → next t ∈ follow →
    ∃ r, f (w ++ t) = .ok (d, r) ∧ skipSpace r = skipSpace t

section Lists

variable {sign : Char} {item : Reader} {L : Language Descriptor} {follow : List (Option Char)}

/-- What follows in a list depends only on what is left after white space. -/
theorem readFurther_congr {s t : List Char} (h : skipSpace s = skipSpace t) (n : Nat) :
    readFurther sign item n s = readFurther sign item n t := by
  cases n with
  | zero => rw [readFurther, readFurther, h]
  | succ n => rw [readFurther, readFurther, h]

/-- Further entries are read off the head of a text. -/
theorem readFurther_sound (h : Reads item L (some sign :: follow)) (n : Nat) :
    ∀ {s r : List Char} {ds : List Descriptor}, readFurther sign item n s = .ok (ds, r) →
      ∃ v t, s = v ++ t ∧ skipSpace t = skipSpace r ∧ Further sign L v ds := by
  induction n with
  | zero =>
    intro s r ds hr
    rw [readFurther] at hr
    cases hr
    exact ⟨[], s, rfl, (skipSpace_skipSpace s).symm, .nil⟩
  | succ n ih =>
    intro s r ds hr
    rw [readFurther] at hr
    cases hs : skipSpace s with
    | nil =>
      rw [hs] at hr
      cases hr
      exact ⟨[], s, rfl, hs, .nil⟩
    | cons c t =>
      simp only [hs] at hr
      by_cases hc : c = sign
      · rw [if_pos hc] at hr
        obtain ⟨⟨d, t₁⟩, hd, hr⟩ := Except.bind_eq_ok_iff.1 hr
        obtain ⟨⟨es, t₂⟩, hes, hr⟩ := Except.bind_eq_ok_iff.1 hr
        cases hr
        obtain ⟨u, rfl, hu⟩ := exists_isSign hs
        obtain ⟨w, t₁', rfl, ht₁, hw⟩ := h.sound hd
        rw [← readFurther_congr ht₁] at hes
        obtain ⟨v, t', rfl, ht', hv⟩ := ih hes
        refine ⟨u ++ (w ++ v), t', by simp only [List.append_assoc], ht', ?_⟩
        exact .cons (hc ▸ hu) hw hv
      · rw [if_neg hc] at hr
        cases hr
        exact ⟨[], s, rfl, by rw [← hs, skipSpace_skipSpace], .nil⟩

/-- Behind an entry the sign comes next if there are others, and else what follows the list. -/
theorem Further.next_append_mem {v : List Char} {ds : List Descriptor} (hv : Further sign L v ds)
    {t : List Char} (ht : next t ∈ follow) : next (v ++ t) ∈ some sign :: follow := by
  cases hv with
  | nil => exact List.mem_cons_of_mem _ ht
  | cons hu hw hv =>
    rw [List.append_assoc, hu.next_append]
    exact List.mem_cons_self

/-- Where the sign does not come next the list ends. -/
theorem readFurther_of_next_ne {s : List Char} (hs : next s ≠ some sign) (n : Nat) :
    readFurther sign item n s = .ok ([], skipSpace s) := by
  cases n with
  | zero => rw [readFurther]
  | succ n =>
    rw [readFurther]
    cases h : skipSpace s with
    | nil => rfl
    | cons c t =>
      have hc : c ≠ sign := by
        intro hc
        rw [next, h, hc] at hs
        exact hs rfl
      simp only [if_neg hc]

/-- All further entries are read if there is enough fuel and none of them can go on. -/
theorem readFurther_complete (h : Reads item L (some sign :: follow)) (hsign : some sign ∉ follow)
    {v : List Char} {ds : List Descriptor} (hv : Further sign L v ds) :
    ∀ (n : Nat) {s : List Char} (t : List Char), skipSpace s = skipSpace (v ++ t) →
      (skipSpace s).length ≤ n → next t ∈ follow →
      ∃ r, readFurther sign item n s = .ok (ds, r) ∧ skipSpace r = skipSpace t := by
  induction hv with
  | nil =>
    intro n s t hs hn ht
    have hne : next s ≠ some sign := by
      rw [next_congr hs, List.nil_append]
      exact fun h => hsign (h ▸ ht)
    refine ⟨skipSpace s, readFurther_of_next_ne hne n, ?_⟩
    rw [skipSpace_skipSpace, hs, List.nil_append]
  | @cons u w v d ds hu hw hv ih =>
    intro n s t hs hn ht
    rw [List.append_assoc, List.append_assoc, hu.skipSpace_append] at hs
    rw [hs, List.length_cons] at hn
    obtain ⟨n, rfl⟩ := Nat.exists_eq_add_one_of_ne_zero (show n ≠ 0 by omega)
    obtain ⟨r₁, hd, hr₁⟩ := h.complete (v ++ t) hw (hv.next_append_mem ht)
    have hlen : (skipSpace r₁).length ≤ n := by
      have h₁ := length_skipSpace_le (v ++ t)
      rw [List.length_append] at hn
      rw [hr₁]
      omega
    obtain ⟨r, hds, hr⟩ := ih n t hr₁ hlen ht
    refine ⟨r, ?_, hr⟩
    rw [readFurther, hs]
    simp only [if_pos]
    exact Except.bind_eq_ok_iff.2 ⟨_, hd, Except.bind_eq_ok_iff.2 ⟨_, hds, rfl⟩⟩

/-- A list of phrases is read, an entry first and then the others. -/
theorem readList_eq_ok_iff {s r : List Char} {ds : List Descriptor} :
    readList sign item s = .ok (ds, r) ↔ ∃ d r₁ es, item s = .ok (d, r₁) ∧
      readFurther sign item r₁.length r₁ = .ok (es, r) ∧ ds = d :: es := by
  unfold readList
  rw [Except.bind_eq_ok_iff]
  constructor
  · rintro ⟨⟨d, r₁⟩, hd, hr⟩
    obtain ⟨⟨es, r₂⟩, hes, hr⟩ := Except.bind_eq_ok_iff.1 hr
    cases hr
    exact ⟨d, r₁, es, hd, hes, rfl⟩
  · rintro ⟨d, r₁, es, hd, hes, rfl⟩
    exact ⟨_, hd, Except.bind_eq_ok_iff.2 ⟨_, hes, rfl⟩⟩

/-- What is read as a list is an entry and further ones. -/
theorem readList_sound (h : Reads item L (some sign :: follow)) {s r : List Char}
    {ds : List Descriptor} (hr : readList sign item s = .ok (ds, r)) :
    ∃ w v t d es, s = w ++ (v ++ t) ∧ skipSpace t = skipSpace r ∧ L w d ∧
      Further sign L v es ∧ ds = d :: es := by
  obtain ⟨d, r₁, es, hd, hes, rfl⟩ := readList_eq_ok_iff.1 hr
  obtain ⟨w, t₁, rfl, ht₁, hw⟩ := h.sound hd
  rw [← readFurther_congr ht₁] at hes
  obtain ⟨v, t, rfl, ht, hv⟩ := readFurther_sound h _ hes
  exact ⟨w, v, t, d, es, rfl, ht, hw, hv, rfl⟩

/-- An entry and further ones are read as a list. -/
theorem readList_complete (h : Reads item L (some sign :: follow)) (hsign : some sign ∉ follow)
    {w v : List Char} {d : Descriptor} {es : List Descriptor} (hw : L w d)
    (hv : Further sign L v es) (t : List Char) (ht : next t ∈ follow) :
    ∃ r, readList sign item (w ++ (v ++ t)) = .ok (d :: es, r) ∧ skipSpace r = skipSpace t := by
  obtain ⟨r₁, hd, hr₁⟩ := h.complete (v ++ t) hw (hv.next_append_mem ht)
  obtain ⟨r, hes, hr⟩ := readFurther_complete h hsign hv _ t hr₁ (length_skipSpace_le r₁) ht
  exact ⟨r, readList_eq_ok_iff.2 ⟨d, r₁, es, hd, hes, rfl⟩, hr⟩

/-- A list is joined to one descriptor. -/
theorem reads_joined (h : Reads item L (some sign :: follow)) (hsign : some sign ∉ follow)
    (join : List Descriptor → Descriptor) :
    Reads (fun s => do
      let (ds, r) ← readList sign item s
      combine join ds r) (Joined sign join L) follow := by
  constructor
  · intro s d r hr
    obtain ⟨⟨ds, r₁⟩, hds, hr⟩ := Except.bind_eq_ok_iff.1 hr
    obtain ⟨w, v, t, e, es, rfl, ht, hw, hv, rfl⟩ := readList_sound h hds
    cases hv with
    | nil =>
      cases hr
      exact ⟨w, t, rfl, ht, .single hw⟩
    | cons hu hw' hv' =>
      obtain ⟨hf, rfl, rfl⟩ := build_eq_ok_iff.1 hr
      exact ⟨_, t, (List.append_assoc _ _ _).symm, ht, .several hw (.cons hu hw' hv') hf⟩
  · intro w d t hw ht
    cases hw with
    | single hw =>
      obtain ⟨r, hds, hr⟩ := readList_complete h hsign hw .nil t ht
      exact ⟨r, Except.bind_eq_ok_iff.2 ⟨_, hds, rfl⟩, hr⟩
    | several hw hv hf =>
      obtain ⟨r, hds, hr⟩ := readList_complete h hsign hw hv t ht
      rw [List.append_assoc]
      exact ⟨r, Except.bind_eq_ok_iff.2 ⟨_, hds, build_eq_ok_iff.2 ⟨hf, rfl, rfl⟩⟩, hr⟩

end Lists

/-! ## Brackets -/

/-- What the brackets are depends only on what is left after white space. -/
theorem readBrackets_congr {s t : List Char} (h : skipSpace s = skipSpace t) (n : Nat)
    (d : Descriptor) : readBrackets n d s = readBrackets n d t := by
  cases n with
  | zero => rw [readBrackets, readBrackets, h]
  | succ n => rw [readBrackets, readBrackets, h]

/-- Where no bracket comes next there are none. -/
theorem readBrackets_of_next_ne {s : List Char} (hs : next s ≠ some '[') (n : Nat)
    (d : Descriptor) : readBrackets n d s = .ok (d, skipSpace s) := by
  cases n with
  | zero => rw [readBrackets]
  | succ n =>
    rw [readBrackets]
    cases h : skipSpace s with
    | nil => rfl
    | cons c t =>
      have hc : c ≠ '[' := by
        intro hc
        rw [next, h, hc] at hs
        exact hs rfl
      simp only [if_neg hc]

/-- One pair of brackets is read, and then the others. -/
theorem readBrackets_succ_eq_ok_iff {n : Nat} {d e : Descriptor} {s t r : List Char}
    (hs : skipSpace s = '[' :: t) :
    readBrackets (n + 1) d s = .ok (e, r) ↔ ∃ t₁, skipSpace t = ']' :: t₁ ∧
      Fits (.iterable d) ∧ readBrackets n (.iterable d) t₁ = .ok (e, r) := by
  rw [readBrackets, hs]
  simp only [if_true]
  rw [Except.bind_eq_ok_iff]
  constructor
  · rintro ⟨t₁, ht₁, hr⟩
    obtain ⟨⟨d₁, t₂⟩, hd₁, hr⟩ := Except.bind_eq_ok_iff.1 hr
    obtain ⟨hf, rfl, rfl⟩ := build_eq_ok_iff.1 hd₁
    exact ⟨t₁, expect_eq_ok_iff.1 ht₁, hf, hr⟩
  · rintro ⟨t₁, ht₁, hf, hr⟩
    exact ⟨t₁, expect_eq_ok_iff.2 ht₁,
      Except.bind_eq_ok_iff.2 ⟨_, build_eq_ok_iff.2 ⟨hf, rfl, rfl⟩, hr⟩⟩

/-- Brackets are read off the head of a text, the first of them next. -/
theorem readBrackets_sound (n : Nat) :
    ∀ {d e : Descriptor} {s r : List Char}, readBrackets n d s = .ok (e, r) →
      ∃ v t, s = v ++ t ∧ skipSpace t = skipSpace r ∧ Brackets d v e ∧
        (v ≠ [] → next s = some '[') := by
  induction n with
  | zero =>
    intro d e s r hr
    rw [readBrackets] at hr
    cases hr
    exact ⟨[], s, rfl, (skipSpace_skipSpace s).symm, .nil, fun h => absurd rfl h⟩
  | succ n ih =>
    intro d e s r hr
    by_cases hs : next s = some '['
    · obtain ⟨t, ht⟩ := List.head?_eq_some_iff.1 hs
      obtain ⟨t₁, ht₁, hf, hr₁⟩ := (readBrackets_succ_eq_ok_iff ht).1 hr
      obtain ⟨u, rfl, hu⟩ := exists_isSign ht
      obtain ⟨v, rfl, hv⟩ := exists_isSign ht₁
      obtain ⟨w, t', rfl, ht', hw, -⟩ := ih hr₁
      refine ⟨u ++ (v ++ w), t', by simp only [List.append_assoc], ht', ?_, fun _ => hs⟩
      exact .cons hu hv hf hw
    · rw [readBrackets_of_next_ne hs] at hr
      cases hr
      exact ⟨[], s, rfl, (skipSpace_skipSpace s).symm, .nil, fun h => absurd rfl h⟩

/-- With enough fuel no bracket is left behind. -/
theorem next_ne_of_readBrackets (n : Nat) :
    ∀ {d e : Descriptor} {s r : List Char}, (skipSpace s).length ≤ n →
      readBrackets n d s = .ok (e, r) → next r ≠ some '[' := by
  induction n with
  | zero =>
    intro d e s r hn hr
    have hs : skipSpace s = [] := List.length_eq_zero_iff.1 (Nat.le_zero.1 hn)
    rw [readBrackets, hs] at hr
    cases hr
    exact fun h => nomatch h
  | succ n ih =>
    intro d e s r hn hr
    by_cases hs : next s = some '['
    · obtain ⟨t, ht⟩ := List.head?_eq_some_iff.1 hs
      obtain ⟨t₁, ht₁, -, hr⟩ := (readBrackets_succ_eq_ok_iff ht).1 hr
      refine ih ?_ hr
      have h₁ := length_skipSpace_le t
      have h₂ := length_skipSpace_le t₁
      rw [ht, List.length_cons] at hn
      rw [ht₁, List.length_cons] at h₁
      omega
    · rw [readBrackets_of_next_ne hs] at hr
      cases hr
      rwa [next, skipSpace_skipSpace]

/-- All brackets are read if there is enough fuel and no other bracket follows. -/
theorem readBrackets_complete {d e : Descriptor} {v : List Char} (hv : Brackets d v e) :
    ∀ (n : Nat) {s : List Char} (t : List Char), skipSpace s = skipSpace (v ++ t) →
      (skipSpace s).length ≤ n → next t ≠ some '[' →
      ∃ r, readBrackets n d s = .ok (e, r) ∧ skipSpace r = skipSpace t := by
  induction hv with
  | nil =>
    intro n s t hs _ ht
    refine ⟨skipSpace s, readBrackets_of_next_ne ?_ n _, ?_⟩
    · rw [next_congr hs]
      exact ht
    · rw [skipSpace_skipSpace, hs, List.nil_append]
  | @cons d e u v w hu hv hf hw ih =>
    intro n s t hs hn ht
    rw [List.append_assoc, List.append_assoc, hu.skipSpace_append] at hs
    rw [hs, List.length_cons, List.length_append, List.length_append] at hn
    obtain ⟨n, rfl⟩ := Nat.exists_eq_add_one_of_ne_zero (show n ≠ 0 by omega)
    have hlen : (skipSpace (w ++ t)).length ≤ n := by
      have h₁ := length_skipSpace_le (w ++ t)
      rw [List.length_append] at h₁
      omega
    obtain ⟨r, hr, hrt⟩ := ih n t rfl hlen ht
    exact ⟨r, (readBrackets_succ_eq_ok_iff hs).2 ⟨w ++ t, hv.skipSpace_append _, hf, hr⟩, hrt⟩

end Eponym.TypeExpression
