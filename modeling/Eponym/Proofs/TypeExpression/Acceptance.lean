/-
# What is accepted as a type expression

A text is read as a descriptor exactly when the grammar says that it stands for it,
brackets behind a primary with `?` being those of what follows the `?`.  Each level of
the reader is set against its level of the grammar.

* `reads_union` : from primaries to unions;
* `reads_primary` : from one depth of nesting to the next;
* `parse_eq_ok_iff` : whole expressions.
-/
import Eponym.Proofs.TypeExpression.Reading

namespace Eponym.TypeExpression

/-! ## Levels -/

/-- What may follow a union, an intersection, a suffixed type, or a primary. -/
def afterUnion : List (Option Char) := [none, some ',', some ')', some '>']

@[inherit_doc afterUnion] def afterBoth : List (Option Char) := some '|' :: afterUnion

@[inherit_doc afterUnion] def afterSuffixed : List (Option Char) := some '&' :: afterBoth

@[inherit_doc afterUnion] def afterPrimary : List (Option Char) := some '[' :: afterSuffixed

/-- A reader takes primaries off the head of a text.  Brackets behind a primary that starts
with `?` it does not leave, and does not expect. -/
structure ReadsPrimary (f : Reader) (P : Language Descriptor) : Prop where
  sound : ∀ {s d r}, f s = .ok (d, r) → ∃ w t, s = w ++ t ∧ skipSpace t = skipSpace r ∧
    P w d ∧ (FirmPrimary w ∨ next t ≠ some '[')
  complete : ∀ {w d} t, P w d → next t ∈ afterPrimary →
    (FirmPrimary w ∨ next t ≠ some '[') → ∃ r, f (w ++ t) = .ok (d, r) ∧ skipSpace r = skipSpace t

section Levels

variable {primary : Reader} {P : Language Descriptor}

/-- Behind a suffixed type no bracket is left. -/
theorem next_ne_of_readSuffixed {s r : List Char} {d : Descriptor}
    (hr : readSuffixed primary s = .ok (d, r)) : next r ≠ some '[' := by
  obtain ⟨⟨e, t⟩, -, hr⟩ := Except.bind_eq_ok_iff.1 hr
  exact next_ne_of_readBrackets _ (length_skipSpace_le t) hr

/-- From primaries to suffixed types. -/
theorem reads_suffixed (h : ReadsPrimary primary P) :
    Reads (readSuffixed primary) (Suffixed FirmPrimary P) afterSuffixed := by
  constructor
  · intro s e r hr
    obtain ⟨⟨d, r₁⟩, hd, he⟩ := Except.bind_eq_ok_iff.1 hr
    obtain ⟨w, t₁, rfl, ht₁, hw, hfirm⟩ := h.sound hd
    have he' : readBrackets r₁.length d t₁ = .ok (e, r) := by
      rw [readBrackets_congr ht₁]
      exact he
    obtain ⟨v, t, rfl, ht, hv, hnext⟩ := readBrackets_sound _ he'
    refine ⟨w ++ v, t, (List.append_assoc _ _ _).symm, ht, .intro hw hv fun hne => ?_⟩
    exact hfirm.resolve_right fun h => h (hnext hne)
  · intro x e t hx ht
    have hbracket : next t ≠ some '[' := by
      intro h
      rw [h] at ht
      exact absurd ht (by decide)
    cases hx with
    | @intro w v d _ hw hv hfirm =>
      -- what follows the primary is a bracket or what follows the whole
      have hnext : next (v ++ t) ∈ afterPrimary ∧
          (FirmPrimary w ∨ next (v ++ t) ≠ some '[') := by
        cases hv with
        | nil => exact ⟨List.mem_cons_of_mem _ ht, .inr hbracket⟩
        | cons hu hv hf hw =>
          rw [List.append_assoc, hu.next_append]
          exact ⟨List.mem_cons_self, .inl (hfirm (by simp [hu.ne_nil]))⟩
      obtain ⟨r₁, hd, hr₁⟩ := h.complete (v ++ t) hw hnext.1 hnext.2
      obtain ⟨r, he, hr⟩ :=
        readBrackets_complete hv r₁.length t hr₁ (length_skipSpace_le r₁) hbracket
      rw [List.append_assoc]
      exact ⟨r, Except.bind_eq_ok_iff.2 ⟨_, hd, he⟩, hr⟩

theorem reads_both (h : ReadsPrimary primary P) :
    Reads (readBoth primary) (Both FirmPrimary P) afterBoth :=
  reads_joined (reads_suffixed h) (by decide) .intersection

theorem reads_union (h : ReadsPrimary primary P) :
    Reads (readUnion primary) (Union FirmPrimary P) afterUnion :=
  reads_joined (reads_both h) (by decide) .union

/-! ## Arguments -/

/-- A reader that may be followed by more may be followed by less. -/
theorem Reads.mono {f : Reader} {L : Language Descriptor} {follow follow' : List (Option Char)}
    (h : Reads f L follow) (hsub : ∀ c ∈ follow', c ∈ follow) : Reads f L follow' :=
  ⟨h.sound, fun t hw ht => h.complete t hw (hsub _ ht)⟩

theorem reads_argument (h : ReadsPrimary primary P) :
    Reads (readUnion primary) (Union FirmPrimary P) [some ',', some '>'] :=
  (reads_union h).mono (by decide)

/-- Arguments are read off the head of a text. -/
theorem readArguments_sound (h : ReadsPrimary primary P) {s r : List Char}
    {ds : List Descriptor} (hr : readArguments primary s = .ok (ds, r)) :
    ∃ w t, s = w ++ t ∧ skipSpace t = skipSpace r ∧ Arguments FirmPrimary P w ds := by
  unfold readArguments at hr
  cases hs : skipSpace s with
  | nil =>
    rw [hs] at hr
    cases hr
    exact ⟨[], s, rfl, hs, .none⟩
  | cons c t =>
    simp only [hs] at hr
    by_cases hc : c = '<'
    · rw [if_pos hc] at hr
      obtain ⟨⟨es, t₁⟩, hes, hr₁⟩ := Except.bind_eq_ok_iff.1 hr
      obtain ⟨t₂, ht₂, hr₂⟩ := Except.bind_eq_ok_iff.1 hr₁
      cases hr₂
      obtain ⟨u, rfl, hu⟩ := exists_isSign hs
      obtain ⟨w, v, t', d, es, rfl, ht', hw, hv, rfl⟩ := readList_sound (reads_argument h) hes
      rw [expect_eq_ok_iff, ← ht'] at ht₂
      obtain ⟨x, rfl, hx⟩ := exists_isSign ht₂
      refine ⟨u ++ (w ++ (v ++ x)), _, by simp only [List.append_assoc], rfl, ?_⟩
      exact .some (hc ▸ hu) hw hv hx
    · rw [if_neg hc] at hr
      cases hr
      exact ⟨[], s, rfl, by rw [← hs, skipSpace_skipSpace], .none⟩

/-- All arguments are read in front of anything that may follow a primary. -/
theorem readArguments_complete (h : ReadsPrimary primary P) {w : List Char}
    {ds : List Descriptor} (hw : Arguments FirmPrimary P w ds) (t : List Char)
    (ht : next t ∈ afterPrimary) :
    ∃ r, readArguments primary (w ++ t) = .ok (ds, r) ∧ skipSpace r = skipSpace t := by
  cases hw with
  | none =>
    refine ⟨skipSpace t, ?_, skipSpace_skipSpace t⟩
    unfold readArguments
    rw [List.nil_append]
    cases hs : skipSpace t with
    | nil => rfl
    | cons c r =>
      -- no bracket may follow a primary
      have hc : c ≠ '<' := by
        rintro rfl
        have hopen : next t = some '<' := congrArg List.head? hs
        rw [hopen] at ht
        exact absurd ht (by decide)
      simp only [if_neg hc]
  | @some u w v x d ds hu hw hv hx =>
    have hx' : next (x ++ t) ∈ [some '>'] := by
      rw [hx.next_append]
      exact List.mem_cons_self
    obtain ⟨r, hds, hr⟩ := readList_complete (reads_argument h) (by decide) hw hv _ hx'
    refine ⟨t, ?_, rfl⟩
    unfold readArguments
    simp only [List.append_assoc]
    rw [hu.skipSpace_append]
    simp only [if_true]
    refine Except.bind_eq_ok_iff.2 ⟨_, hds, Except.bind_eq_ok_iff.2 ⟨t, ?_, rfl⟩⟩
    rw [expect_eq_ok_iff, hr]
    exact hx.skipSpace_append t

/-! ## Names -/

/-- A word for iterables is no other keyword. -/
theorem iterable_exclusive {k : String} (h : k ∈ iterableKeywords) :
    k ≠ "null" ∧ k ∉ scalarKeywords := by
  have hall : ∀ k ∈ iterableKeywords, k ≠ "null" ∧ k ∉ scalarKeywords := by decide
  exact hall k h

/-- A word for iterables is read with its arguments as what it stands for. -/
theorem interpret_iterable_eq_ok_iff {name : List Char} (hi : keyword name ∈ iterableKeywords)
    {ds : List Descriptor} {start s r : List Char} {d : Descriptor} :
    interpret name ds start s = .ok (d, r) ↔ Denotes name ds d ∧ s = r := by
  obtain ⟨hn, hs⟩ := iterable_exclusive hi
  have hc : iterableKeywords.contains (keyword name) = true := List.contains_iff_mem.2 hi
  unfold interpret
  simp only [show String.ofList (name.map Char.toLower) = keyword name from rfl, hc, if_true]
  constructor
  · intro hr
    match ds, hr with
    | [], hr =>
      obtain ⟨-, rfl, rfl⟩ := build_eq_ok_iff.1 hr
      exact ⟨.mixed hi, rfl⟩
    | [v], hr =>
      obtain ⟨hf, rfl, rfl⟩ := build_eq_ok_iff.1 hr
      exact ⟨.iterable hi hf, rfl⟩
    | [k, v], hr =>
      obtain ⟨hf, rfl, rfl⟩ := build_eq_ok_iff.1 hr
      exact ⟨.keyed hi hf, rfl⟩
  · rintro ⟨hd, rfl⟩
    cases hd with
    | mixed => exact build_eq_ok_iff.2 ⟨by decide, rfl, rfl⟩
    | iterable _ hf => exact build_eq_ok_iff.2 ⟨hf, rfl, rfl⟩
    | keyed _ hf => exact build_eq_ok_iff.2 ⟨hf, rfl, rfl⟩
    | null h => exact absurd h hn
    | scalar h => exact absurd h hs
    | named h => exact absurd hi h

/-- What a name that is no word for iterables stands for, whatever its arguments. -/
def plainMeaning (name : List Char) : Descriptor :=
  if keyword name = "null" then .null
  else if keyword name ∈ scalarKeywords then .scalar (String.ofList name)
  else .ofName (String.ofList name)

/-- A name that is no word for iterables stands for one descriptor. -/
theorem denotes_iff_of_not_iterable {name : List Char} (hi : keyword name ∉ iterableKeywords)
    {ds : List Descriptor} {d : Descriptor} : Denotes name ds d ↔ d = plainMeaning name := by
  unfold plainMeaning
  constructor
  · intro hd
    cases hd with
    | mixed h => exact absurd h hi
    | iterable h => exact absurd h hi
    | keyed h => exact absurd h hi
    | null h => rw [if_pos h]
    | scalar h =>
      have hn : keyword name ≠ "null" := by
        intro hn
        rw [hn] at h
        exact absurd h (by decide)
      rw [if_neg hn, if_pos h]
    | named _ hn hs => rw [if_neg hn, if_neg hs]
  · rintro rfl
    by_cases hn : keyword name = "null"
    · rw [if_pos hn]
      exact .null hn
    · rw [if_neg hn]
      by_cases hs : keyword name ∈ scalarKeywords
      · rw [if_pos hs]
        exact .scalar hs
      · rw [if_neg hs]
        exact .named hi hn hs

/-- A name that is no word for iterables is read as what it stands for. -/
theorem interpret_of_not_iterable {name : List Char} (hi : keyword name ∉ iterableKeywords)
    (ds : List Descriptor) (start s : List Char) :
    interpret name ds start s = .ok (plainMeaning name, s) := by
  have hc : iterableKeywords.contains (keyword name) = false := by
    rw [Bool.eq_false_iff, ne_eq, List.contains_iff_mem]
    exact hi
  unfold interpret plainMeaning
  simp only [show String.ofList (name.map Char.toLower) = keyword name from rfl, hc,
    Bool.false_eq_true, if_false, List.contains_iff_mem]
  by_cases hn : keyword name = "null"
  · rw [if_pos hn, if_pos hn]
  · rw [if_neg hn, if_neg hn]
    by_cases hs : keyword name ∈ scalarKeywords
    · rw [if_pos hs, if_pos hs]
    · rw [if_neg hs, if_neg hs]

/-- What a name is read as is what it stands for. -/
theorem interpret_eq_ok_iff {name : List Char} {ds : List Descriptor} {start s r : List Char}
    {d : Descriptor} : interpret name ds start s = .ok (d, r) ↔ Denotes name ds d ∧ s = r := by
  by_cases hi : keyword name ∈ iterableKeywords
  · exact interpret_iterable_eq_ok_iff hi
  · rw [interpret_of_not_iterable hi, denotes_iff_of_not_iterable hi, Except.ok.injEq,
      Prod.mk.injEq, eq_comm]

/-- The name at the head of a text is all that can belong to it. -/
theorem readName_eq_ok_iff {s r : List Char} {d : Descriptor} :
    readName primary s = .ok (d, r) ↔
      stripSeparators (s.takeWhile isNameChar) ≠ [] ∧
      (stripSeparators (s.takeWhile isNameChar)).getLast? ≠ some separator ∧
      ∃ ds, readArguments primary (s.dropWhile isNameChar) = .ok (ds, r) ∧
        Denotes (stripSeparators (s.takeWhile isNameChar)) ds d := by
  unfold readName splitRun
  simp only
  by_cases h : stripSeparators (s.takeWhile isNameChar) = [] ∨
      (stripSeparators (s.takeWhile isNameChar)).getLast? = some separator
  · rw [if_pos h]
    constructor
    · intro hr
      cases hr
    · rintro ⟨h₁, h₂, -⟩
      exact absurd h (not_or.2 ⟨h₁, h₂⟩)
  · rw [if_neg h, Except.bind_eq_ok_iff]
    obtain ⟨h₁, h₂⟩ := not_or.1 h
    constructor
    · rintro ⟨⟨ds, t⟩, hds, hr⟩
      obtain ⟨hd, rfl⟩ := interpret_eq_ok_iff.1 hr
      exact ⟨h₁, h₂, ds, hds, hd⟩
    · rintro ⟨-, -, ds, hds, hd⟩
      exact ⟨_, hds, interpret_eq_ok_iff.2 ⟨hd, rfl⟩⟩

/-! ## Primaries -/

theorem isSpace_of_isNameChar {c : Char} (h : isNameChar c = true) : isSpace c = false := by
  rw [Bool.eq_false_iff]
  intro hs
  simp only [isSpace, Bool.or_eq_true, decide_eq_true_eq] at hs
  rcases hs with (((rfl | rfl) | rfl) | rfl) | rfl <;> exact absurd h (by decide)

theorem isNameChar_of_isNameStart {c : Char} (h : isNameStart c = true) : isNameChar c = true := by
  simp only [isNameStart, isNameChar, Char.isAlphanum, Bool.or_eq_true] at *
  rcases h with (h | h) | h
  · exact .inl (.inl (.inl (.inl h)))
  · exact .inl (.inl (.inr h))
  · exact .inl (.inr h)

/-- A name in front of anything that is no part of it is all of the run at the head. -/
theorem splitRun_isNameChar {word s : List Char} (hword : ∀ c ∈ word, isNameChar c = true)
    (hs : (next s).any isNameChar = false) :
    (word ++ s).takeWhile isNameChar = word ∧ (word ++ s).dropWhile isNameChar = s := by
  rw [List.takeWhile_append_of_pos hword, List.dropWhile_append_of_pos hword]
  cases s with
  | nil => exact ⟨List.append_nil word, rfl⟩
  | cons b s =>
    have hb : ¬ isNameChar b = true := by
      intro hb
      have hspace : ¬ isSpace b = true := by
        rw [isSpace_of_isNameChar hb]
        exact Bool.false_ne_true
      rw [next, skipSpace, List.dropWhile_cons_of_neg hspace] at hs
      exact absurd (hb.symm.trans hs) (by decide)
    rw [List.takeWhile_cons_of_neg hb, List.dropWhile_cons_of_neg hb]
    exact ⟨List.append_nil word, rfl⟩

/-- Neither the arguments of a name nor what follows a primary can belong to the name. -/
theorem Arguments.next_append_any {w : List Char} {ds : List Descriptor}
    (hw : Arguments FirmPrimary P w ds) {t : List Char} (ht : next t ∈ afterPrimary) :
    (next (w ++ t)).any isNameChar = false := by
  have hall : ∀ o ∈ afterPrimary, o.any isNameChar = false := by decide
  cases hw with
  | none => exact hall _ ht
  | some hu hw hv hx =>
    rw [List.append_assoc, hu.next_append]
    decide

/-- A name is no sign. -/
theorem IsName.ne_sign {c : Char} {r : List Char} (h : IsName (c :: r)) :
    isNameStart c = true ∧ c ≠ '?' ∧ c ≠ '(' := by
  obtain ⟨b, hb, hstart⟩ := h.start
  obtain rfl : c = b := Option.some.inj hb
  refine ⟨hstart, ?_, ?_⟩
  · rintro rfl
    exact absurd hstart (by decide)
  · rintro rfl
    exact absurd hstart (by decide)

/-- A name starts with no `?`. -/
theorem IsName.firmPrimary_append {u : List Char} (h : IsName (skipSpace u)) (w : List Char) :
    FirmPrimary (u ++ w) := by
  have hne : skipSpace u ≠ [] := by
    intro hu
    exact h.ne_nil (by rw [hu]; rfl)
  rw [FirmPrimary, skipSpace_append hne]
  cases hu : skipSpace u with
  | nil => exact absurd hu hne
  | cons c r =>
    rw [hu] at h
    exact fun hc => h.ne_sign.2.1 (Option.some.inj hc)

theorem IsSign.firmPrimary_append {c : Char} {u : List Char} (h : IsSign c u) (hc : c ≠ '?')
    (w : List Char) : FirmPrimary (u ++ w) := by
  rw [FirmPrimary, h.skipSpace_append]
  exact fun h => hc (Option.some.inj h)

/-- A name is read off the head of a text. -/
theorem readName_sound (h : ReadsPrimary primary P) {s r t : List Char} {c : Char}
    {d : Descriptor} (hs : skipSpace s = c :: t) (hc : isNameStart c = true)
    (hr : readName primary (c :: t) = .ok (d, r)) :
    ∃ w t', s = w ++ t' ∧ skipSpace t' = skipSpace r ∧ PrimaryOver FirmPrimary P w d ∧
      FirmPrimary w := by
  obtain ⟨hne, hlast, ds, hds, hd⟩ := readName_eq_ok_iff.1 hr
  obtain ⟨w, t', ht, ht', hw⟩ := readArguments_sound h hds
  obtain ⟨u, hu, hsu⟩ := exists_blank s
  have hcn := isNameChar_of_isNameStart hc
  have hword : skipSpace (u ++ (c :: t).takeWhile isNameChar) = (c :: t).takeWhile isNameChar := by
    rw [skipSpace_append_of_eq_nil hu, List.takeWhile_cons_of_pos hcn, skipSpace,
      List.dropWhile_cons_of_neg]
    rw [isSpace_of_isNameChar hcn]
    exact Bool.false_ne_true
  have hname : IsName ((c :: t).takeWhile isNameChar) := by
    refine ⟨⟨c, ?_, hc⟩, fun b hb => List.mem_takeWhile_imp hb, hne, hlast⟩
    rw [List.takeWhile_cons_of_pos hcn]
    rfl
  -- the white space in front becomes part of the primary
  rw [← hword] at hname hd
  refine ⟨u ++ (c :: t).takeWhile isNameChar ++ w, t', ?_, ht', .name hname hw hd,
    hname.firmPrimary_append w⟩
  rw [List.append_assoc, List.append_assoc, ← ht, List.takeWhile_append_dropWhile, ← hs]
  exact hsu

/-- A name is read in front of anything that may follow a primary. -/
theorem readName_complete (h : ReadsPrimary primary P) {u w : List Char} {d : Descriptor}
    {ds : List Descriptor} (hu : IsName (skipSpace u)) (hw : Arguments FirmPrimary P w ds)
    (hd : Denotes (stripSeparators (skipSpace u)) ds d) (t : List Char)
    (ht : next t ∈ afterPrimary) :
    ∃ r, readName primary (skipSpace u ++ (w ++ t)) = .ok (d, r) ∧
      skipSpace r = skipSpace t := by
  obtain ⟨htake, hdrop⟩ := splitRun_isNameChar hu.chars (hw.next_append_any ht)
  obtain ⟨r, hds, hr⟩ := readArguments_complete h hw t ht
  refine ⟨r, readName_eq_ok_iff.2 ?_, hr⟩
  rw [htake, hdrop]
  exact ⟨hu.ne_nil, hu.last_ne, ds, hds, hd⟩

/-- Primaries are read off the head of a text. -/
theorem readPrimary_sound {n : Nat} (h : ReadsPrimary (readPrimary n) (Primary FirmPrimary n))
    {s r : List Char} {d : Descriptor} (hr : readPrimary (n + 1) s = .ok (d, r)) :
    ∃ w t, s = w ++ t ∧ skipSpace t = skipSpace r ∧ Primary FirmPrimary (n + 1) w d ∧
      (FirmPrimary w ∨ next t ≠ some '[') := by
  rw [readPrimary] at hr
  cases hs : skipSpace s with
  | nil =>
    rw [hs] at hr
    cases hr
  | cons c t =>
    simp only [hs] at hr
    by_cases hq : c = '?'
    · rw [if_pos hq] at hr
      obtain ⟨⟨e, t₁⟩, he, hd⟩ := Except.bind_eq_ok_iff.1 hr
      obtain ⟨hf, rfl, rfl⟩ := build_eq_ok_iff.1 hd
      obtain ⟨u, rfl, hu⟩ := exists_isSign hs
      obtain ⟨w, t', rfl, ht', hw⟩ := (reads_suffixed h).sound he
      refine ⟨u ++ w, t', (List.append_assoc _ _ _).symm, ht', .optional (hq ▸ hu) hw hf, ?_⟩
      -- the type behind the `?` has taken all the brackets
      rw [next_congr ht']
      exact .inr (next_ne_of_readSuffixed he)
    · rw [if_neg hq] at hr
      by_cases hp : c = '('
      · rw [if_pos hp] at hr
        obtain ⟨⟨e, t₁⟩, he, hd⟩ := Except.bind_eq_ok_iff.1 hr
        obtain ⟨t₂, ht₂, hd₂⟩ := Except.bind_eq_ok_iff.1 hd
        cases hd₂
        obtain ⟨u, rfl, hu⟩ := exists_isSign hs
        obtain ⟨w, t', rfl, ht', hw⟩ := (reads_union h).sound he
        rw [expect_eq_ok_iff, ← ht'] at ht₂
        obtain ⟨x, rfl, hx⟩ := exists_isSign ht₂
        exact ⟨u ++ (w ++ x), _, by simp only [List.append_assoc], rfl,
          .group (hp ▸ hu) hw hx, .inl (hu.firmPrimary_append hq _)⟩
      · rw [if_neg hp] at hr
        by_cases hc : isNameStart c = true
        · rw [if_pos hc] at hr
          obtain ⟨w, t', rfl, ht', hw, hfirm⟩ := readName_sound h hs hc hr
          exact ⟨w, t', rfl, ht', hw, .inl hfirm⟩
        · rw [if_neg hc] at hr
          cases hr

/-- Primaries are read in front of anything that may follow them. -/
theorem readPrimary_complete {n : Nat} (h : ReadsPrimary (readPrimary n) (Primary FirmPrimary n))
    {w : List Char} {d : Descriptor} (t : List Char) (hw : Primary FirmPrimary (n + 1) w d)
    (ht : next t ∈ afterPrimary) (hfirm : FirmPrimary w ∨ next t ≠ some '[') :
    ∃ r, readPrimary (n + 1) (w ++ t) = .ok (d, r) ∧ skipSpace r = skipSpace t := by
  rw [readPrimary]
  cases hw with
  | @optional u w d hu hw hf =>
    -- brackets would be taken by the type behind the `?`
    have hne : next t ≠ some '[' := by
      refine hfirm.resolve_left fun hfirm => hfirm ?_
      rw [hu.skipSpace_append]
      rfl
    have ht' : next t ∈ afterSuffixed := (List.mem_cons.1 ht).resolve_left hne
    obtain ⟨r, hd, hr⟩ := (reads_suffixed h).complete t hw ht'
    refine ⟨r, ?_, hr⟩
    rw [List.append_assoc, hu.skipSpace_append]
    simp only [if_true]
    exact Except.bind_eq_ok_iff.2 ⟨_, hd, build_eq_ok_iff.2 ⟨hf, rfl, rfl⟩⟩
  | @group u w x d hu hw hx =>
    have hx' : next (x ++ t) ∈ afterUnion := by
      rw [hx.next_append]
      decide
    obtain ⟨r, hd, hr⟩ := (reads_union h).complete (x ++ t) hw hx'
    refine ⟨t, ?_, rfl⟩
    simp only [List.append_assoc]
    rw [hu.skipSpace_append]
    simp only [show ¬ ('(' : Char) = '?' by decide, if_false, if_true]
    -- the union leaves the closing sign, perhaps behind white space
    refine Except.bind_eq_ok_iff.2 ⟨_, hd, Except.bind_eq_ok_iff.2 ⟨t, ?_, rfl⟩⟩
    rw [expect_eq_ok_iff, hr]
    exact hx.skipSpace_append t
  | @name u w d ds hu hw hd =>
    obtain ⟨r, hd', hr⟩ := readName_complete h hu hw hd t ht
    refine ⟨r, ?_, hr⟩
    have hne : skipSpace u ≠ [] := by
      intro h
      exact hu.ne_nil (by rw [h]; rfl)
    rw [List.append_assoc, skipSpace_append hne]
    cases hsu : skipSpace u with
    | nil => exact absurd hsu hne
    | cons c v =>
      rw [hsu] at hu hd'
      -- no sign comes first, so that a name is read
      obtain ⟨hstart, hq, hp⟩ := hu.ne_sign
      simp only [List.cons_append, if_neg hq, if_neg hp, if_pos hstart]
      exact hd'

/-- From one depth of nesting to the next. -/
theorem reads_primary (n : Nat) : ReadsPrimary (readPrimary n) (Primary FirmPrimary n) := by
  induction n with
  | zero =>
    constructor
    · intro s d r hr
      cases hr
    · intro w d t hw
      exact hw.elim
  | succ n ih => exact ⟨readPrimary_sound ih, readPrimary_complete ih⟩

end Levels

/-! ## Expressions -/

/-- A text is read as a descriptor exactly when it stands for it. -/
theorem read_eq_ok_iff {s : List Char} {d : Descriptor} :
    read s = .ok d ↔ Expression FirmPrimary s d := by
  have h := reads_union (reads_primary depthLimit)
  unfold read Expression
  constructor
  · intro hr
    obtain ⟨⟨e, r⟩, he, hd⟩ := Except.bind_eq_ok_iff.1 hr
    obtain ⟨w, t, rfl, ht, hw⟩ := h.sound he
    cases hs : skipSpace r with
    | nil =>
      simp only [hs] at hd
      cases hd
      exact ⟨w, t, rfl, ht.trans hs, hw⟩
    | cons c r' =>
      simp only [hs] at hd
      cases hd
  · rintro ⟨w, t, rfl, ht, hw⟩
    -- only white space follows, which counts as the end
    have hnext : next t ∈ afterUnion := by
      rw [next, ht]
      decide
    obtain ⟨r, he, hr⟩ := h.complete t hw hnext
    refine Except.bind_eq_ok_iff.2 ⟨_, he, ?_⟩
    simp only [hr, ht]

/-- A text is accepted as a descriptor exactly when the grammar says that it stands for it. -/
theorem parse_eq_ok_iff {s : String} {d : Descriptor} :
    Descriptor.parse s = .ok d ↔ Expression FirmPrimary s.toList d := by
  rw [← read_eq_ok_iff]
  unfold Descriptor.parse
  cases read s.toList with
  | ok e => simp
  | error f => simp

end Eponym.TypeExpression
