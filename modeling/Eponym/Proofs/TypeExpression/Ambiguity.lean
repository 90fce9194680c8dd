/-
# Whose the brackets are

With brackets behind every primary the grammar gives some texts two meanings: `?A[]` is
an iterable of `?A` as well as an iterable of `A` or null.  The reader knows the second
only.  It accepts the same texts all the same, since brackets behind `?A` may as well stand
behind `A`, where they make a descriptor of the same height.

* `Lifts` : each phrase of one language is a phrase of another, for a related descriptor;
* `absorb_brackets` : a firm suffixed type takes one more pair of brackets;
* `accepts_grammar` : what is accepted, and as what;
* `ambiguous` : the brackets in `?A[]` are not those of `?A`.
-/
import Mathlib.Data.List.Forall2
import Eponym.Proofs.TypeExpression.Acceptance

namespace Eponym.TypeExpression

open List (Forall₂)

/-! ## Related descriptors -/

/-- A relation that holds of what is built from related descriptors, and keeps the height. -/
structure Stable (R : Descriptor → Descriptor → Prop) : Prop where
  refl : ∀ d, R d d
  height_eq : ∀ {d e}, R d e → d.height = e.height
  union : ∀ {ds es}, Forall₂ R ds es → R (.union ds) (.union es)
  intersection : ∀ {ds es}, Forall₂ R ds es → R (.intersection ds) (.intersection es)
  iterable : ∀ {d e}, R d e → R (.iterable d) (.iterable e)
  keyed : ∀ {d e d' e'}, R d e → R d' e' → R (.keyed d d') (.keyed e e')

/-- The descriptors have the same height. -/
def SameHeight (d e : Descriptor) : Prop := d.height = e.height

theorem heightList_eq {ds es : List Descriptor} (h : Forall₂ SameHeight ds es) :
    Descriptor.heightList ds = Descriptor.heightList es := by
  induction h with
  | nil => rfl
  | cons hd _ ih => rw [Descriptor.heightList, Descriptor.heightList, ih, show _ = _ from hd]

/-- Equality is stable. -/
theorem stable_eq : Stable Eq where
  refl _ := rfl
  height_eq h := h ▸ rfl
  union h := by rw [List.forall₂_eq_eq_eq] at h; rw [h]
  intersection h := by rw [List.forall₂_eq_eq_eq] at h; rw [h]
  iterable h := h ▸ rfl
  keyed h h' := h ▸ h' ▸ rfl

/-- To have the same height is stable. -/
theorem stable_sameHeight : Stable SameHeight where
  refl _ := rfl
  height_eq h := h
  union h := by
    show Descriptor.height _ = Descriptor.height _
    rw [Descriptor.height, Descriptor.height, heightList_eq h]
  intersection h := by
    show Descriptor.height _ = Descriptor.height _
    rw [Descriptor.height, Descriptor.height, heightList_eq h]
  iterable h := by
    show Descriptor.height _ = Descriptor.height _
    rw [Descriptor.height, Descriptor.height, show _ = _ from h]
  keyed h h' := by
    show Descriptor.height _ = Descriptor.height _
    rw [Descriptor.height, Descriptor.height, show _ = _ from h, show _ = _ from h']

/-! ## Phrases for related descriptors -/

/-- Each phrase of the first language is one of the second, for a related descriptor. -/
def Lifts (R : Descriptor → Descriptor → Prop) (L M : Language Descriptor) : Prop :=
  ∀ ⦃w d⦄, L w d → ∃ e, M w e ∧ R d e

section Lifts

variable {R : Descriptor → Descriptor → Prop} {L M : Language Descriptor}

theorem Stable.fits (hR : Stable R) {d e : Descriptor} (h : R d e) (hf : Fits d) : Fits e := by
  rw [Fits, ← hR.height_eq h]
  exact hf

/-- Further entries are related one by one. -/
theorem Lifts.further (h : Lifts R L M) {sign : Char} {v : List Char} {ds : List Descriptor}
    (hv : Further sign L v ds) : ∃ es, Further sign M v es ∧ Forall₂ R ds es := by
  induction hv with
  | nil => exact ⟨[], .nil, .nil⟩
  | cons hu hw _ ih =>
    obtain ⟨e, hw', hd⟩ := h hw
    obtain ⟨es, hv', hds⟩ := ih
    exact ⟨e :: es, .cons hu hw' hv', .cons hd hds⟩

/-- Lists are related if their entries are. -/
theorem Lifts.joined (hR : Stable R) (h : Lifts R L M) {sign : Char}
    {join : List Descriptor → Descriptor}
    (hjoin : ∀ {ds es}, Forall₂ R ds es → R (join ds) (join es)) :
    Lifts R (Joined sign join L) (Joined sign join M) := by
  intro w d hw
  cases hw with
  | single hw =>
    obtain ⟨e, hw', hd⟩ := h hw
    exact ⟨e, .single hw', hd⟩
  | several hw hv hf =>
    obtain ⟨e, hw', hd⟩ := h hw
    obtain ⟨es, hv', hds⟩ := h.further hv
    have hjoined := hjoin (.cons hd hds)
    cases hds with
    | cons => exact ⟨_, .several hw' hv' (hR.fits hjoined hf), hjoined⟩

/-- Names with related arguments stand for related descriptors. -/
theorem Denotes.lifts (hR : Stable R) {name : List Char} {ds es : List Descriptor}
    {d : Descriptor} (hd : Denotes name ds d) (hds : Forall₂ R ds es) :
    ∃ e, Denotes name es e ∧ R d e := by
  cases hd with
  | mixed h =>
    cases hds
    exact ⟨_, .mixed h, hR.refl _⟩
  | iterable h hf =>
    obtain ⟨_, _, hv, hnil, rfl⟩ := List.forall₂_cons_left_iff.1 hds
    cases hnil
    exact ⟨_, .iterable h (hR.fits (hR.iterable hv) hf), hR.iterable hv⟩
  | keyed h hf =>
    obtain ⟨_, _, hk, htail, rfl⟩ := List.forall₂_cons_left_iff.1 hds
    obtain ⟨_, _, hv, hnil, rfl⟩ := List.forall₂_cons_left_iff.1 htail
    cases hnil
    exact ⟨_, .keyed h (hR.fits (hR.keyed hk hv) hf), hR.keyed hk hv⟩
  | null h => exact ⟨_, .null h, hR.refl _⟩
  | scalar h => exact ⟨_, .scalar h, hR.refl _⟩
  | named hi hn hs => exact ⟨_, .named hi hn hs, hR.refl _⟩

variable {Firm Firm' : List Char → Prop} {P Q : Language Descriptor}

theorem Lifts.union (hR : Stable R) (h : Lifts R (Suffixed Firm P) (Suffixed Firm' Q)) :
    Lifts R (Union Firm P) (Union Firm' Q) :=
  Lifts.joined hR (Lifts.joined hR h hR.intersection) hR.union

/-- Arguments are related one by one. -/
theorem Arguments.lifts (h : Lifts R (Union Firm P) (Union Firm' Q)) {w : List Char}
    {ds : List Descriptor} (hw : Arguments Firm P w ds) :
    ∃ es, Arguments Firm' Q w es ∧ Forall₂ R ds es := by
  cases hw with
  | none => exact ⟨[], .none, .nil⟩
  | some hu hw hv hx =>
    obtain ⟨e, hw', hd⟩ := h hw
    obtain ⟨es, hv', hds⟩ := h.further hv
    exact ⟨e :: es, .some hu hw' hv' hx, .cons hd hds⟩

/-- Primaries with related parts are related. -/
theorem Lifts.primaryOver (hR : Stable R) (h : Lifts R (Suffixed Firm P) (Suffixed Firm' Q)) :
    Lifts R (PrimaryOver Firm P) (PrimaryOver Firm' Q) := by
  intro w d hw
  cases hw with
  | optional hu hw hf =>
    obtain ⟨e, hw', hd⟩ := h hw
    have hunion := hR.union (.cons hd (.cons (hR.refl .null) .nil))
    exact ⟨_, .optional hu hw' (hR.fits hunion hf), hunion⟩
  | group hu hw hx =>
    obtain ⟨e, hw', hd⟩ := h.union hR hw
    exact ⟨e, .group hu hw' hx, hd⟩
  | name hu hw hd =>
    obtain ⟨es, hw', hds⟩ := hw.lifts (h.union hR)
    obtain ⟨e, hd', he⟩ := hd.lifts hR hds
    exact ⟨e, .name hu hw' hd', he⟩

/-- With suffixed types related at each depth of nesting, primaries are. -/
theorem lifts_primary (hR : Stable R)
    (h : ∀ n, Lifts R (Primary Firm n) (Primary Firm' n) →
      Lifts R (Suffixed Firm (Primary Firm n)) (Suffixed Firm' (Primary Firm' n))) (n : Nat) :
    Lifts R (Primary Firm n) (Primary Firm' n) := by
  induction n with
  | zero => exact fun _ _ hw => hw.elim
  | succ n ih => exact Lifts.primaryOver hR (h n ih)

/-- Whole expressions are related if suffixed types are. -/
theorem lifts_expression (hR : Stable R)
    (h : ∀ n, Lifts R (Primary Firm n) (Primary Firm' n) →
      Lifts R (Suffixed Firm (Primary Firm n)) (Suffixed Firm' (Primary Firm' n))) :
    Lifts R (Expression Firm) (Expression Firm') := by
  rintro s d ⟨w, v, rfl, hv, hw⟩
  obtain ⟨e, hw', hd⟩ := (h depthLimit (lifts_primary hR h depthLimit)).union hR hw
  exact ⟨e, ⟨w, v, rfl, hv, hw'⟩, hd⟩

end Lifts

/-! ## Brackets that may follow anything -/

/-- What the reader takes the text for is one of its meanings. -/
theorem Expression.any_of_firm {s : List Char} {d : Descriptor} (h : Expression FirmPrimary s d) :
    Expression AnyPrimary s d := by
  have hlift : Lifts Eq (Expression FirmPrimary) (Expression AnyPrimary) := by
    apply lifts_expression stable_eq
    intro n ih x e hx
    cases hx with
    | intro hw hv =>
      obtain ⟨_, hw', rfl⟩ := ih hw
      exact ⟨e, .intro hw' hv fun _ => trivial, rfl⟩
  obtain ⟨_, hany, rfl⟩ := hlift h
  exact hany

/-- One more pair of brackets stands behind the others. -/
theorem Brackets.snoc {d e : Descriptor} {w u v : List Char} (hw : Brackets d w e)
    (hu : IsSign '[' u) (hv : IsSign ']' v) (hf : Fits (.iterable e)) :
    Brackets d (w ++ (u ++ v)) (.iterable e) := by
  induction hw with
  | nil =>
    have hnil := Brackets.cons hu hv hf .nil
    rwa [List.append_nil] at hnil
  | cons hu' hv' hf' _ ih =>
    rw [List.append_assoc, List.append_assoc]
    exact .cons hu' hv' hf' (ih hf)

/-- Without brackets the descriptor stays as it is. -/
theorem Brackets.eq_of_nil {d e : Descriptor} {v : List Char} (h : Brackets d v e)
    (hv : v = []) : e = d := by
  cases h with
  | nil => rfl
  | cons hu => exact absurd (List.append_eq_nil_iff.1 hv).1 hu.ne_nil

/-- A primary that brackets may not follow starts with `?`. -/
theorem PrimaryOver.exists_optional {Firm : List Char → Prop} {P : Language Descriptor}
    {w : List Char} {d : Descriptor} (hw : PrimaryOver Firm P w d) (hfirm : ¬ FirmPrimary w) :
    ∃ u x e, w = u ++ x ∧ IsSign '?' u ∧ Suffixed Firm P x e ∧ Fits (.union [e, .null]) ∧
      d = .union [e, .null] := by
  cases hw with
  | optional hu hw hf => exact ⟨_, _, _, rfl, hu, hw, hf, rfl⟩
  | group hu => exact absurd (hu.firmPrimary_append (by decide) _) hfirm
  | name hu => exact absurd (hu.firmPrimary_append _) hfirm

/-- The optional type of a descriptor is one level higher. -/
theorem height_optional (d : Descriptor) :
    (Descriptor.union [d, .null]).height = d.height + 1 := by
  have hpos := height_pos d
  simp only [Descriptor.height, Descriptor.heightList]
  omega

/-- A firm suffixed type takes one more pair of brackets, for a descriptor one level higher.
Behind a `?` the pair is passed on to what the `?` is in front of. -/
theorem absorb_brackets {u v : List Char} (hu : IsSign '[' u) (hv : IsSign ']' v) (n : Nat) :
    ∀ {w : List Char} {d : Descriptor}, Suffixed FirmPrimary (Primary FirmPrimary n) w d →
      Fits (.iterable d) →
      ∃ e, Suffixed FirmPrimary (Primary FirmPrimary n) (w ++ (u ++ v)) e ∧
        e.height = d.height + 1 := by
  induction n with
  | zero =>
    rintro w d ⟨hw, -, -⟩
    exact hw.elim
  | succ n ih =>
    intro _ d hd hf
    obtain @⟨w, x, c, _, hw, hb, hfirm⟩ := hd
    rw [List.append_assoc]
    by_cases h : FirmPrimary w
    · exact ⟨_, .intro hw (hb.snoc hu hv hf) fun _ => h, rfl⟩
    · -- nothing stands behind the primary, and it starts with `?`
      have hx : x = [] := by
        by_contra hx
        exact h (hfirm hx)
      obtain rfl := hb.eq_of_nil hx
      rw [hx, List.nil_append]
      obtain ⟨y, z, e, rfl, hy, hz, -, rfl⟩ := PrimaryOver.exists_optional hw h
      have hheight := height_optional e
      rw [Fits, Descriptor.height, hheight] at hf
      have hfe : Fits (.iterable e) := by
        rw [Fits, Descriptor.height]
        omega
      obtain ⟨e', hz', he'⟩ := ih hz hfe
      have hheight' := height_optional e'
      have hfit : Fits (.union [e', .null]) := by
        rw [Fits]
        omega
      have hprimary : Primary FirmPrimary (n + 1) (y ++ z ++ (u ++ v)) (.union [e', .null]) := by
        rw [List.append_assoc]
        exact .optional hy hz' hfit
      refine ⟨_, .of_primary hprimary, ?_⟩
      omega

/-- A firm suffixed type takes brackets that stand behind a descriptor of its height. -/
theorem absorb_all {n : Nat} {d e : Descriptor} {v : List Char} (hv : Brackets d v e) :
    ∀ {w : List Char} {d' : Descriptor}, Suffixed FirmPrimary (Primary FirmPrimary n) w d' →
      SameHeight d d' →
      ∃ e', Suffixed FirmPrimary (Primary FirmPrimary n) (w ++ v) e' ∧ SameHeight e e' := by
  induction hv with
  | nil =>
    intro w d' hw h
    rw [List.append_nil]
    exact ⟨d', hw, h⟩
  | cons hu hv hf _ ih =>
    intro w d' hw h
    have hf' : Fits (.iterable d') := stable_sameHeight.fits (stable_sameHeight.iterable h) hf
    obtain ⟨e, hw', he⟩ := absorb_brackets hu hv n hw hf'
    have hsame : SameHeight (.iterable _) e := (stable_sameHeight.iterable h).trans he.symm
    obtain ⟨e', hw'', he'⟩ := ih hw' hsame
    refine ⟨e', ?_, he'⟩
    simpa only [List.append_assoc] using hw''

/-- A text that has a meaning has one for the reader. -/
theorem Expression.firm_of_any {s : List Char} {d : Descriptor} (h : Expression AnyPrimary s d) :
    ∃ e, Expression FirmPrimary s e ∧ SameHeight d e := by
  apply lifts_expression stable_sameHeight _ h
  intro n ih x e hx
  cases hx with
  | intro hw hv =>
    obtain ⟨d', hw', hd⟩ := ih hw
    exact absorb_all hv (.of_primary hw') hd

/-! ## What is accepted -/

/-- A text is read as a descriptor exactly when the grammar in which brackets follow no
primary with `?` says so, and a text is read at all exactly when the whole grammar gives it
some meaning. -/
theorem accepts_grammar (s : String) :
    (∀ d, Descriptor.parse s = .ok d ↔ Expression FirmPrimary s.toList d) ∧
      ((∃ d, Descriptor.parse s = .ok d) ↔ ∃ d, Expression AnyPrimary s.toList d) := by
  refine ⟨fun d => parse_eq_ok_iff, ?_, ?_⟩
  · rintro ⟨d, hd⟩
    exact ⟨d, (parse_eq_ok_iff.1 hd).any_of_firm⟩
  · rintro ⟨d, hd⟩
    obtain ⟨e, he, -⟩ := hd.firm_of_any
    exact ⟨e, parse_eq_ok_iff.2 he⟩

/-- A letter names a type, at any depth. -/
theorem primary_letter (Firm : List Char → Prop) (n : Nat) :
    Primary Firm (n + 1) ['A'] (.ofName "A") := by
  have hname : IsName (skipSpace ['A']) :=
    ⟨⟨'A', rfl, by decide⟩, List.forall_mem_singleton.2 (by decide), by decide, by decide⟩
  have hdenotes : Denotes (stripSeparators (skipSpace ['A'])) [] (.ofName "A") :=
    .named (by decide) (by decide) (by decide)
  exact .name hname .none hdenotes

/-- Brackets behind `?A` are a meaning of `?A[]` that the reader does not know. -/
theorem ambiguous :
    ¬ ∀ (s : String) (d : Descriptor),
      Descriptor.parse s = .ok d ↔ Expression AnyPrimary s.toList d := by
  intro h
  have hoptional : Primary AnyPrimary depthLimit ['?', 'A'] (.union [.ofName "A", .null]) := by
    refine PrimaryOver.optional (u := ['?']) (w := ['A']) rfl ?_ (by decide)
    exact .of_primary (primary_letter AnyPrimary 254)
  have hbrackets : Brackets (.union [.ofName "A", .null]) ['[', ']']
      (.iterable (.union [.ofName "A", .null])) :=
    .cons (u := ['[']) (v := [']']) rfl rfl (by decide) .nil
  have hsuffixed : Suffixed AnyPrimary (Primary AnyPrimary depthLimit) ['?', 'A', '[', ']']
      (.iterable (.union [.ofName "A", .null])) :=
    .intro hoptional hbrackets fun _ => trivial
  have hmeaning : Expression AnyPrimary "?A[]".toList
      (.iterable (.union [.ofName "A", .null])) :=
    ⟨_, [], rfl, rfl, .single (.single hsuffixed)⟩
  -- it is read as the optional type of an iterable instead
  have hread : Descriptor.parse "?A[]" = .ok (.union [.iterable (.ofName "A"), .null]) := rfl
  have hclaimed := (h "?A[]" _).2 hmeaning
  rw [hread] at hclaimed
  cases hclaimed

end Eponym.TypeExpression
