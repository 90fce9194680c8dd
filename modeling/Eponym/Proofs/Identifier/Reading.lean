/-
# How a name is read

A name that is not empty begins in one of two ways.  Either a word leads it, of one of four
kinds, each with a condition on what may follow; or capitals lead it, possibly none, and a
character that is neither letter nor digit stands behind them, in front of which no acronym
ends: then all of these are passed over.  Facts about the words of a name follow by induction
on this reading, with no need to look at how long a word is.

* `words_of_leads`, `words_of_passed` : the words of a name that begins in either way;
* `leads_or_passed` : a name begins in one of the two ways;
* `reading_induction` : induction on how a name is read;
* `flatten_words` : ASCII letters and digits are all in words.
-/
import Eponym.Identifier.Word
import Mathlib

namespace Eponym

section Reading

variable {c d u l : Char} {p : Char → Bool} {e s t w run rest : List Char}

/-! ## Classes of characters -/

theorem isDigit_of_isUpper (h : c.isUpper = true) : c.isDigit = false := by
  unfold Char.isUpper Char.isDigit at *
  grind

theorem isDigit_of_isLower (h : c.isLower = true) : c.isDigit = false := by
  unfold Char.isLower Char.isDigit at *
  grind

theorem isLower_of_isUpper (h : c.isUpper = true) : c.isLower = false :=
  Bool.eq_false_iff.2 (Char.not_isLower_of_isUpper h)

theorem isUpper_of_isLower (h : c.isLower = true) : c.isUpper = false :=
  Bool.eq_false_iff.2 (Char.not_isUpper_of_isLower h)

theorem isAlphanum_cases (h : c.isAlphanum = true) :
    c.isUpper = true ∨ c.isLower = true ∨ c.isDigit = true := by
  unfold Char.isAlphanum Char.isAlpha at h
  rwa [Bool.or_eq_true, Bool.or_eq_true, or_assoc] at h

theorem isAlphanum_of_isUpper (h : c.isUpper = true) : c.isAlphanum = true := by
  simp [Char.isAlphanum, Char.isAlpha, h]

theorem isAlphanum_of_isLower (h : c.isLower = true) : c.isAlphanum = true := by
  simp [Char.isAlphanum, Char.isAlpha, h]

theorem isAlphanum_of_isDigit (h : c.isDigit = true) : c.isAlphanum = true := by
  simp [Char.isAlphanum, h]

theorem isUpper_of_isDigit (h : c.isDigit = true) : c.isUpper = false :=
  Bool.eq_false_iff.2 fun hu => Bool.eq_false_iff.1 (isDigit_of_isUpper hu) h

theorem isLower_of_isDigit (h : c.isDigit = true) : c.isLower = false :=
  Bool.eq_false_iff.2 fun hl => Bool.eq_false_iff.1 (isDigit_of_isLower hl) h

theorem isAlphanum_of_isAlpha (h : c.isAlpha = true) : c.isAlphanum = true := by
  rw [Char.isAlphanum, h]
  rfl

theorem isDigit_of_isAlpha (h : c.isAlpha = true) : c.isDigit = false := by
  rw [Char.isAlpha, Bool.or_eq_true] at h
  rcases h with h | h
  · exact isDigit_of_isUpper h
  · exact isDigit_of_isLower h

theorem isUpper_of_isAlpha (h : c.isAlpha = true) (hc : c.isLower = false) : c.isUpper = true := by
  rw [Char.isAlpha, hc, Bool.or_false] at h
  exact h

theorem isAlphanum_eq_false (h : c.isAlphanum = false) :
    c.isUpper = false ∧ c.isLower = false ∧ c.isDigit = false := by
  simpa [Char.isAlphanum, Char.isAlpha, and_assoc] using h

/-! ## Runs -/

theorem takeWhile_of_head (h : ∀ c ∈ rest.head?, p c = false) : rest.takeWhile p = [] := by
  cases rest with
  | nil => rfl
  | cons c rest => exact List.takeWhile_cons_of_neg (Bool.eq_false_iff.1 (h c rfl))

/-- A run ends where a character of another class stands. -/
theorem takeWhile_run (hw : ∀ c ∈ w, p c = true) (h : ∀ c ∈ rest.head?, p c = false) :
    (w ++ rest).takeWhile p = w := by
  rw [List.takeWhile_append_of_pos hw, takeWhile_of_head h, List.append_nil]

/-- A run and what follows it. -/
theorem splitRun_run (hw : ∀ c ∈ w, p c = true) (h : ∀ c ∈ rest.head?, p c = false) :
    splitRun p (w ++ rest) = (w, rest) := by
  have happ := splitRun_append p (w ++ rest)
  have hrun : (splitRun p (w ++ rest)).1 = w := takeWhile_run hw h
  rw [hrun] at happ
  exact Prod.ext hrun (List.append_cancel_left happ)

/-- A text is a run and what follows it. -/
theorem exists_run (p : Char → Bool) (s : List Char) :
    ∃ run tail, s = run ++ tail ∧ (∀ c ∈ run, p c = true) ∧ ∀ c ∈ tail.head?, p c = false := by
  refine ⟨s.takeWhile p, s.dropWhile p, List.takeWhile_append_dropWhile.symm, ?_, ?_⟩
  · exact fun c hc => List.mem_takeWhile_imp hc
  · intro c hc
    have hstop := List.head?_dropWhile_not p s
    rw [Option.mem_def.1 hc] at hstop
    simpa using hstop

/-- A run is not empty if the text begins with a character of its class. -/
theorem ne_nil_of_exists_run (hsplit : d :: t = w ++ rest) (hd : p d = true)
    (hrest : ∀ c ∈ rest.head?, p c = false) : w ≠ [] := by
  rintro rfl
  rw [List.nil_append] at hsplit
  rw [hrest d (hsplit ▸ rfl)] at hd
  exact Bool.false_ne_true hd

/-! ## Words and what follows them -/

/-- Whether a text is a capital with small letters behind it, at least one. -/
def isCapitalized : List Char → Bool
  | u :: l :: t => u.isUpper && (l :: t).all Char.isLower
  | _ => false

/-- A capital and the small letters behind it. -/
theorem isCapitalized_iff :
    isCapitalized e = true ↔
      ∃ u l t, e = u :: l :: t ∧ u.isUpper = true ∧ ∀ c ∈ l :: t, c.isLower = true := by
  unfold isCapitalized
  split
  · next u l t =>
    rw [Bool.and_eq_true, List.all_eq_true]
    constructor
    · intro h
      exact ⟨u, l, t, rfl, h⟩
    · rintro ⟨u', l', t', heq, h⟩
      cases heq
      exact h
  · next hne =>
    constructor
    · intro h
      cases h
    · rintro ⟨u, l, t, rfl, -⟩
      exact absurd rfl (hne u l t)

/-- An acronym may end where the name does, or in front of a digit, or of a capital that a small
letter follows. -/
inductive EndsAcronym : List Char → Prop where
  | nil : EndsAcronym []
  | digit {d : Char} {t : List Char} (hd : d.isDigit = true) : EndsAcronym (d :: t)
  | capital {u l : Char} {t : List Char} (hu : u.isUpper = true) (hl : l.isLower = true) :
      EndsAcronym (u :: l :: t)

/-- A word leads a name if it is of one of the kinds and goes on no further. -/
inductive Leads : List Char → List Char → Prop where
  | acronym {w rest : List Char} (hne : w ≠ []) (hw : ∀ c ∈ w, c.isUpper = true)
      (hrest : EndsAcronym rest) : Leads w rest
  | small {w rest : List Char} (hne : w ≠ []) (hw : ∀ c ∈ w, c.isLower = true)
      (hrest : ∀ c ∈ rest.head?, c.isLower = false) : Leads w rest
  | capitalized {w rest : List Char} (hw : isCapitalized w = true)
      (hrest : ∀ c ∈ rest.head?, c.isLower = false) : Leads w rest
  | digits {w rest : List Char} (hne : w ≠ []) (hw : ∀ c ∈ w, c.isDigit = true)
      (hrest : ∀ c ∈ rest.head?, c.isDigit = false) : Leads w rest

/-- Capitals are passed over with the character behind them if that is no letter or digit. -/
structure Passed (run : List Char) (d : Char) : Prop where
  run_upper : ∀ c ∈ run, c.isUpper = true
  stop : d.isAlphanum = false

/-! ## The length of the word at the head -/

/-- An acronym goes before a small word, and that before digits. -/
theorem leadingLength_eq (s : List Char) :
    leadingLength s =
      if acronymLength s ≠ 0 then acronymLength s
      else if smallWordLength s ≠ 0 then smallWordLength s else digitsLength s := by
  unfold leadingLength
  split <;> simp_all

/-- Capitals alone are an acronym. -/
theorem acronymLength_of_capitals (hw : ∀ c ∈ w, c.isUpper = true) :
    acronymLength w = w.length := by
  have hrun : splitRun Char.isUpper (w ++ []) = (w, []) := splitRun_run hw (by simp)
  rw [List.append_nil] at hrun
  rw [acronymLength, hrun]

/-- The character behind a run of capitals decides how many of them are an acronym. -/
theorem acronymLength_run (hw : ∀ c ∈ w, c.isUpper = true) (hd : d.isUpper = false) :
    acronymLength (w ++ d :: t) =
      if d.isDigit then w.length else if d.isLower then w.length - 1 else 0 := by
  rw [acronymLength, splitRun_run hw (by simpa using hd)]

/-- Of capitals in front of a small letter, the last belongs to the next word. -/
theorem acronymLength_capital (hw : ∀ c ∈ w, c.isUpper = true) (hu : u.isUpper = true)
    (hl : l.isLower = true) : acronymLength (w ++ u :: l :: t) = w.length := by
  have hrun : ∀ c ∈ w ++ [u], c.isUpper = true :=
    List.forall_mem_append.2 ⟨hw, List.forall_mem_singleton.2 hu⟩
  rw [List.append_cons, acronymLength_run hrun (isUpper_of_isLower hl), isDigit_of_isLower hl, hl,
    List.length_append]
  rfl

/-- Capitals are an acronym if one may end there. -/
theorem acronymLength_of_endsAcronym (hw : ∀ c ∈ w, c.isUpper = true) (hrest : EndsAcronym rest) :
    acronymLength (w ++ rest) = w.length := by
  cases hrest with
  | nil => rw [List.append_nil, acronymLength_of_capitals hw]
  | digit hd => rw [acronymLength_run hw (isUpper_of_isDigit hd), if_pos hd]
  | capital hu hl => exact acronymLength_capital hw hu hl

theorem acronymLength_of_head (hc : c.isUpper = false) : acronymLength (c :: t) = 0 := by
  have hrun := acronymLength_run (w := []) (t := t) (fun _ h => nomatch h) hc
  simpa using hrun

theorem smallWordLength_of_isUpper (hc : c.isUpper = true)
    (ht : ∀ c ∈ t.head?, c.isLower = false) : smallWordLength (c :: t) = 0 := by
  rw [smallWordLength, if_pos hc, takeWhile_of_head ht]
  rfl

theorem smallWordLength_of_head (hc : c.isUpper = false) (hc' : c.isLower = false) :
    smallWordLength (c :: t) = 0 := by
  rw [smallWordLength, if_neg (Bool.eq_false_iff.1 hc), takeWhile_of_head (by simpa using hc')]
  rfl

theorem smallWordLength_of_small (hc : c.isLower = true) (hw : ∀ c ∈ w, c.isLower = true)
    (hrest : ∀ c ∈ rest.head?, c.isLower = false) :
    smallWordLength (c :: w ++ rest) = (c :: w).length := by
  have hrun := takeWhile_run (List.forall_mem_cons.2 ⟨hc, hw⟩) hrest
  rw [List.cons_append] at hrun ⊢
  rw [smallWordLength, if_neg (Bool.eq_false_iff.1 (isUpper_of_isLower hc)), hrun]

/-- A capitalized word is a small word if no small letter follows. -/
theorem smallWordLength_of_isCapitalized (hw : isCapitalized w = true)
    (hrest : ∀ c ∈ rest.head?, c.isLower = false) :
    smallWordLength (w ++ rest) = w.length := by
  obtain ⟨u, l, t, rfl, hu, hsmall⟩ := isCapitalized_iff.1 hw
  rw [List.cons_append, smallWordLength, if_pos hu, takeWhile_run hsmall hrest]
  rfl

/-- A word that leads a name has the length of the word at its head. -/
theorem leadingLength_of_leads (h : Leads w rest) : leadingLength (w ++ rest) = w.length := by
  rw [leadingLength_eq]
  cases h with
  | acronym hne hw hrest =>
    rw [acronymLength_of_endsAcronym hw hrest, if_pos]
    exact fun hzero => hne (List.length_eq_zero_iff.1 hzero)
  | small hne hw hrest =>
    obtain ⟨c, w, rfl⟩ := List.exists_cons_of_ne_nil hne
    obtain ⟨hc, hw⟩ := List.forall_mem_cons.1 hw
    have hacronym : acronymLength (c :: w ++ rest) = 0 :=
      acronymLength_of_head (isUpper_of_isLower hc)
    rw [hacronym, smallWordLength_of_small hc hw hrest]
    rfl
  | capitalized hw hrest =>
    have hlength := smallWordLength_of_isCapitalized hw hrest
    obtain ⟨u, l, t, rfl, hu, hsmall⟩ := isCapitalized_iff.1 hw
    have hacronym : acronymLength (u :: l :: t ++ rest) = 0 :=
      acronymLength_capital (w := []) (fun _ h => nomatch h) hu (hsmall l List.mem_cons_self)
    rw [hacronym, hlength]
    rfl
  | digits hne hw hrest =>
    have hdigits : digitsLength (w ++ rest) = w.length :=
      congrArg List.length (takeWhile_run hw hrest)
    obtain ⟨c, w, rfl⟩ := List.exists_cons_of_ne_nil hne
    have hc : c.isDigit = true := hw c List.mem_cons_self
    have hacronym : acronymLength (c :: w ++ rest) = 0 :=
      acronymLength_of_head (isUpper_of_isDigit hc)
    have hsmall : smallWordLength (c :: w ++ rest) = 0 :=
      smallWordLength_of_head (isUpper_of_isDigit hc) (isLower_of_isDigit hc)
    rw [hacronym, hsmall, hdigits]
    rfl

/-- No word begins with what is passed over. -/
theorem leadingLength_of_passed (h : Passed run d) : leadingLength (run ++ d :: t) = 0 := by
  obtain ⟨hupper, hlower, hdigit⟩ := isAlphanum_eq_false h.stop
  have hacronym : acronymLength (run ++ d :: t) = 0 := by
    rw [acronymLength_run h.run_upper hupper, hdigit, hlower]
    rfl
  have hhead : ∀ run : List Char, (∀ c ∈ run, c.isUpper = true) →
      ∀ c ∈ (run ++ d :: t).head?, c.isLower = false ∧ c.isDigit = false := by
    intro run hrun c hc
    cases run with
    | nil => exact (Option.some.inj hc) ▸ ⟨hlower, hdigit⟩
    | cons u run =>
      have hu : u.isUpper = true := hrun u List.mem_cons_self
      exact (Option.some.inj hc) ▸ ⟨isLower_of_isUpper hu, isDigit_of_isUpper hu⟩
  have hdigits : digitsLength (run ++ d :: t) = 0 :=
    congrArg List.length (takeWhile_of_head fun c hc => (hhead run h.run_upper c hc).2)
  have hsmall : smallWordLength (run ++ d :: t) = 0 := by
    cases run with
    | nil => exact smallWordLength_of_head hupper hlower
    | cons u run =>
      obtain ⟨hu, hrun⟩ := List.forall_mem_cons.1 h.run_upper
      exact smallWordLength_of_isUpper hu fun c hc => (hhead run hrun c hc).1
  rw [leadingLength_eq, hacronym, hsmall, hdigits]
  rfl

/-! ## The words of a name -/

/-- A word that leads a name is not empty. -/
theorem Leads.ne_nil (h : Leads w rest) : w ≠ [] := by
  cases h with
  | acronym hne => exact hne
  | small hne => exact hne
  | capitalized hw =>
    obtain ⟨u, l, t, rfl, -⟩ := isCapitalized_iff.1 hw
    exact List.cons_ne_nil u _
  | digits hne => exact hne

/-- A word that leads a name has letters and digits only. -/
theorem Leads.isAlphanum (h : Leads w rest) : ∀ c ∈ w, c.isAlphanum = true := by
  intro c hc
  cases h with
  | acronym _ hw => exact isAlphanum_of_isUpper (hw c hc)
  | small _ hw => exact isAlphanum_of_isLower (hw c hc)
  | capitalized hw =>
    obtain ⟨u, l, t, rfl, hu, hsmall⟩ := isCapitalized_iff.1 hw
    rcases List.mem_cons.1 hc with rfl | hc
    · exact isAlphanum_of_isUpper hu
    · exact isAlphanum_of_isLower (hsmall c hc)
  | digits _ hw => exact isAlphanum_of_isDigit (hw c hc)

/-- A word that leads a name is the first of its words. -/
theorem words_of_leads (h : Leads w rest) : words (w ++ rest) = w :: words rest := by
  refine words_cons_of_leadingWord ?_ h.ne_nil
  rw [leadingWord, leadingLength_of_leads h, List.splitAt_eq, List.take_left, List.drop_left]

/-- No word leads what is passed over. -/
theorem leadingWord_of_passed (h : Passed run d) :
    leadingWord (run ++ d :: t) = ([], run ++ d :: t) := by
  rw [leadingWord, leadingLength_of_passed h, List.splitAt_eq, List.take_zero, List.drop_zero]

/-- What is passed over has no part in the words of a name. -/
theorem words_of_passed (h : Passed run d) : words (run ++ d :: t) = words t := by
  obtain ⟨hrun, hd⟩ := h
  have hword := leadingWord_of_passed (t := t) ⟨hrun, hd⟩
  -- one capital after the other, since a shorter run is passed over just the same
  induction run with
  | nil => exact words_cons_of_skip hword
  | cons c run ih =>
    have hrest := (List.forall_mem_cons.1 hrun).2
    rw [← ih hrest (leadingWord_of_passed ⟨hrest, hd⟩)]
    exact words_cons_of_skip hword

/-- A name that is not empty begins with a word or with what is passed over. -/
theorem leads_or_passed (hs : s ≠ []) :
    (∃ w rest, s = w ++ rest ∧ Leads w rest) ∨ ∃ run d t, s = run ++ d :: t ∧ Passed run d := by
  obtain ⟨run, tail, rfl, hrun, htail⟩ := exists_run Char.isUpper s
  -- what stands behind the capitals at the head decides
  cases tail with
  | nil => exact .inl ⟨run, [], rfl, .acronym (by simpa using hs) hrun .nil⟩
  | cons d t =>
    have hupper : d.isUpper = false := htail d rfl
    by_cases hdigit : d.isDigit = true
    · by_cases hnil : run = []
      · obtain ⟨w, rest, hsplit, hw, hrest⟩ := exists_run Char.isDigit (d :: t)
        have hne : w ≠ [] := ne_nil_of_exists_run hsplit hdigit hrest
        exact .inl ⟨w, rest, by rw [hnil, hsplit]; rfl, .digits hne hw hrest⟩
      · exact .inl ⟨run, d :: t, rfl, .acronym hnil hrun (.digit hdigit)⟩
    · by_cases hlower : d.isLower = true
      · obtain ⟨w, rest, hsplit, hw, hrest⟩ := exists_run Char.isLower (d :: t)
        have hne : w ≠ [] := ne_nil_of_exists_run hsplit hlower hrest
        rcases List.eq_nil_or_concat run with rfl | ⟨front, u, rfl⟩
        · exact .inl ⟨w, rest, hsplit, .small hne hw hrest⟩
        · -- the last capital belongs to the small letters
          rw [List.concat_eq_append] at hrun ⊢
          have hu : u.isUpper = true := hrun u (List.mem_append_right _ List.mem_cons_self)
          by_cases hfront : front = []
          · refine .inl ⟨u :: w, rest, by rw [hfront, hsplit]; rfl, .capitalized ?_ hrest⟩
            obtain ⟨l, w, rfl⟩ := List.exists_cons_of_ne_nil hne
            exact isCapitalized_iff.2 ⟨u, l, w, rfl, hu, hw⟩
          · refine .inl ⟨front, u :: d :: t, by simp, .acronym hfront ?_ (.capital hu hlower)⟩
            exact fun c hc => hrun c (List.mem_append_left _ hc)
      · refine .inr ⟨run, d, t, rfl, hrun, Bool.eq_false_iff.2 fun halnum => ?_⟩
        rcases isAlphanum_cases halnum with h | h | h
        · exact Bool.eq_false_iff.1 hupper h
        · exact hlower h
        · exact hdigit h

/-- Facts about names are proved for the empty name, for names that a word leads and for names
that begin with what is passed over. -/
@[elab_as_elim]
theorem reading_induction {motive : List Char → Prop} (nil : motive [])
    (word : ∀ w rest, Leads w rest → motive rest → motive (w ++ rest))
    (passed : ∀ run d t, Passed run d → motive t → motive (run ++ d :: t)) (s : List Char) :
    motive s := by
  induction hn : s.length using Nat.strong_induction_on generalizing s with
  | _ n ih =>
    by_cases hs : s = []
    · exact hs ▸ nil
    · rcases leads_or_passed hs with ⟨w, rest, rfl, h⟩ | ⟨run, d, t, rfl, h⟩
      · have hpos := List.length_pos_iff.2 h.ne_nil
        rw [List.length_append] at hn
        exact word w rest h (ih rest.length (by omega) rest rfl)
      · rw [List.length_append, List.length_cons] at hn
        exact passed run d t h (ih t.length (by omega) t rfl)

/-- ASCII letters and digits are all in words. -/
theorem flatten_words (h : ∀ c ∈ s, c.isAlphanum = true) : (words s).flatten = s := by
  induction s using reading_induction with
  | nil => rw [words_nil]; rfl
  | word w rest hlead ih =>
    rw [words_of_leads hlead, List.flatten_cons, ih fun c hc => h c (List.mem_append_right w hc)]
  | passed run d t hpassed ih =>
    have hd : d.isAlphanum = true := h d (List.mem_append_right run List.mem_cons_self)
    exact absurd hd (Bool.eq_false_iff.1 hpassed.stop)

theorem join_map_ofList (ws : List (List Char)) :
    String.join (ws.map String.ofList) = String.ofList ws.flatten := by
  rw [← String.toList_inj, String.toList_join, List.flatMap_map, String.toList_ofList]
  simp only [String.toList_ofList, List.flatMap_id']

end Reading

end Eponym
