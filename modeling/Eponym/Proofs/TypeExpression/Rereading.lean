/-
# Reading again what was read and printed

What is read from an expression is well-formed, except that a name may have started with a
digit or a dash behind the separators that were dropped.  Such a name is printed without
them, and then no word of an expression.  All other descriptors are read back.

* `WordsStart` : each word of a text starts as a name may;
* `Proper` : what every phrase of the grammar has in common;
* `Descriptor.classNames` : the names of classes anywhere in a descriptor;
* `parse_text_eq_ok_iff` : which descriptors are read back after they were read.
-/
import Eponym.Proofs.TypeExpression.Printing

namespace Eponym

/-! ## Names of classes -/

namespace Descriptor

mutual

/-- The names of classes anywhere in a descriptor, also inside iterables. -/
def classNames : Descriptor → List TypeName
  | named t => [t.name]
  | union members | intersection members => classNamesList members
  | iterable value => classNames value
  | keyed key value => classNames key ++ classNames value
  | null | scalar _ => []

/-- The names of classes in several descriptors. -/
def classNamesList : List Descriptor → List TypeName
  | [] => []
  | d :: ds => classNames d ++ classNamesList ds

end

theorem mem_classNamesList {n : TypeName} {ds : List Descriptor} :
    n ∈ classNamesList ds ↔ ∃ d ∈ ds, n ∈ d.classNames := by
  induction ds with
  | nil => simp [classNamesList]
  | cons d ds ih => simp [classNamesList, ih]

end Descriptor

namespace TypeExpression

open Descriptor (chars joined memberChars enclose classNames classNamesList)

/-- The name of a type starts with a letter or an underscore. -/
def StartsPlainly (n : TypeName) : Prop := ∃ c ∈ n.text.toList.head?, IsPlainStart c

instance (n : TypeName) : Decidable (StartsPlainly n) :=
  inferInstanceAs (Decidable (∃ c ∈ n.text.toList.head?, IsPlainStart c))

/-! ## Words -/

/-- Each word of the text, a longest run of characters of names, starts as a name may.  The
text may go on a word itself. -/
def WordsStart : Bool → List Char → Prop
  | _, [] => True
  | inside, c :: s =>
    (isNameChar c = true → inside = true ∨ isNameStart c = true) ∧ WordsStart (isNameChar c) s

/-- Less is asked of a text that goes on a word. -/
theorem WordsStart.of_outside {s : List Char} (h : WordsStart false s) (b : Bool) :
    WordsStart b s := by
  cases s with
  | nil => exact trivial
  | cons c s => exact ⟨fun hc => .inr ((h.1 hc).resolve_left Bool.false_ne_true), h.2⟩

/-- Words start as names may in two texts one behind the other. -/
theorem WordsStart.append {b : Bool} {u v : List Char} (hu : WordsStart b u)
    (hv : WordsStart false v) : WordsStart b (u ++ v) := by
  induction u generalizing b with
  | nil => exact hv.of_outside b
  | cons c u ih => exact ⟨hu.1, ih hu.2⟩

/-- The words in front start as names may. -/
theorem WordsStart.left {b : Bool} {u v : List Char} (h : WordsStart b (u ++ v)) :
    WordsStart b u := by
  induction u generalizing b with
  | nil => exact trivial
  | cons c u ih => exact ⟨h.1, ih h.2⟩

/-- So do the words behind a character that belongs to none. -/
theorem WordsStart.right {b : Bool} {c : Char} {u v : List Char} (h : WordsStart b (u ++ c :: v))
    (hc : isNameChar c = false) : WordsStart false v := by
  induction u generalizing b with
  | nil =>
    have hv := h.2
    rwa [hc] at hv
  | cons _ u ih => exact ih h.2

/-- A text of no characters of names has no words. -/
theorem wordsStart_of_none {s : List Char} (h : ∀ c ∈ s, isNameChar c = false) (b : Bool) :
    WordsStart b s := by
  induction s generalizing b with
  | nil => exact trivial
  | cons c s ih =>
    refine ⟨?_, ih (fun x hx => h x (List.mem_cons_of_mem c hx)) _⟩
    intro hc
    rw [h c List.mem_cons_self] at hc
    exact absurd hc Bool.false_ne_true

/-- A word has no other words in it. -/
theorem wordsStart_of_all {s : List Char} (h : ∀ c ∈ s, isNameChar c = true) :
    WordsStart true s := by
  induction s with
  | nil => exact trivial
  | cons c s ih =>
    refine ⟨fun _ => .inl rfl, ?_⟩
    rw [h c List.mem_cons_self]
    exact ih fun x hx => h x (List.mem_cons_of_mem c hx)

/-- White space has no words. -/
theorem wordsStart_blank {u : List Char} (hu : skipSpace u = []) : WordsStart false u := by
  apply wordsStart_of_none
  intro c hc
  rw [skipSpace, List.dropWhile_eq_nil_iff] at hu
  rw [Bool.eq_false_iff]
  intro hname
  have hspace := hu c hc
  rw [isSpace_of_isNameChar hname] at hspace
  exact Bool.false_ne_true hspace

/-- A sign that belongs to no name has no words in front. -/
theorem IsSign.wordsStart {c : Char} {u : List Char} (hu : IsSign c u)
    (hc : isNameChar c = false) : WordsStart false u := by
  obtain ⟨w, hw, heq⟩ := exists_blank u
  rw [show skipSpace u = [c] from hu] at heq
  rw [heq]
  refine (wordsStart_blank hw).append ⟨?_, trivial⟩
  intro h
  rw [hc] at h
  exact absurd h Bool.false_ne_true

/-- A name is a word that starts as it may. -/
theorem IsName.wordsStart {u : List Char} (hu : IsName (skipSpace u)) : WordsStart false u := by
  obtain ⟨w, hw, heq⟩ := exists_blank u
  obtain ⟨c, hc, hstart⟩ := hu.start
  obtain ⟨r, hr⟩ := List.head?_eq_some_iff.1 hc
  have hchars := hu.chars
  rw [hr] at hchars heq
  rw [heq]
  refine (wordsStart_blank hw).append ⟨fun _ => .inr hstart, ?_⟩
  rw [hchars c List.mem_cons_self]
  exact wordsStart_of_all fun x hx => hchars x (List.mem_cons_of_mem c hx)

/-! ## Phrases -/

/-- Any character may come first. -/
def AnyStart (_ : Char) : Prop := True

/-- The descriptor may be read: it is well-formed but for how names start, and it fits. -/
structure Readable (d : Descriptor) : Prop where
  wellFormed : WellFormed AnyStart d
  fits : Fits d

/-- What all phrases have in common: they stand for what may be read, and each of their words
starts as a name may. -/
def Proper (L : Language Descriptor) : Prop :=
  ∀ ⦃w d⦄, L w d → Readable d ∧ WordsStart false w

section Proper

variable {L P : Language Descriptor} {Firm : List Char → Prop}

/-- Further entries of a list are proper. -/
theorem Proper.further (h : Proper L) {sign : Char} (hsign : isNameChar sign = false)
    {v : List Char} {ds : List Descriptor} (hv : Further sign L v ds) :
    (∀ d ∈ ds, Readable d) ∧ WordsStart false v := by
  induction hv with
  | nil => exact ⟨nofun, trivial⟩
  | cons hu hw _ ih =>
    obtain ⟨hd, hwords⟩ := h hw
    refine ⟨List.forall_mem_cons.2 ⟨hd, ih.1⟩, ?_⟩
    exact (hu.wordsStart hsign).append (hwords.append ih.2)

/-- Lists are proper if they are joined to what is well-formed. -/
theorem Proper.joined (h : Proper L) {sign : Char} (hsign : isNameChar sign = false)
    {join : List Descriptor → Descriptor}
    (hjoin : ∀ {ds}, 2 ≤ ds.length → (∀ d ∈ ds, WellFormed AnyStart d) →
      WellFormed AnyStart (join ds)) : Proper (Joined sign join L) := by
  intro w d hw
  cases hw with
  | single hw => exact h hw
  | several hw hv hf =>
    obtain ⟨hd, hwords⟩ := h hw
    obtain ⟨hds, hwords'⟩ := h.further hsign hv
    have hall := List.forall_mem_cons.2 ⟨hd, hds⟩
    refine ⟨⟨hjoin (Nat.le_add_left 2 _) fun e he => (hall e he).wellFormed, hf⟩, ?_⟩
    exact hwords.append hwords'

/-- Brackets behind what may be read make what may be read. -/
theorem Brackets.readable {d e : Descriptor} {v : List Char} (hv : Brackets d v e)
    (hd : Readable d) : Readable e ∧ WordsStart false v := by
  induction hv with
  | nil => exact ⟨hd, trivial⟩
  | cons hu hv hf _ ih =>
    obtain ⟨he, hwords⟩ := ih ⟨.iterable hd.wellFormed, hf⟩
    have hopen := hu.wordsStart (by decide)
    exact ⟨he, hopen.append ((hv.wordsStart (by decide)).append hwords)⟩

/-- Suffixed types are proper. -/
theorem Proper.suffixed (h : Proper P) : Proper (Suffixed Firm P) := by
  intro w d hw
  cases hw with
  | intro hw hv =>
    obtain ⟨hd, hwords⟩ := h hw
    obtain ⟨he, hwords'⟩ := hv.readable hd
    exact ⟨he, hwords.append hwords'⟩

theorem Proper.union (h : Proper P) : Proper (Union Firm P) :=
  (h.suffixed.joined (by decide) .intersection).joined (by decide) .union

/-- Arguments are proper. -/
theorem Proper.arguments (h : Proper P) {w : List Char} {ds : List Descriptor}
    (hw : Arguments Firm P w ds) : (∀ d ∈ ds, Readable d) ∧ WordsStart false w := by
  cases hw with
  | none => exact ⟨nofun, trivial⟩
  | some hu hw hv hx =>
    obtain ⟨hd, hwords⟩ := h.union hw
    obtain ⟨hds, hwords'⟩ := h.union.further (by decide) hv
    have hopen := hu.wordsStart (by decide)
    have hclose := hx.wordsStart (by decide)
    refine ⟨List.forall_mem_cons.2 ⟨hd, hds⟩, ?_⟩
    exact hopen.append (hwords.append (hwords'.append hclose))

/-- What a name stands for may be read if its arguments may. -/
theorem Denotes.readable {word : List Char} (hword : IsName word) {ds : List Descriptor}
    {d : Descriptor} (hd : Denotes (stripSeparators word) ds d) (hds : ∀ d ∈ ds, Readable d) :
    Readable d := by
  cases hd with
  | mixed => exact ⟨.iterable (.scalar (by decide)), by decide⟩
  | iterable _ hf =>
    have hv := hds _ List.mem_cons_self
    exact ⟨.iterable hv.wellFormed, hf⟩
  | keyed _ hf =>
    have hk := hds _ List.mem_cons_self
    have hv := hds _ (List.mem_cons_of_mem _ List.mem_cons_self)
    exact ⟨.keyed hk.wellFormed hv.wellFormed, hf⟩
  | null => exact ⟨.null, by decide⟩
  | scalar h =>
    refine ⟨.scalar ?_, Nat.le_add_left 1 255⟩
    rwa [String.toList_ofList]
  | named hi hn hs =>
    have hstrip : stripSeparators (stripSeparators word) = stripSeparators word :=
      List.dropWhile_idempotent _ word
    refine ⟨.named rfl ?_, Nat.le_add_left 1 255⟩
    rw [TypeName.ofString, String.toList_ofList, String.toList_ofList, hstrip]
    refine ⟨⟨?_, ?_, hword.last_ne⟩, hi, hn, hs⟩
    · obtain ⟨c, r, hc⟩ := List.exists_cons_of_ne_nil hword.ne_nil
      rw [hc]
      exact ⟨c, rfl, trivial⟩
    · intro c hc
      exact hword.chars c ((List.dropWhile_sublist _).mem hc)

/-- Primaries are proper, at every depth. -/
theorem proper_primary (n : Nat) : Proper (Primary Firm n) := by
  induction n with
  | zero => exact fun _ _ hw => hw.elim
  | succ n ih =>
    intro w d hw
    cases hw with
    | optional hu hw hf =>
      obtain ⟨hd, hwords⟩ := ih.suffixed hw
      have hboth : ∀ e ∈ [_, Descriptor.null], WellFormed AnyStart e :=
        List.forall_mem_cons.2 ⟨hd.wellFormed, List.forall_mem_singleton.2 .null⟩
      exact ⟨⟨.union (Nat.le_refl 2) hboth, hf⟩, (hu.wordsStart (by decide)).append hwords⟩
    | group hu hw hx =>
      obtain ⟨hd, hwords⟩ := ih.union hw
      have hopen := hu.wordsStart (by decide)
      exact ⟨hd, hopen.append (hwords.append (hx.wordsStart (by decide)))⟩
    | name hu hw hd =>
      obtain ⟨hds, hwords⟩ := ih.arguments hw
      exact ⟨hd.readable hu hds, hu.wordsStart.append hwords⟩

theorem proper_expression : Proper (Expression Firm) := by
  rintro s d ⟨w, v, rfl, hv, hw⟩
  obtain ⟨hd, hwords⟩ := (proper_primary depthLimit).union hw
  exact ⟨hd, hwords.append (wordsStart_blank hv)⟩

end Proper

/-! ## Printed names -/

/-- The sign between members belongs to no member, so their words start as names may. -/
theorem WordsStart.joined {sign : Char} (hsign : isNameChar sign = false)
    {ds : List Descriptor} (h : WordsStart false (joined sign ds)) :
    ∀ d ∈ ds, WordsStart false d.memberChars := by
  induction ds with
  | nil => exact List.forall_mem_nil _
  | cons d ds ih =>
    cases ds with
    | nil => exact List.forall_mem_singleton.2 h
    | cons e es =>
      rw [Descriptor.joined] at h
      exact List.forall_mem_cons.2 ⟨h.left, ih (h.right hsign)⟩

/-- Parentheses belong to no word. -/
theorem WordsStart.member {d : Descriptor} (h : WordsStart false d.memberChars) :
    WordsStart false d.chars := by
  rw [memberChars] at h
  cases hc : d.isCompound with
  | false =>
    rw [hc] at h
    exact h
  | true =>
    rw [hc] at h
    have hinside : WordsStart false (d.chars ++ [')']) := h.right (u := []) (by decide)
    exact hinside.left

/-- If each word of a printed text starts as a name may, each name in the descriptor starts
with a letter or an underscore, since no name starts with a separator. -/
theorem startsPlainly_of_wordsStart {d : Descriptor} (hd : WellFormed AnyStart d)
    (h : WordsStart false d.chars) : ∀ n ∈ d.classNames, StartsPlainly n := by
  induction hd with
  | @named t _ hn =>
    obtain ⟨c, hc, -⟩ := hn.start
    obtain ⟨r, hr⟩ := List.head?_eq_some_iff.1 hc
    have hchars := hn.chars c (hr ▸ List.mem_cons_self)
    rw [Descriptor.chars, hr] at h
    -- of what may start a name only the separator is ruled out
    have hstart := (h.1 hchars).resolve_left Bool.false_ne_true
    have hne : c ≠ separator := by
      rintro rfl
      exact t.name.head_ne hc
    refine List.forall_mem_singleton.2 ⟨c, hc, ?_⟩
    show c.isAlpha = true ∨ c = '_'
    simpa [isNameStart, hne] using hstart
  | union _ _ ih =>
    intro n hn
    obtain ⟨d, hd, hn⟩ := Descriptor.mem_classNamesList.1 hn
    exact ih d hd (h.joined (by decide) d hd).member n hn
  | intersection _ _ ih =>
    intro n hn
    obtain ⟨d, hd, hn⟩ := Descriptor.mem_classNamesList.1 hn
    exact ih d hd (h.joined (by decide) d hd).member n hn
  | iterable _ ih =>
    -- the opening bracket parts the value from the word in front
    have hinside : WordsStart false (_ ++ ['>']) :=
      h.right (u := ['a', 'r', 'r', 'a', 'y']) (by decide)
    exact ih hinside.left
  | @keyed k v _ _ ihk ihv =>
    have hinside : WordsStart false (k.chars ++ [',', ' '] ++ v.chars ++ ['>']) :=
      h.right (u := ['a', 'r', 'r', 'a', 'y']) (by decide)
    intro n hn
    rcases List.mem_append.1 hn with hn | hn
    · exact ihk hinside.left.left.left n hn
    · simp only [List.append_assoc] at hinside
      have hspaced : WordsStart false (' ' :: (v.chars ++ ['>'])) := hinside.right (by decide)
      have hvalue : WordsStart false (v.chars ++ ['>']) := hspaced.right (u := []) (by decide)
      exact ihv hvalue.left n hn
  | null => exact List.forall_mem_nil _
  | scalar => exact List.forall_mem_nil _

/-- If each name starts with a letter or an underscore the descriptor is well-formed. -/
theorem WellFormed.of_startsPlainly {d : Descriptor} (hd : WellFormed AnyStart d)
    (h : ∀ n ∈ d.classNames, StartsPlainly n) : WellFormed IsPlainStart d := by
  induction hd with
  | @named t hb hn =>
    have hstart := h t.name List.mem_cons_self
    have hword : IsWord IsPlainStart t.name.text.toList := ⟨hstart, hn.chars, hn.last_ne⟩
    exact .named hb ⟨hword, hn.not_iterable, hn.not_null, hn.not_scalar⟩
  | union hl _ ih =>
    refine .union hl fun m hm => ih m hm fun n hn => h n ?_
    exact Descriptor.mem_classNamesList.2 ⟨m, hm, hn⟩
  | intersection hl _ ih =>
    refine .intersection hl fun m hm => ih m hm fun n hn => h n ?_
    exact Descriptor.mem_classNamesList.2 ⟨m, hm, hn⟩
  | iterable _ ih => exact .iterable (ih h)
  | keyed _ _ ihk ihv =>
    refine .keyed (ihk fun n hn => h n ?_) (ihv fun n hn => h n ?_)
    · exact List.mem_append_left _ hn
    · exact List.mem_append_right _ hn
  | null => exact .null
  | scalar hs => exact .scalar hs

/-- What was read is read back from what is printed exactly if each name in it starts with a
letter or an underscore; else what is printed is no expression. -/
theorem parse_text_eq_ok_iff {s : String} {d : Descriptor} (h : Descriptor.parse s = .ok d) :
    (Descriptor.parse d.text = .ok d ↔ ∀ n ∈ d.classNames, StartsPlainly n) := by
  obtain ⟨hd, -⟩ := proper_expression (parse_eq_ok_iff.1 h)
  rw [parse_eq_ok_iff, Descriptor.text, String.toList_ofList]
  constructor
  · -- what is read back is an expression, whose words start as names may
    intro hread
    exact startsPlainly_of_wordsStart hd.wellFormed (proper_expression hread).2
  · intro hstart
    exact (hd.wellFormed.of_startsPlainly hstart).expression hd.fits

end TypeExpression

end Eponym
