/-
# Segments of texts put together

A text is cut in front of each capital, so two texts end to end have the segments of the
first and those of the second, the last of the one and the first of the other joined.  An
ending in small letters changes no segment but the last; the plural is a name with such an
ending, in place of a `y` or of nothing.  There is one way only to cut a text into a part
without capitals and parts that begin with their only capital.

* `segmentChars_append` : the segments of two texts end to end;
* `dropLast_segmentChars_subset`, `tail_segmentChars_subset` : which of them stay whole;
* `segmentChars_eq_cons_iff` : which parts of a text are its segments;
* `segmentChars_pluralChars` : a plural differs in the last segment.
-/
import Eponym.Identifier.Plural
import Eponym.Identifier.Word

namespace Eponym

section Segments

variable {c : Char} {p s l g : List Char} {init gs : List (List Char)}

/-! ## One character more -/

/-- A character in front begins the first segment, behind an empty one if it is a capital. -/
theorem segmentChars_cons (hs : segmentChars s = g :: gs) :
    segmentChars (c :: s) = (if c.isUpper then [[]] else []) ++ (c :: g) :: gs := by
  rw [segmentChars, hs]
  show (if c.isUpper then [] :: (c :: g) :: gs else (c :: g) :: gs) = _
  split <;> rfl

theorem exists_first_segment (s : List Char) : ∃ g gs, segmentChars s = g :: gs :=
  List.exists_cons_of_ne_nil (segmentChars_ne_nil s)

theorem exists_last_segment (s : List Char) : ∃ init l, segmentChars s = init ++ [l] :=
  ⟨_, _, (List.dropLast_concat_getLast (segmentChars_ne_nil s)).symm⟩

theorem last_segment_inj {front : List (List Char)} {k : List Char}
    (h : front ++ [k] = init ++ [l]) : front = init ∧ k = l := by
  obtain ⟨hfront, hk⟩ := List.append_inj' h rfl
  exact ⟨hfront, List.singleton_inj.1 hk⟩

/-! ## Two texts end to end -/

/-- Of two texts end to end, the last segment of the first and the first of the second are
joined, and the others are as before. -/
theorem segmentChars_append (hp : segmentChars p = init ++ [l]) (hs : segmentChars s = g :: gs) :
    segmentChars (p ++ s) = init ++ (l ++ g) :: gs := by
  induction p generalizing init l with
  | nil =>
    have hnil : [] ++ [[]] = init ++ [l] := hp
    obtain ⟨rfl, rfl⟩ := last_segment_inj hnil
    exact hs
  | cons c p ih =>
    obtain ⟨front, k, hpk⟩ := exists_last_segment p
    have happ := ih hpk
    cases front with
    | nil =>
      -- `c` joins the segment that is the last one as well
      rw [segmentChars_cons hpk] at hp
      obtain ⟨rfl, rfl⟩ := last_segment_inj hp
      rw [List.cons_append, segmentChars_cons happ]
      rfl
    | cons h front =>
      rw [List.cons_append] at hpk happ
      rw [segmentChars_cons hpk, ← List.cons_append, ← List.append_assoc] at hp
      obtain ⟨rfl, rfl⟩ := last_segment_inj hp
      rw [List.cons_append, segmentChars_cons happ, List.append_assoc]
      rfl

/-- The segments of the first text stay, but for the last. -/
theorem dropLast_segmentChars_subset (p s : List Char) :
    (segmentChars p).dropLast ⊆ segmentChars (p ++ s) := by
  obtain ⟨init, l, hp⟩ := exists_last_segment p
  obtain ⟨g, gs, hs⟩ := exists_first_segment s
  rw [segmentChars_append hp hs, hp, List.dropLast_concat]
  exact List.subset_append_left ..

/-- The segments of the second text stay, but for the first. -/
theorem tail_segmentChars_subset (p s : List Char) :
    (segmentChars s).tail ⊆ segmentChars (p ++ s) := by
  obtain ⟨init, l, hp⟩ := exists_last_segment p
  obtain ⟨g, gs, hs⟩ := exists_first_segment s
  rw [segmentChars_append hp hs, hs, List.tail_cons]
  exact fun _ h => List.mem_append_right _ (List.mem_cons_of_mem _ h)

/-! ## Endings in small letters -/

/-- A text without capitals is one segment. -/
theorem segmentChars_of_no_capital (hs : s.any Char.isUpper = false) : segmentChars s = [s] := by
  induction s with
  | nil => rfl
  | cons c s ih =>
    obtain ⟨hc, hs⟩ := Bool.or_eq_false_iff.1 (List.any_cons ▸ hs)
    rw [segmentChars_cons (ih hs), hc]
    rfl

/-- An ending without capitals goes to the last segment. -/
theorem segmentChars_append_of_no_capital (hp : segmentChars p = init ++ [l])
    (hs : s.any Char.isUpper = false) : segmentChars (p ++ s) = init ++ [l ++ s] :=
  segmentChars_append hp (segmentChars_of_no_capital hs)

/-! ## Which parts are segments -/

/-- Whether a text begins with its only capital. -/
def LedByCapital (s : List Char) : Prop :=
  ∃ u t, s = u :: t ∧ u.isUpper = true ∧ t.any Char.isUpper = false

/-- Parts that begin with their only capital are the segments behind a part without capitals. -/
theorem segmentChars_append_flatten (hg : g.any Char.isUpper = false)
    (hgs : ∀ k ∈ gs, LedByCapital k) : segmentChars (g ++ gs.flatten) = g :: gs := by
  induction gs generalizing g with
  | nil => rw [List.flatten_nil, List.append_nil, segmentChars_of_no_capital hg]
  | cons k gs ih =>
    obtain ⟨⟨u, t, rfl, hu, ht⟩, hlater⟩ := List.forall_mem_cons.1 hgs
    -- the text is cut at the capital, and what is behind it begins with no other
    have hbehind : segmentChars (u :: t ++ gs.flatten) = [] :: (u :: t) :: gs := by
      rw [List.cons_append, segmentChars_cons (ih ht hlater), if_pos hu]
      rfl
    have hfront : segmentChars g = [] ++ [g] := segmentChars_of_no_capital hg
    rw [List.flatten_cons, segmentChars_append hfront hbehind, List.append_nil]
    rfl

/-- The segments are the only parts of a text of which the first has no capital and each later
one begins with its only capital. -/
theorem segmentChars_eq_cons_iff :
    segmentChars s = g :: gs ↔
      s = g ++ gs.flatten ∧ g.any Char.isUpper = false ∧ ∀ k ∈ gs, LedByCapital k := by
  constructor
  · intro hs
    induction s generalizing g gs with
    | nil =>
      obtain ⟨rfl, rfl⟩ := List.cons.inj hs
      exact ⟨rfl, rfl, List.forall_mem_nil _⟩
    | cons c s ih =>
      obtain ⟨k, ks, hks⟩ := exists_first_segment s
      obtain ⟨rfl, hk, hlater⟩ := ih hks
      rw [segmentChars_cons hks] at hs
      cases hc : c.isUpper with
      | true =>
        rw [if_pos hc] at hs
        obtain ⟨rfl, rfl⟩ := List.cons.inj hs
        exact ⟨rfl, rfl, List.forall_mem_cons.2 ⟨⟨c, k, rfl, hc, hk⟩, hlater⟩⟩
      | false =>
        rw [if_neg (Bool.eq_false_iff.1 hc)] at hs
        obtain ⟨rfl, rfl⟩ := List.cons.inj hs
        refine ⟨rfl, ?_, hlater⟩
        rw [List.any_cons, hc, hk]
        rfl
  · rintro ⟨rfl, hg, hgs⟩
    exact segmentChars_append_flatten hg hgs

/-- Parts that begin with their only capital make up exactly the texts that begin with a capital,
or with nothing. -/
theorem head?_isUpper_iff :
    (∀ c ∈ s.head?, c.isUpper = true) ↔
      ∃ gs : List (List Char), s = gs.flatten ∧ ∀ k ∈ gs, LedByCapital k := by
  constructor
  · intro hcapital
    obtain ⟨g, gs, hs⟩ := exists_first_segment s
    obtain ⟨rfl, hg, hgs⟩ := segmentChars_eq_cons_iff.1 hs
    cases g with
    | nil => exact ⟨gs, rfl, hgs⟩
    | cons d g =>
      -- then a capital would be in the first segment
      have hd : d.isUpper = true := hcapital d rfl
      rw [List.any_cons, hd] at hg
      exact nomatch hg
  · rintro ⟨gs, rfl, hgs⟩
    cases gs with
    | nil => exact fun c hc => nomatch hc
    | cons k gs =>
      obtain ⟨u, t, rfl, hu, -⟩ := hgs k List.mem_cons_self
      simpa using hu

/-! ## Plurals -/

/-- A plural puts an `s` and at most two small letters in the place of a `y`, or of nothing. -/
theorem exists_stem (hs : s ≠ []) : ∃ p t w, s = p ++ t ∧ pluralChars s = p ++ (w ++ ['s']) ∧
    t.any Char.isUpper = false ∧ (w ++ ['s']).any Char.isUpper = false := by
  rw [pluralChars, if_neg hs]
  split
  · next hy =>
    -- the last character is a `y`
    have hlast : ∃ p, s = p ++ ['y'] := by
      unfold endsInConsonantY at hy
      split at hy
      · next d r hr => exact ⟨(d :: r).reverse, by simpa using congrArg List.reverse hr⟩
      · exact nomatch hy
    obtain ⟨p, rfl⟩ := hlast
    refine ⟨p, ['y'], ['i', 'e'], rfl, ?_, rfl, rfl⟩
    rw [List.dropLast_concat]
    rfl
  · split
    · exact ⟨s, [], ['e'], (List.append_nil s).symm, rfl, rfl, rfl⟩
    · exact ⟨s, [], [], (List.append_nil s).symm, rfl, rfl, rfl⟩

/-- A plural has the segments of the name but for the last, which ends in an `s`. -/
theorem segmentChars_pluralChars (hs : s ≠ []) :
    ∃ w, segmentChars (pluralChars s) = (segmentChars s).dropLast ++ [w ++ ['s']] := by
  obtain ⟨p, t, w, rfl, hplural, ht, hw⟩ := exists_stem hs
  obtain ⟨init, l, hp⟩ := exists_last_segment p
  refine ⟨l ++ w, ?_⟩
  rw [hplural, segmentChars_append_of_no_capital hp hw, segmentChars_append_of_no_capital hp ht,
    List.dropLast_concat, List.append_assoc]

end Segments

end Eponym
