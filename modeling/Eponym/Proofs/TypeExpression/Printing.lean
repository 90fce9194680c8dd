/-
# Reading what was printed

A descriptor is printed as an expression that stands for it, provided that its names can
be told from keywords, scalars, and each other.  The parentheses and words that the
printer adds do not cost more depth than the descriptor has height, so no limit is met.

* `WellFormed` : the descriptors that have an expression of their own;
* `Written` : the printed text stands for the descriptor, at every depth that it fits;
* `WellFormed.written` : so do the texts of well-formed descriptors;
* `parse_text` : they are read back.
-/
import Eponym.Proofs.TypeExpression.Acceptance
import Eponym.TypeExpression.Printer

namespace Eponym.TypeExpression

open Descriptor (chars joined memberChars enclose heightList)

/-! ## Well-formed descriptors -/

/-- A word of the characters of names, with no separator at its end. -/
structure IsWord (Start : Char → Prop) (word : List Char) : Prop where
  start : ∃ c ∈ word.head?, Start c
  chars : ∀ c ∈ word, isNameChar c = true
  last_ne : word.getLast? ≠ some separator

/-- The name of a class is a word that is no keyword. -/
structure IsClassName (Start : Char → Prop) (name : List Char) : Prop
    extends IsWord Start name where
  not_iterable : keyword name ∉ iterableKeywords
  not_null : keyword name ≠ "null"
  not_scalar : keyword name ∉ scalarKeywords

section Decidable

variable (Start : Char → Prop) [DecidablePred Start] (word : List Char)

instance decidableStart : Decidable (∃ c ∈ word.head?, Start c) :=
  decidable_of_iff (word.head?.any fun c => decide (Start c)) (by simp [Option.any_eq_true])

instance : Decidable (IsWord Start word) :=
  decidable_of_iff ((∃ c ∈ word.head?, Start c) ∧ word.all isNameChar = true ∧
    word.getLast? ≠ some separator)
    ⟨fun h => ⟨h.1, List.all_eq_true.1 h.2.1, h.2.2⟩,
      fun h => ⟨h.start, List.all_eq_true.2 h.chars, h.last_ne⟩⟩

instance : Decidable (IsClassName Start word) :=
  decidable_of_iff (IsWord Start word ∧ keyword word ∉ iterableKeywords ∧
    keyword word ≠ "null" ∧ keyword word ∉ scalarKeywords)
    ⟨fun h => ⟨h.1, h.2.1, h.2.2.1, h.2.2.2⟩,
      fun h => ⟨h.toIsWord, h.not_iterable, h.not_null, h.not_scalar⟩⟩

end Decidable

/-- A letter or an underscore. -/
def IsPlainStart (c : Char) : Prop := c.isAlpha = true ∨ c = '_'

instance : DecidablePred IsPlainStart := fun c =>
  inferInstanceAs (Decidable (c.isAlpha = true ∨ c = '_'))

/-- The descriptor can be told from its expression, if names start with the given characters:
each union and intersection has several members, each named type is named as a class outside
the runtime is, and each scalar is a keyword in some spelling. -/
inductive WellFormed (Start : Char → Prop) : Descriptor → Prop
  | named {t : NamedType} (hb : t.builtin = false)
      (hn : IsClassName Start t.name.text.toList) : WellFormed Start (.named t)
  | union {ms : List Descriptor} (hl : 2 ≤ ms.length) (hms : ∀ m ∈ ms, WellFormed Start m) :
      WellFormed Start (.union ms)
  | intersection {ms : List Descriptor} (hl : 2 ≤ ms.length)
      (hms : ∀ m ∈ ms, WellFormed Start m) : WellFormed Start (.intersection ms)
  | iterable {v : Descriptor} (hv : WellFormed Start v) : WellFormed Start (.iterable v)
  | keyed {k v : Descriptor} (hk : WellFormed Start k) (hv : WellFormed Start v) :
      WellFormed Start (.keyed k v)
  | null : WellFormed Start .null
  | scalar {name : String} (h : keyword name.toList ∈ scalarKeywords) :
      WellFormed Start (.scalar name)

/-! ## White space in front -/

/-- White space may stand in front of the phrases of a language. -/
def Spaced (L : Language Descriptor) : Prop :=
  ∀ ⦃u w d⦄, skipSpace u = [] → L w d → L (u ++ w) d

section Spaced

variable {L P : Language Descriptor} {Firm : List Char → Prop}

theorem IsSign.append_left {c : Char} {u w : List Char} (hu : skipSpace u = [])
    (hw : IsSign c w) : IsSign c (u ++ w) := by
  rw [IsSign, skipSpace_append_of_eq_nil hu]
  exact hw

/-- White space may stand in front of a primary. -/
theorem spaced_primaryOver : Spaced (PrimaryOver Firm P) := by
  intro u w d hu hw
  cases hw with
  | optional hsign hw hf =>
    rw [← List.append_assoc]
    exact .optional (hsign.append_left hu) hw hf
  | group hsign hw hx =>
    rw [← List.append_assoc]
    exact .group (hsign.append_left hu) hw hx
  | @name v _ _ _ hname hw hd =>
    rw [← skipSpace_append_of_eq_nil hu v] at hname hd
    rw [← List.append_assoc]
    exact .name hname hw hd

/-- White space may stand in front of a primary, at every depth. -/
theorem spaced_primary (n : Nat) : Spaced (Primary Firm n) := by
  cases n with
  | zero => exact fun _ _ _ _ hw => hw.elim
  | succ n => exact spaced_primaryOver

/-- White space may stand in front of a suffixed type. -/
theorem Spaced.suffixed (h : Spaced P) : Spaced (Suffixed FirmPrimary P) := by
  intro u w d hu hw
  cases hw with
  | intro hw hv hf =>
    rw [← List.append_assoc]
    refine .intro (h hu hw) hv fun hne => ?_
    rw [FirmPrimary, skipSpace_append_of_eq_nil hu]
    exact hf hne

/-- White space may stand in front of a list. -/
theorem Spaced.joined (h : Spaced L) {sign : Char} {join : List Descriptor → Descriptor} :
    Spaced (Joined sign join L) := by
  intro u w d hu hw
  cases hw with
  | single hw => exact .single (h hu hw)
  | several hw hv hf =>
    rw [← List.append_assoc]
    exact .several (h hu hw) hv hf

theorem spaced_union (n : Nat) : Spaced (Union FirmPrimary (Primary FirmPrimary n)) :=
  (spaced_primary n).suffixed.joined.joined

end Spaced

/-! ## Names -/

/-- A letter or underscore may start a name, and is no separator. -/
theorem IsPlainStart.isNameStart {c : Char} (h : IsPlainStart c) :
    isNameStart c = true ∧ c ≠ separator := by
  rcases h with h | rfl
  · refine ⟨?_, ?_⟩
    · rw [TypeExpression.isNameStart, h]
      rfl
    · rintro rfl
      exact absurd h (by decide)
  · decide

/-- A word stands for itself: there is nothing to skip in front of it. -/
theorem IsWord.eq_self {word : List Char} (h : IsWord IsPlainStart word) :
    skipSpace word = word ∧ stripSeparators word = word := by
  obtain ⟨c, hc, hstart⟩ := h.start
  obtain ⟨r, rfl⟩ := List.head?_eq_some_iff.1 hc
  refine ⟨?_, ?_⟩
  · rw [skipSpace, List.dropWhile_cons_of_neg]
    rw [isSpace_of_isNameChar (h.chars c List.mem_cons_self)]
    exact Bool.false_ne_true
  · rw [stripSeparators, List.dropWhile_cons_of_neg]
    rw [decide_eq_true_eq]
    exact hstart.isNameStart.2

/-- A word is a name. -/
theorem IsWord.isName {word : List Char} (h : IsWord IsPlainStart word) : IsName word := by
  obtain ⟨c, hc, hstart⟩ := h.start
  refine ⟨⟨c, hc, hstart.isNameStart.1⟩, h.chars, ?_, ?_⟩
  · rw [h.eq_self.2]
    rintro rfl
    cases hc
  · rw [h.eq_self.2]
    exact h.last_ne

/-- A word with its arguments is a primary. -/
theorem IsWord.primary {Firm : List Char → Prop} {n : Nat} {word w : List Char}
    {ds : List Descriptor} {d : Descriptor} (h : IsWord IsPlainStart word)
    (hw : Arguments Firm (Primary Firm n) w ds) (hd : Denotes word ds d) :
    Primary Firm (n + 1) (word ++ w) d := by
  obtain ⟨hskip, hstrip⟩ := h.eq_self
  refine PrimaryOver.name ?_ hw ?_
  · rw [hskip]
    exact h.isName
  · rw [hskip, hstrip]
    exact hd

/-- Only letters are changed when a word is compared with keywords. -/
theorem toLower_eq_or (c : Char) : c.toLower = c ∨ c.isAlpha = true := by
  unfold Char.toLower
  split
  · next h =>
    have hupper : c.isUpper = true := decide_eq_true h
    exact .inr (Bool.or_eq_true _ _ ▸ .inl hupper)
  · exact .inl rfl

theorem isNameChar_of_isAlpha {c : Char} (h : c.isAlpha = true) : isNameChar c = true := by
  rw [isNameChar, Char.isAlphanum, h]
  rfl

/-- A text is a word if it is one in small letters. -/
theorem IsWord.of_toLower {word : List Char} (h : IsWord IsPlainStart (word.map Char.toLower)) :
    IsWord IsPlainStart word := by
  refine ⟨?_, ?_, ?_⟩
  · obtain ⟨b, hb, hstart⟩ := h.start
    rw [List.head?_map, Option.mem_def, Option.map_eq_some_iff] at hb
    obtain ⟨c, hc, rfl⟩ := hb
    refine ⟨c, hc, ?_⟩
    rcases toLower_eq_or c with heq | halpha
    · rwa [heq] at hstart
    · exact .inl halpha
  · intro c hc
    rcases toLower_eq_or c with heq | halpha
    · have hlower := h.chars _ (List.mem_map_of_mem hc)
      rwa [heq] at hlower
    · exact isNameChar_of_isAlpha halpha
  · intro hlast
    apply h.last_ne
    rw [List.getLast?_map, hlast]
    rfl

theorem isWord_of_scalar {name : List Char} (h : keyword name ∈ scalarKeywords) :
    IsWord IsPlainStart name := by
  have hall : ∀ k ∈ scalarKeywords, IsWord IsPlainStart k.toList := by decide
  have hlower := hall _ h
  rw [keyword, String.toList_ofList] at hlower
  exact hlower.of_toLower

/-! ## Printed texts -/

/-- The printed text stands for the descriptor wherever as many primaries may be nested as it
has levels, and is a primary unless it is compound. -/
structure Written (d : Descriptor) : Prop where
  union : ∀ {n}, d.height ≤ n → Union FirmPrimary (Primary FirmPrimary n) d.chars d
  primary : d.isCompound = false → ∀ {n}, d.height ≤ n → Primary FirmPrimary n d.chars d

theorem Primary.union {n : Nat} {w : List Char} {d : Descriptor} (h : Primary FirmPrimary n w d) :
    Union FirmPrimary (Primary FirmPrimary n) w d :=
  .single (.single (.of_primary h))

/-- What is printed as a primary is written.  It has at least the level that a word takes. -/
theorem Written.of_primary {d : Descriptor}
    (h : ∀ {n}, d.height ≤ n + 1 → Primary FirmPrimary (n + 1) d.chars d) : Written d := by
  have hprimary : ∀ {n}, d.height ≤ n → Primary FirmPrimary n d.chars d := by
    intro n hn
    cases n with
    | zero => exact absurd (height_pos d) (Nat.not_lt.2 hn)
    | succ n => exact h hn
  exact ⟨fun hn => (hprimary hn).union, fun _ => hprimary⟩

/-- A member is printed as a primary, for which it may need parentheses. -/
theorem Written.member {d : Descriptor} (h : Written d) {n : Nat} (hn : d.height < n) :
    Primary FirmPrimary n d.memberChars d := by
  obtain ⟨n, rfl⟩ := Nat.exists_eq_add_one_of_ne_zero (show n ≠ 0 by omega)
  rw [memberChars]
  cases hc : d.isCompound with
  | false => exact h.primary hc (by omega)
  | true =>
    -- the parentheses take the level that a member has less than the whole
    have hunion := h.union (n := n) (by omega)
    exact PrimaryOver.group (u := ['(']) (x := [')']) rfl hunion rfl

/-- Behind the first member each of the others stands after the sign. -/
theorem joined_cons (sign : Char) (d : Descriptor) (ds : List Descriptor) :
    joined sign (d :: ds) = d.memberChars ++ ds.flatMap fun e => [sign] ++ e.memberChars := by
  induction ds generalizing d with
  | nil =>
    rw [joined, List.flatMap_nil, List.append_nil]
    rfl
  | cons e es ih =>
    rw [joined, ih e, List.flatMap_cons]
    simp only [List.singleton_append]
    rfl

/-- The other members are further entries. -/
theorem further_flatMap {sign : Char} (hsign : isSpace sign = false) {L : Language Descriptor}
    {ds : List Descriptor} (h : ∀ d ∈ ds, L d.memberChars d) :
    Further sign L (ds.flatMap fun e => [sign] ++ e.memberChars) ds := by
  have hs : IsSign sign [sign] := by
    rw [IsSign, skipSpace, List.dropWhile_cons_of_neg]
    rw [hsign]
    exact Bool.false_ne_true
  induction ds with
  | nil => exact .nil
  | cons d ds ih =>
    rw [List.flatMap_cons, List.append_assoc]
    exact .cons hs (h d List.mem_cons_self) (ih fun e he => h e (List.mem_cons_of_mem d he))

/-- At least two members with the sign between them are a list. -/
theorem joined_of_members {sign : Char} (hsign : isSpace sign = false) {L : Language Descriptor}
    {join : List Descriptor → Descriptor} {ds : List Descriptor} (hl : 2 ≤ ds.length)
    (h : ∀ d ∈ ds, L d.memberChars d) (hf : Fits (join ds)) :
    Joined sign join L (joined sign ds) (join ds) := by
  match ds, hl with
  | d :: e :: es, _ =>
    rw [joined_cons]
    have hrest : ∀ x ∈ e :: es, L x.memberChars x := fun x hx => h x (List.mem_cons_of_mem d hx)
    exact .several (h d List.mem_cons_self) (further_flatMap hsign hrest) hf

/-! ## Heights -/

/-- No entry of a list is higher than the list. -/
theorem height_le_heightList {d : Descriptor} {ds : List Descriptor} (h : d ∈ ds) :
    d.height ≤ heightList ds := by
  induction ds with
  | nil => cases h
  | cons e es ih =>
    rw [heightList]
    rcases List.mem_cons.1 h with rfl | h
    · omega
    · have hle := ih h
      omega

theorem height_lt_union {d : Descriptor} {ds : List Descriptor} (h : d ∈ ds) :
    d.height < (Descriptor.union ds).height := by
  have hle := height_le_heightList h
  rw [Descriptor.height]
  omega

theorem height_lt_intersection {d : Descriptor} {ds : List Descriptor} (h : d ∈ ds) :
    d.height < (Descriptor.intersection ds).height := by
  have hle := height_le_heightList h
  rw [Descriptor.height]
  omega

/-! ## Reading back -/

theorem isWord_array : IsWord IsPlainStart ['a', 'r', 'r', 'a', 'y'] := by decide

/-- A written value is written as an iterable. -/
theorem Written.iterable {v : Descriptor} (h : Written v) (hf : Fits (.iterable v)) :
    Written (.iterable v) := by
  apply Written.of_primary
  intro n hn
  rw [Descriptor.height] at hn
  have hargument := h.union (n := n) (by omega)
  have harguments := Arguments.some (u := ['<']) (v := []) (x := ['>']) rfl hargument .nil rfl
  have hprimary := isWord_array.primary harguments (.iterable (by decide) hf)
  rw [chars]
  simpa only [List.append_assoc, List.nil_append, List.cons_append] using hprimary

/-- A written key and a written value are written as an iterable with keys. -/
theorem Written.keyed {k v : Descriptor} (hk : Written k) (hv : Written v)
    (hf : Fits (.keyed k v)) : Written (.keyed k v) := by
  apply Written.of_primary
  intro n hn
  rw [Descriptor.height] at hn
  have hkey := hk.union (n := n) (by omega)
  have hvalue := hv.union (n := n) (by omega)
  -- the space behind the comma belongs to the value
  have hspaced := spaced_union n (u := [' ']) rfl hvalue
  have hfurther : Further ',' _ ([','] ++ ([' '] ++ v.chars ++ [])) [v] := .cons rfl hspaced .nil
  have harguments := Arguments.some (u := ['<']) (x := ['>']) rfl hkey hfurther rfl
  have hprimary := isWord_array.primary harguments (.keyed (by decide) hf)
  rw [chars]
  simpa only [List.append_assoc, List.nil_append, List.cons_append, List.append_nil]
    using hprimary

/-- Written members are written as a union. -/
theorem written_union {ms : List Descriptor} (hl : 2 ≤ ms.length) (h : ∀ m ∈ ms, Written m)
    (hf : Fits (.union ms)) : Written (.union ms) := by
  refine ⟨?_, nofun⟩
  intro n hn
  rw [chars]
  refine joined_of_members (by decide) hl ?_ hf
  intro m hm
  exact .single (.of_primary ((h m hm).member (Nat.lt_of_lt_of_le (height_lt_union hm) hn)))

/-- Written members are written as an intersection. -/
theorem written_intersection {ms : List Descriptor} (hl : 2 ≤ ms.length)
    (h : ∀ m ∈ ms, Written m) (hf : Fits (.intersection ms)) : Written (.intersection ms) := by
  refine ⟨?_, nofun⟩
  intro n hn
  rw [chars]
  refine .single (joined_of_members (by decide) hl ?_ hf)
  intro m hm
  exact .of_primary ((h m hm).member (Nat.lt_of_lt_of_le (height_lt_intersection hm) hn))

/-- A word alone is written as what it stands for. -/
theorem written_word {d : Descriptor} (h : IsWord IsPlainStart d.chars)
    (hd : Denotes d.chars [] d) : Written d := by
  apply Written.of_primary
  intro n _
  have hprimary : Primary FirmPrimary (n + 1) (d.chars ++ []) d := h.primary .none hd
  rwa [List.append_nil] at hprimary

/-- The text of a well-formed descriptor stands for it. -/
theorem WellFormed.written {d : Descriptor} (h : WellFormed IsPlainStart d) (hf : Fits d) :
    Written d := by
  induction h with
  | @named t hb hn =>
    have hd : Denotes t.name.text.toList [] (.ofName (String.ofList t.name.text.toList)) :=
      .named hn.not_iterable hn.not_null hn.not_scalar
    -- a name has no separators in front, so that it is kept as it is
    have ht : Descriptor.ofName (String.ofList t.name.text.toList) = .named t := by
      rw [String.ofList_toList, Descriptor.ofName, TypeName.ofString_text, ← hb]
    rw [ht] at hd
    exact written_word (d := .named t) hn.toIsWord hd
  | union hl _ ih =>
    refine written_union hl ?_ hf
    intro m hm
    exact ih m hm (Nat.le_trans (Nat.le_of_lt (height_lt_union hm)) hf)
  | intersection hl _ ih =>
    refine written_intersection hl ?_ hf
    intro m hm
    exact ih m hm (Nat.le_trans (Nat.le_of_lt (height_lt_intersection hm)) hf)
  | iterable _ ih =>
    have hle : Fits _ := Nat.le_of_succ_le hf
    exact (ih hle).iterable hf
  | keyed _ _ ihk ihv =>
    have hle := Nat.le_of_succ_le hf
    exact (ihk (Nat.le_trans (Nat.le_max_left _ _) hle)).keyed
      (ihv (Nat.le_trans (Nat.le_max_right _ _) hle)) hf
  | null =>
    exact written_word (d := .null) (by decide) (.null (by decide))
  | @scalar name h =>
    have hd : Denotes name.toList [] (.scalar (String.ofList name.toList)) := .scalar h
    rw [String.ofList_toList] at hd
    exact written_word (d := .scalar name) (isWord_of_scalar h) hd

/-- A well-formed descriptor that is not too high has its printed text as an expression. -/
theorem WellFormed.expression {d : Descriptor} (h : WellFormed IsPlainStart d) (hf : Fits d) :
    Expression FirmPrimary d.chars d :=
  ⟨d.chars, [], (List.append_nil _).symm, rfl, (h.written hf).union hf⟩

/-- A well-formed descriptor that is not too high is read back from what is printed. -/
theorem parse_text {d : Descriptor} (h : WellFormed IsPlainStart d) (hf : d.height ≤ 256) :
    Descriptor.parse d.text = .ok d := by
  rw [parse_eq_ok_iff, Descriptor.text, String.toList_ofList]
  exact h.expression hf

/-- A union in an iterable in a union, beside an intersection, is one that is read back. -/
theorem parse_text_nested :
    Descriptor.parse "(A&B\\C)|array<Int, array<string>|null>" =
      .ok (.union [.intersection [.ofName "A", .ofName "B\\C"],
        .keyed (.scalar "Int") (.union [.iterable (.scalar "string"), .null])]) := by
  have hA : WellFormed IsPlainStart (.ofName "A") := .named rfl (by decide)
  have hC : WellFormed IsPlainStart (.ofName "B\\C") := .named rfl (by decide)
  have hboth : WellFormed IsPlainStart (.intersection [.ofName "A", .ofName "B\\C"]) :=
    .intersection (by decide)
      (List.forall_mem_cons.2 ⟨hA, List.forall_mem_cons.2 ⟨hC, List.forall_mem_nil _⟩⟩)
  have hvalue : WellFormed IsPlainStart (.union [.iterable (.scalar "string"), .null]) :=
    .union (by decide) (List.forall_mem_cons.2 ⟨.iterable (.scalar (by decide)),
      List.forall_mem_cons.2 ⟨.null, List.forall_mem_nil _⟩⟩)
  have hint : WellFormed IsPlainStart (.scalar "Int") := .scalar (by decide)
  have hkeyed := WellFormed.keyed hint hvalue
  exact parse_text (.union (by decide) (List.forall_mem_cons.2 ⟨hboth,
    List.forall_mem_cons.2 ⟨hkeyed, List.forall_mem_nil _⟩⟩)) (by decide)

end Eponym.TypeExpression
