/-
# What is written as JSON is read again

Data that needs nothing but texts, natural numbers, truth values and null, in containers that
are not too far inside one another, is written on one line and read again as it was.

* `readText_escape` : an escaped character is read as the character;
* `readNumber_toDigits` : so are the digits of a number;
* `readEntries_separated` : entries with commas between them are read one by one;
* `Sayable` : the data that JSON can say;
* `read_write` : it is read again from what is written.
-/
import Mathlib.Tactic.SplitIfs
import Eponym.Data.Json.Writer

namespace Eponym.Data.Json

/-! ## Texts -/

/-- The hexadecimal digits of a control character are read back. -/
theorem digitsValue_control : ∀ n < 32,
    digitsValue? 16 ['0', '0', hexDigit (n / 16), hexDigit (n % 16)] = some n := by decide

/-- A control character is read back from its number. -/
theorem readText_control (done : List Char) {c : Char} (hc : c < ' ') (r : List Char) :
    readText (some done) none ('\\' :: 'u' :: '0' :: '0' :: hexDigit (c.toNat / 16) ::
      hexDigit (c.toNat % 16) :: r) = readText (some (c :: done)) none r := by
  have hlt : c.toNat < 32 := hc
  have hhigh : isHighHalf c.toNat = false := by
    rw [isHighHalf, Bool.and_eq_false_iff, decide_eq_false_iff_not]
    exact .inl (by omega)
  have hlow : isLowHalf c.toNat = false := by
    rw [isLowHalf, Bool.and_eq_false_iff, decide_eq_false_iff_not]
    exact .inl (by omega)
  rw [readText.eq_5 _ _ _ _ _ _ _ (digitsValue_control c.toNat hlt), hhigh, hlow,
    Char.ofNat_toNat]
  rfl

/-- A character that stands for itself is read as it is. -/
theorem readText_verbatim (done : List Char) {c : Char} (hc : isVerbatim c = true)
    (r : List Char) : readText (some done) none (c :: r) = readText (some (c :: done)) none r := by
  simp only [isVerbatim, Bool.and_eq_true, decide_eq_true_eq] at hc
  obtain ⟨⟨hquote, hslash⟩, hspace⟩ := hc
  rw [readText.eq_7 _ _ _ _ hquote (fun _ _ _ _ _ h => absurd h hslash)
    (fun _ _ h => absurd h hslash), if_neg (Char.not_lt.2 hspace)]
  rfl

/-- An escaped character is read as the character. -/
theorem readText_escape (done : List Char) (c : Char) (r : List Char) :
    readText (some done) none (escape c ++ r) = readText (some (c :: done)) none r := by
  unfold escape
  split_ifs with hquote hslash hback hform hline hreturn htab hcontrol
  · rw [hquote]; rfl
  · rw [hslash]; rfl
  · rw [hback]; rfl
  · rw [hform]; rfl
  · rw [hline]; rfl
  · rw [hreturn]; rfl
  · rw [htab]; rfl
  · exact readText_control done hcontrol r
  · refine readText_verbatim done ?_ r
    simpa [isVerbatim, hquote, hslash] using Char.not_lt.1 hcontrol

/-- A text in quotes is read back. -/
theorem readText_quoted (s r : List Char) : ∀ done,
    readText (some done) none (s.flatMap escape ++ '"' :: r) =
      some (some (done.reverse ++ s), r) := by
  induction s with
  | nil =>
    intro done
    rw [List.append_nil]
    rfl
  | cons c s ih =>
    intro done
    rw [List.flatMap_cons, List.append_assoc, readText_escape, ih, List.reverse_cons,
      List.append_assoc, List.singleton_append]

/-! ## Numbers -/

/-- All digits of a number that fits a machine word are kept. -/
theorem takeDigits_eq (s : List Char) : ∀ n, Nat.ofDigitChars 10 s n < wordLimit →
    takeDigits n s = (Nat.ofDigitChars 10 s n, 0) := by
  induction s with
  | nil => exact fun _ _ => rfl
  | cons c s ih =>
    intro n h
    rw [Nat.ofDigitChars_cons, Nat.mul_comm] at *
    -- further digits only make the number larger
    have hle : n * 10 + (c.toNat - '0'.toNat) < wordLimit := by
      refine Nat.lt_of_le_of_lt ?_ h
      rw [Nat.ofDigitChars_eq_ofDigitChars_zero]
      have hpos : 0 < 10 ^ s.length := Nat.pow_pos (by decide)
      exact Nat.le_add_right_of_le (Nat.le_mul_of_pos_left _ hpos)
    rw [takeDigits]
    simp only [if_pos hle]
    exact ih _ h

/-- A number that is not zero does not start with a zero. -/
theorem head_toDigits {n : Nat} (hn : n ≠ 0) : (Nat.toDigits 10 n).head? ≠ some '0' := by
  induction n using Nat.strongRecOn with
  | ind n ih =>
    rcases Nat.lt_or_ge n 10 with h | h
    · rw [Nat.toDigits_of_lt_base h]
      have hall : ∀ k < 10, k ≠ 0 → [Nat.digitChar k].head? ≠ some '0' := by decide
      exact hall n h hn
    · rw [Nat.toDigits_of_base_le (by decide) h]
      have hrest := ih (n / 10) (by omega) (by omega)
      cases hd : Nat.toDigits 10 (n / 10) with
      | nil => exact absurd hd Nat.toDigits_ne_nil
      | cons c s =>
        rw [hd] at hrest
        exact hrest

/-- A number has a first digit, which is no needless zero. -/
theorem toDigits_eq_cons (n : Nat) :
    ∃ c s, Nat.toDigits 10 n = c :: s ∧ c.isDigit = true ∧ (n ≠ 0 → c ≠ '0') := by
  cases hd : Nat.toDigits 10 n with
  | nil => exact absurd hd Nat.toDigits_ne_nil
  | cons c s =>
    have hc : c ∈ Nat.toDigits 10 n := hd ▸ List.mem_cons_self
    refine ⟨c, s, rfl, Nat.isDigit_of_mem_toDigits (by decide) (by decide) hc, ?_⟩
    rintro hn rfl
    exact head_toDigits hn (congrArg List.head? hd)

theorem ne_of_isDigit {c d : Char} (hc : c.isDigit = true) (hd : d.isDigit = false) : c ≠ d := by
  rintro rfl
  rw [hc] at hd
  exact absurd hd (by decide)

theorem isSpace_of_isDigit {c : Char} (hc : c.isDigit = true) : isSpace c = false := by
  have hne : ∀ d : Char, d.isDigit = false → (decide (c = d)) = false := fun d hd =>
    decide_eq_false (ne_of_isDigit hc hd)
  rw [isSpace, hne ' ' (by decide), hne '\t' (by decide), hne '\n' (by decide),
    hne '\r' (by decide)]
  rfl

/-- What may follow a value: the end, a comma or a closing sign. -/
def Closes (r : List Char) : Prop := r.head? ∈ [none, some ',', some ']', some '\x7d']

theorem closes_cons {c : Char} (hc : c = ',' ∨ c = ']' ∨ c = '\x7d') (r : List Char) :
    Closes (c :: r) := by
  show some c ∈ _
  rcases hc with rfl | rfl | rfl <;> decide

/-- What follows a value does not go on a number. -/
theorem Closes.not_number {r : List Char} (hr : Closes r) :
    (∀ c ∈ r.head?, c.isDigit = false) ∧ readFraction r = some ([], r) ∧
      readExponent r = some ([], r) := by
  cases r with
  | nil => exact ⟨nofun, rfl, rfl⟩
  | cons c r =>
    have hc : c = ',' ∨ c = ']' ∨ c = '\x7d' := by
      simpa [Closes] using hr
    refine ⟨?_, ?_, ?_⟩
    · rintro _ ⟨rfl⟩
      rcases hc with rfl | rfl | rfl <;> decide
    · rcases hc with rfl | rfl | rfl <;> rfl
    · rcases hc with rfl | rfl | rfl <;> rfl

/-- The digits of a number are read as a whole. -/
theorem readWhole_toDigits (n : Nat) {r : List Char} (hr : ∀ c ∈ r.head?, c.isDigit = false) :
    readWhole (Nat.toDigits 10 n ++ r) = some (Nat.toDigits 10 n, r) := by
  obtain ⟨c, s, hd, -, hzero⟩ := toDigits_eq_cons n
  -- a zero is read as a whole, so it has to be the only one
  by_cases hn : n = 0
  · rw [hn, Nat.toDigits_zero]
    rfl
  · have hdigits : ∀ c ∈ Nat.toDigits 10 n, c.isDigit = true := fun c hc =>
      Nat.isDigit_of_mem_toDigits (by decide) (by decide) hc
    have hstop : r.takeWhile Char.isDigit = [] ∧ r.dropWhile Char.isDigit = r := by
      cases r with
      | nil => exact ⟨rfl, rfl⟩
      | cons c r =>
        have hc : ¬ c.isDigit = true := by
          rw [hr c rfl]
          exact Bool.false_ne_true
        exact ⟨List.takeWhile_cons_of_neg hc, List.dropWhile_cons_of_neg hc⟩
    have hwhole : readWhole (Nat.toDigits 10 n ++ r) = readDigits (Nat.toDigits 10 n ++ r) := by
      rw [readWhole]
      rintro t h
      rw [hd] at h
      exact hzero hn (List.cons.inj h).1
    rw [hwhole, readDigits, List.takeWhile_append_of_pos hdigits,
      List.dropWhile_append_of_pos hdigits, hstop.1, hstop.2, List.append_nil, hd]

/-- The digits of a number that fits a machine word are read as the number. -/
theorem readNumber_toDigits {n : Nat} (hn : n < wordLimit) {r : List Char} (hr : Closes r) :
    readNumber (Nat.toDigits 10 n ++ r) = some (.natural n, r) := by
  obtain ⟨hdigit, hfraction, hexponent⟩ := hr.not_number
  have hwhole := readWhole_toDigits n hdigit
  have hkept : takeDigits 0 (Nat.toDigits 10 n) = (n, 0) := by
    have h := takeDigits_eq (Nat.toDigits 10 n) 0
    rw [Nat.ofDigitChars_ten_toDigits] at h
    exact h hn
  have hsignificand : significand (Nat.toDigits 10 n) [] = (n, 0) := by
    rw [significand, hkept]
    rfl
  unfold readNumber
  split
  next sign t hs =>
    -- the first digit is no minus sign
    obtain ⟨rfl, rfl⟩ : sign = [] ∧ t = Nat.toDigits 10 n ++ r := by
      obtain ⟨c, s, hd, hc, -⟩ := toDigits_eq_cons n
      split at hs
      next heq =>
        rw [hd] at heq
        rw [(List.cons.inj heq).1] at hc
        exact absurd hc (by decide)
      next => exact ⟨(Prod.mk.inj hs).1.symm, (Prod.mk.inj hs).2.symm⟩
    simp [hwhole, hfraction, hexponent, hsignificand]

/-! ## Entries -/

theorem skipSpace_cons {c : Char} (hc : isSpace c = false) (s : List Char) :
    skipSpace (c :: s) = c :: s := by
  rw [skipSpace, List.dropWhile_cons_of_neg]
  rw [hc]
  exact Bool.false_ne_true

section Entries

variable {α : Type} {close : Char} {entry : List Char → Option (α × List Char)}

/-- A text is read as an entry in front of a comma or the closing sign. -/
def IsEntry (close : Char) (entry : List Char → Option (α × List Char)) (p : List Char × α) :
    Prop :=
  ∀ c r, c = ',' ∨ c = close → entry (p.1 ++ c :: r) = some (p.2, c :: r)

/-- The texts of entries, with a comma in front of each. -/
def afterCommas (ps : List (List Char × α)) : List Char := ps.flatMap fun p => ',' :: p.1

/-- Entries with commas between them are read one by one. -/
theorem readEntries_separated (hclose : close ≠ ',') (hspace : isSpace close = false)
    {ps : List (List Char × α)} (r : List Char) :
    ∀ {p : List Char × α} {n : Nat}, (∀ q ∈ p :: ps, IsEntry close entry q) → ps.length < n →
      readEntries close entry n (p.1 ++ (afterCommas ps ++ close :: r)) =
        some (p.2 :: ps.map Prod.snd, r) := by
  induction ps with
  | nil =>
    intro p n h hn
    obtain ⟨n, rfl⟩ := Nat.exists_eq_add_one_of_ne_zero (show n ≠ 0 by omega)
    have hp := h p List.mem_cons_self close r (.inr rfl)
    rw [readEntries, afterCommas, List.flatMap_nil, List.nil_append, hp]
    simp [skipSpace_cons hspace]
  | cons q ps ih =>
    intro p n h hn
    obtain ⟨n, rfl⟩ := Nat.exists_eq_add_one_of_ne_zero (show n ≠ 0 by omega)
    obtain ⟨hp, hrest⟩ := List.forall_mem_cons.1 h
    have hq := ih hrest (n := n) (Nat.lt_of_succ_lt_succ hn)
    have hcomma : afterCommas (q :: ps) ++ close :: r =
        ',' :: (q.1 ++ (afterCommas ps ++ close :: r)) := by
      rw [afterCommas, List.flatMap_cons, List.append_assoc]
      rfl
    rw [readEntries, hcomma, hp ',' _ (.inl rfl)]
    simp [skipSpace_cons (show isSpace ',' = false by decide), hclose.symm, hq]

/-- The texts of entries, with a comma between them. -/
def separated : List (List Char × α) → List Char
  | [] => []
  | p :: ps => p.1 ++ afterCommas ps

/-- The entries of a container are read up to the closing sign, if none starts with it. -/
theorem readInside_separated (hclose : close ≠ ',') (hspace : isSpace close = false)
    {ps : List (List Char × α)} (h : ∀ p ∈ ps, IsEntry close entry p)
    (hhead : ∀ p ∈ ps, ∃ c s, p.1 = c :: s ∧ isSpace c = false ∧ c ≠ close) (r : List Char)
    {n : Nat} (hn : ps.length ≤ n) :
    readInside close entry n (separated ps ++ close :: r) = some (ps.map Prod.snd, r) := by
  cases ps with
  | nil =>
    rw [separated, readInside, List.nil_append, skipSpace_cons hspace]
    simp
  | cons p ps =>
    obtain ⟨c, s, hp, hc, hne⟩ := hhead p List.mem_cons_self
    have hread := readEntries_separated hclose hspace r h hn
    rw [separated, List.append_assoc]
    rw [hp] at *
    rw [readInside, List.cons_append, skipSpace_cons hc]
    simp only [if_neg hne]
    exact hread

/-- An entry is not as long as all of them with their commas, and they are no more. -/
theorem length_afterCommas (ps : List (List Char × α)) :
    (∀ p ∈ ps, p.1.length < (afterCommas ps).length) ∧
      ps.length ≤ (afterCommas ps).length := by
  induction ps with
  | nil => exact ⟨List.forall_mem_nil _, Nat.le_refl 0⟩
  | cons p ps ih =>
    have hlength : (afterCommas (p :: ps)).length = p.1.length + 1 + (afterCommas ps).length := by
      rw [afterCommas, List.flatMap_cons, List.length_append, List.length_cons]
      rfl
    rw [hlength]
    refine ⟨List.forall_mem_cons.2 ⟨by omega, fun q hq => ?_⟩, ?_⟩
    · have hle := ih.1 q hq
      omega
    · have hle := ih.2
      rw [List.length_cons]
      omega

/-- An entry is no longer than all of them, and there is one more of them than commas. -/
theorem length_separated (ps : List (List Char × α)) :
    (∀ p ∈ ps, p.1.length ≤ (separated ps).length) ∧
      ps.length ≤ (separated ps).length + 1 := by
  cases ps with
  | nil => exact ⟨List.forall_mem_nil _, Nat.zero_le _⟩
  | cons p ps =>
    obtain ⟨hall, hcount⟩ := length_afterCommas ps
    rw [separated, List.length_append]
    refine ⟨List.forall_mem_cons.2 ⟨by omega, fun q hq => ?_⟩, ?_⟩
    · have hlt := hall q hq
      omega
    · rw [List.length_cons]
      omega

/-- Texts are written with commas between them. -/
theorem intercalate_eq_separated (ps : List (List Char × α)) :
    List.intercalate [','] (ps.map Prod.fst) = separated ps := by
  cases ps with
  | nil => rfl
  | cons p ps =>
    rw [separated]
    induction ps generalizing p with
    | nil => simp [afterCommas, List.intercalate]
    | cons q ps ih =>
      have hq := ih q
      rw [List.map_cons] at hq
      simp only [List.intercalate, List.map_cons, List.intersperse_cons_cons,
        List.flatten_cons] at *
      rw [hq, afterCommas, afterCommas, List.flatMap_cons]
      rfl

end Entries

/-! ## Values -/

/-- The data that JSON can say, with at most so many containers inside one another: texts,
natural numbers that fit a machine word, truth values and null. -/
inductive Sayable : Nat → Value → Prop
  | null {l : Nat} : Sayable l .null
  | bool {l : Nat} (b : Bool) : Sayable l (.bool b)
  | natural {l n : Nat} (hn : n < wordLimit) : Sayable l (.natural n)
  | text {l : Nat} (s : String) : Sayable l (.text s)
  | list {l : Nat} {vs : List Value} (hvs : ∀ v ∈ vs, Sayable l v) : Sayable (l + 1) (.list vs)
  | object {l : Nat} {es : List (String × Value)} (hes : ∀ e ∈ es, Sayable l e.2) :
      Sayable (l + 1) (.object es)

/-- The characters of the data on one line. -/
def writeChars (v : Value) : List Char := (write v).toList

/-- An item of a list, and what it is read as. -/
def itemPart (v : Value) : List Char × Value := (writeChars v, v)

/-- An entry of an object, and what it is read as. -/
def entryPart (e : String × Value) : List Char × (Value × Value) :=
  ('"' :: (e.1.toList.flatMap escape ++ '"' :: ':' :: writeChars e.2), (.text e.1, e.2))

theorem writeChars_natural (n : Nat) : writeChars (.natural n) = Nat.toDigits 10 n :=
  Nat.toList_repr

theorem writeChars_text (s : String) :
    writeChars (.text s) = '"' :: (s.toList.flatMap escape ++ ['"']) :=
  String.toList_ofList

theorem writeItems_eq (vs : List Value) : writeItems vs = vs.map write := by
  induction vs with
  | nil => rfl
  | cons v vs ih => rw [writeItems, ih, List.map_cons]

theorem writeEntries_eq (es : List (String × Value)) :
    writeEntries es = es.map fun e => quote e.1 ++ ":" ++ write e.2 := by
  induction es with
  | nil => rfl
  | cons e es ih => rw [writeEntries, ih, List.map_cons]

theorem writeChars_list (vs : List Value) :
    writeChars (.list vs) = '[' :: (separated (vs.map itemPart) ++ [']']) := by
  rw [← intercalate_eq_separated]
  simp [writeChars, write, enclosed, writeItems_eq, itemPart, Function.comp_def]

theorem writeChars_object (es : List (String × Value)) :
    writeChars (.object es) = '\x7b' :: (separated (es.map entryPart) ++ ['\x7d']) := by
  rw [← intercalate_eq_separated]
  simp [writeChars, write, enclosed, writeEntries_eq, entryPart, quote, Function.comp_def]

/-- What is written starts neither with white space nor with a closing sign. -/
theorem Sayable.writeChars_eq_cons {l : Nat} {v : Value} (h : Sayable l v) :
    ∃ c s, writeChars v = c :: s ∧ isSpace c = false ∧ c ≠ ']' := by
  cases h with
  | null => exact ⟨'n', ['u', 'l', 'l'], rfl, by decide, by decide⟩
  | bool b =>
    cases b with
    | false => exact ⟨'f', ['a', 'l', 's', 'e'], rfl, by decide, by decide⟩
    | true => exact ⟨'t', ['r', 'u', 'e'], rfl, by decide, by decide⟩
  | @natural _ n hn =>
    obtain ⟨c, s, hd, hc, -⟩ := toDigits_eq_cons n
    exact ⟨c, s, (writeChars_natural n).trans hd, isSpace_of_isDigit hc,
      ne_of_isDigit hc (by decide)⟩
  | text s =>
    rw [writeChars_text]
    exact ⟨_, _, rfl, by decide, by decide⟩
  | list =>
    rw [writeChars_list]
    exact ⟨_, _, rfl, by decide, by decide⟩
  | object =>
    rw [writeChars_object]
    exact ⟨_, _, rfl, by decide, by decide⟩

/-- What starts with neither white space nor an opening sign is read as a scalar. -/
theorem readValue_scalar {c : Char} (hspace : isSpace c = false) (hlist : c ≠ '[')
    (hobject : c ≠ '\x7b') (n l : Nat) (s : List Char) :
    readValue (n + 1) l (c :: s) = readScalar (c :: s) := by
  rw [readValue, skipSpace_cons hspace]
  split
  next h => exact absurd (List.cons.inj h).1 hlist
  next h => exact absurd (List.cons.inj h).1 hobject
  next => rfl

/-- A digit starts a number. -/
theorem readScalar_digit {c : Char} (hc : c.isDigit = true) (s : List Char) :
    readScalar (c :: s) = readNumber (c :: s) := by
  unfold readScalar
  split
  next h => exact absurd (List.cons.inj h).1 (ne_of_isDigit hc (by decide))
  next h => exact absurd (List.cons.inj h).1 (ne_of_isDigit hc (by decide))
  next h => exact absurd (List.cons.inj h).1 (ne_of_isDigit hc (by decide))
  next h => exact absurd (List.cons.inj h).1 (ne_of_isDigit hc (by decide))
  next => rfl

/-- A number is read again. -/
theorem readValue_natural {k : Nat} (hk : k < wordLimit) (n l : Nat) {r : List Char}
    (hr : Closes r) :
    readValue (n + 1) l (writeChars (.natural k) ++ r) = some (.natural k, r) := by
  obtain ⟨c, s, hd, hc, -⟩ := toDigits_eq_cons k
  have hread := readNumber_toDigits hk hr
  rw [writeChars_natural]
  rw [hd, List.cons_append] at *
  rw [readValue_scalar (isSpace_of_isDigit hc) (ne_of_isDigit hc (by decide))
    (ne_of_isDigit hc (by decide)), readScalar_digit hc, hread]

/-- A text is read again. -/
theorem readValue_text (s : String) (n l : Nat) (r : List Char) :
    readValue (n + 1) l (writeChars (.text s) ++ r) = some (.text s, r) := by
  rw [writeChars_text, List.cons_append, readValue_scalar (by decide) (by decide) (by decide)]
  show (readText (some []) none (s.toList.flatMap escape ++ ['"'] ++ r)).map _ = _
  rw [List.append_assoc, List.singleton_append, readText_quoted]
  show some (Value.text (String.ofList s.toList), r) = _
  rw [String.ofList_toList]

/-- Written, the value is read again in front of what may follow a value. -/
def ReadsAgain (n l : Nat) (v : Value) : Prop :=
  ∀ ⦃r : List Char⦄, Closes r → readValue n l (writeChars v ++ r) = some (v, r)

/-- A value that is read again is read as an item of a list. -/
theorem ReadsAgain.item {n l : Nat} {v : Value} (h : ReadsAgain n l v) :
    IsEntry ']' (readValue n l) (itemPart v) :=
  fun _ r hc => h (closes_cons (hc.imp_right .inl) r)

/-- A value that is read again is read as part of an entry of an object. -/
theorem ReadsAgain.entry {n l : Nat} {e : String × Value} (h : ReadsAgain n l e.2) :
    IsEntry '\x7d' (readPair (readValue n l)) (entryPart e) := by
  intro c r hc
  have hvalue := h (closes_cons (hc.imp_right .inr) r)
  have hcolon := skipSpace_cons (show isSpace ':' = false by decide) (writeChars e.2 ++ c :: r)
  unfold readPair entryPart
  rw [List.cons_append, skipSpace_cons (by decide)]
  simp only [List.append_assoc, List.cons_append, readText_quoted]
  simp [hcolon, hvalue, textValue]

/-- A list is read again if its items are. -/
theorem readsAgain_list {n l : Nat} {vs : List Value} (hn : vs.length ≤ n)
    (hvs : ∀ v ∈ vs, Sayable l v) (h : ∀ v ∈ vs, ReadsAgain n l v) :
    ReadsAgain (n + 1) (l + 1) (.list vs) := by
  intro r _
  have hitems : ∀ p ∈ vs.map itemPart, IsEntry ']' (readValue n l) p :=
    List.forall_mem_map.2 fun v hv => (h v hv).item
  have hheads : ∀ p ∈ vs.map itemPart, ∃ c s, p.1 = c :: s ∧ isSpace c = false ∧ c ≠ ']' :=
    List.forall_mem_map.2 fun v hv => (hvs v hv).writeChars_eq_cons
  have hinside := readInside_separated (n := n) (by decide) (by decide) hitems hheads r
    (by rwa [List.length_map])
  have hvalues : (vs.map itemPart).map Prod.snd = vs := by
    rw [List.map_map]
    exact List.map_id vs
  rw [hvalues] at hinside
  rw [writeChars_list]
  show (readInside ']' (readValue n l) n (separated (vs.map itemPart) ++ [']'] ++ r)).map _ = _
  rw [List.append_assoc, List.singleton_append, hinside]
  rfl

/-- An object is read again if the values of its entries are. -/
theorem readsAgain_object {n l : Nat} {es : List (String × Value)} (hn : es.length ≤ n)
    (h : ∀ e ∈ es, ReadsAgain n l e.2) : ReadsAgain (n + 1) (l + 1) (.object es) := by
  intro r _
  have hentries : ∀ p ∈ es.map entryPart, IsEntry '\x7d' (readPair (readValue n l)) p :=
    List.forall_mem_map.2 fun e he => (h e he).entry
  have hheads : ∀ p ∈ es.map entryPart, ∃ c s, p.1 = c :: s ∧ isSpace c = false ∧ c ≠ '\x7d' :=
    List.forall_mem_map.2 fun _ _ => ⟨'"', _, rfl, by decide, by decide⟩
  have hinside := readInside_separated (n := n) (by decide) (by decide) hentries hheads r
    (by rwa [List.length_map])
  have hvalues : (es.map entryPart).map Prod.snd = es.map fun e => (.text e.1, e.2) := by
    rw [List.map_map]
    rfl
  rw [hvalues] at hinside
  rw [writeChars_object]
  show (readInside '\x7d' (readPair (readValue n l)) n
    (separated (es.map entryPart) ++ ['\x7d'] ++ r)).map _ = _
  rw [List.append_assoc, List.singleton_append, hinside]
  show some (Value.ofEntries (es.map fun e => (.text e.1, e.2)), r) = _
  rw [Value.ofEntries_text]

/-- A list takes more room than each of its items, and at least as much as it has items. -/
theorem length_writeChars_list (vs : List Value) :
    (∀ v ∈ vs, (writeChars v).length < (writeChars (.list vs)).length) ∧
      vs.length < (writeChars (.list vs)).length := by
  obtain ⟨hall, hcount⟩ := length_separated (vs.map itemPart)
  rw [writeChars_list, List.length_cons, List.length_append, List.length_singleton]
  rw [List.length_map] at hcount
  refine ⟨fun v hv => ?_, by omega⟩
  have hle : (writeChars v).length ≤ _ := hall (itemPart v) (List.mem_map_of_mem hv)
  omega

/-- An object takes more room than each value in it, and at least as much as it has entries. -/
theorem length_writeChars_object (es : List (String × Value)) :
    (∀ e ∈ es, (writeChars e.2).length < (writeChars (.object es)).length) ∧
      es.length < (writeChars (.object es)).length := by
  obtain ⟨hall, hcount⟩ := length_separated (es.map entryPart)
  rw [writeChars_object, List.length_cons, List.length_append, List.length_singleton]
  rw [List.length_map] at hcount
  refine ⟨fun e he => ?_, by omega⟩
  have hle := hall (entryPart e) (List.mem_map_of_mem he)
  simp only [entryPart, List.length_cons, List.length_append] at hle
  omega

/-- Written data is read again if there is as much fuel as it takes room. -/
theorem Sayable.readsAgain {l : Nat} {v : Value} (h : Sayable l v) :
    ∀ {n : Nat}, (writeChars v).length ≤ n → ReadsAgain (n + 1) l v := by
  induction h with
  | null => exact fun _ _ _ => rfl
  | bool b =>
    intro n _ r _
    cases b <;> rfl
  | natural hk => exact fun {n} _ _ hr => readValue_natural hk n _ hr
  | text s => exact fun {n} _ r _ => readValue_text s n _ r
  | @list l vs hvs ih =>
    intro n hn
    obtain ⟨hall, hcount⟩ := length_writeChars_list vs
    refine readsAgain_list (by omega) hvs fun v hv => ?_
    -- the sign in front of the items leaves one step for each of them
    have hlt := hall v hv
    obtain ⟨m, rfl⟩ := Nat.exists_eq_add_one_of_ne_zero (show n ≠ 0 by omega)
    have hle : (writeChars v).length ≤ m := by omega
    exact ih v hv hle
  | @object l es hes ih =>
    intro n hn
    obtain ⟨hall, hcount⟩ := length_writeChars_object es
    refine readsAgain_object (by omega) fun e he => ?_
    have hlt := hall e he
    obtain ⟨m, rfl⟩ := Nat.exists_eq_add_one_of_ne_zero (show n ≠ 0 by omega)
    have hle : (writeChars e.2).length ≤ m := by omega
    exact ih e he hle

/-- Data that JSON can say is read again from what is written. -/
theorem read_write {v : Value} (h : Sayable levelLimit v) : read (write v) = some v := by
  have hread := h.readsAgain (Nat.le_refl _) (show Closes [] from List.mem_cons_self)
  rw [List.append_nil] at hread
  unfold read readWithin
  rw [← String.length_toList]
  exact Option.bind_eq_some_iff.2 ⟨_, hread, rfl⟩

end Eponym.Data.Json
