/-
# Reading with a cursor

The reader with a cursor does step by step what the one on characters does: their answers are the
same, and where the cursor stands the text is left that the other answer tells.  So the cursor
never stands inside a character, as it only moves past ASCII characters, and no loop is gone round
too often, as it moves past a sign in each round.

* `Agrees`, `AgreesOn` : answers of the two readers to the same question, and the readers;
* `agrees_readBrackets`, `agrees_readFurther` : the loops agree, round by round;
* `agrees_readUnion`, `agrees_readPrimary` : the readers agree, level by level;
* `parse_within_input` : a fault lies behind ASCII characters, within the text.
-/
import Eponym.Proofs.TypeExpression.Cursor

namespace Eponym

namespace TypeExpression

open Text

/-! ## Agreement -/

/-- Answers agree if they are the same and the cursor stands, no further in front than at the
place given, where the text is left that the other answer tells. -/
inductive Agrees (input : List Char) (i : Nat) {α : Type} :
    Except Failure (Partway α) → Except Stop (Reached α) → Prop
  | ok {a : α} {rest : List Char} {j : Nat} (hle : i ≤ j) (hat : At input rest j) :
      Agrees input i (.ok (a, rest)) (.ok (a, j))
  | error {f : Failure} {j : Nat} (hat : At input f.rest j) :
      Agrees input i (.error f) (.error (.fault f.fault.message j))

/-- Readers agree if they do on every text that may be left. -/
def AgreesOn (input : List Char) {α : Type} (read : List Char → Except Failure (Partway α))
    (readAt : Nat → Except Stop (Reached α)) : Prop :=
  ∀ {s i}, At input s i → Agrees input i (read s) (readAt i)

/-! ## Steps -/

section Agreement

variable {input s : List Char} {i j m n : Nat} {sign : Char} {α β : Type}

/-- Answers agree from any earlier place as well. -/
theorem Agrees.mono {x : Except Failure (Partway α)} {y : Except Stop (Reached α)}
    (h : Agrees input j x y) (hle : i ≤ j) : Agrees input i x y := by
  cases h with
  | ok hle' hat => exact .ok (hle.trans hle') hat
  | error hat => exact .error hat

/-- Two steps agree if the first ones do and the second ones do from where those lead. -/
theorem Agrees.bind {x : Except Failure (Partway α)} {y : Except Stop (Reached α)}
    {f : Partway α → Except Failure (Partway β)} {g : Reached α → Except Stop (Reached β)}
    (h : Agrees input i x y)
    (hfg : ∀ {a r j}, i ≤ j → At input r j → Agrees input j (f (a, r)) (g (a, j))) :
    Agrees input i (x >>= f) (y >>= g) := by
  cases h with
  | ok hle hat => exact (hfg hle hat).mono hle
  | error hat => exact .error hat

/-- Where another sign comes next the expected one is missing. -/
theorem expect_of_next_ne (hs : next s ≠ some sign) :
    expect sign s = .error ⟨.expected sign, skipSpace s⟩ := by
  rw [expect]
  cases h : skipSpace s with
  | nil => rfl
  | cons c r =>
    have hc : c ≠ sign := by
      rintro rfl
      exact hs (by rw [next, h, List.head?_cons])
    simp only [if_neg hc]

/-- The readers agree on a sign that has to follow. -/
theorem agrees_expect (hsign : sign.toNat < 128) (h : At input s i)
    {f : List Char → Except Failure (Partway α)} {g : Nat → Except Stop (Reached α)}
    (hfg : ∀ {r j}, i ≤ j → At input r j → Agrees input j (f r) (g j)) :
    Agrees input i (expect sign s >>= f) (expectAt (String.ofList input) sign i >>= g) := by
  rw [expectAt]
  by_cases hs : next s = some sign
  · obtain ⟨r, hr, hat⟩ := h.exists_behind hsign hs
    have hle : i ≤ skipAt (String.ofList input) i + 1 := (le_skipAt _ i).trans (Nat.le_succ _)
    rw [expect_eq_ok_iff.2 hr, if_pos ((h.peekAt_eq_some_iff hsign).2 hs)]
    exact (hfg hle hat).mono hle
  · rw [expect_of_next_ne hs, if_neg (mt (h.peekAt_eq_some_iff hsign).1 hs)]
    exact .error h.skip

theorem agrees_build (d : Descriptor) (h : At input s i) :
    Agrees input i (build d s) (buildAt d i) := by
  rw [build, buildAt]
  split
  · exact .ok le_rfl h
  · exact .error h

theorem agrees_combine (join : List Descriptor → Descriptor) (ds : List Descriptor)
    (h : At input s i) : Agrees input i (combine join ds s) (combineAt join ds i) := by
  match ds with
  | [] => exact agrees_build (join []) h
  | [d] => exact .ok le_rfl h
  | d :: e :: ds => exact agrees_build (join (d :: e :: ds)) h

/-- The readers agree on what a name with arguments stands for, if they do on where it starts. -/
theorem agrees_interpret {start : List Char} (name : List Char) (arguments : List Descriptor)
    (hstart : At input start i) (h : At input s j) :
    Agrees input j (interpret name arguments start s) (interpretAt name arguments i j) := by
  unfold interpret interpretAt
  by_cases hiterable : iterableKeywords.contains (String.ofList (name.map Char.toLower)) = true
  · rw [if_pos hiterable, if_pos hiterable]
    match arguments with
    | [] => exact agrees_build _ h
    | [value] => exact agrees_build _ h
    | [key, value] => exact agrees_build _ h
    | _ :: _ :: _ :: _ => exact .error hstart
  · rw [if_neg hiterable, if_neg hiterable]
    split
    · exact .ok le_rfl h
    split
    · exact .ok le_rfl h
    · exact .ok le_rfl h

/-! ## Loops -/

/-- A round is left as long as there are more rounds than bytes behind the cursor. -/
theorem At.exists_round (h : At input s i) (hn : byteLength input < i + n) : ∃ k, n = k + 1 := by
  have hsize := h.le_size
  exact Nat.exists_eq_succ_of_ne_zero (by omega)

theorem At.next_ne (h : At input s i) (hm : input.length ≤ i) : next s ≠ some sign := by
  have hlength := h.length_eq
  obtain rfl : s = [] := List.length_eq_zero_iff.1 (by omega)
  exact nofun

/-- The readers agree that there are no brackets where none comes next. -/
theorem agrees_readBrackets_of_next_ne (d : Descriptor) (h : At input s i)
    (hn : byteLength input < i + n) (hs : next s ≠ some '[') :
    Agrees input i (readBrackets m d s) (readBracketsAt (String.ofList input) n d i) := by
  obtain ⟨n, rfl⟩ := h.exists_round hn
  rw [readBrackets_of_next_ne hs, readBracketsAt,
    if_neg (mt (h.peekAt_eq_some_iff (by decide)).1 hs)]
  exact .ok (le_skipAt _ i) h.skip

/-- The readers agree on the pairs of brackets after a descriptor.  Each round moves past a sign,
so there are fewer rounds than bytes. -/
theorem agrees_readBrackets (d : Descriptor) (h : At input s i) (hm : input.length ≤ i + m)
    (hn : byteLength input < i + n) :
    Agrees input i (readBrackets m d s) (readBracketsAt (String.ofList input) n d i) := by
  induction m generalizing d s i n with
  | zero => exact agrees_readBrackets_of_next_ne d h hn (h.next_ne hm)
  | succ m ih =>
    by_cases hs : next s = some '['
    · obtain ⟨n, rfl⟩ := h.exists_round hn
      obtain ⟨r, hr, hat⟩ := h.exists_behind (by decide) hs
      have hle := le_skipAt (String.ofList input) i
      rw [readBrackets, hr, readBracketsAt, if_pos ((h.peekAt_eq_some_iff (by decide)).2 hs)]
      simp only [if_true]
      refine (agrees_expect (by decide) hat fun {r j} hj hat => ?_).mono (by omega)
      refine (agrees_build (.iterable d) hat).bind fun {d r k} hk hat => ?_
      exact ih d hat (by omega) (by omega)
    · exact agrees_readBrackets_of_next_ne d h hn hs

section Lists

variable {item : Reader} {itemAt : CursorReader}

/-- The readers agree that a list ends where the sign does not come next. -/
theorem agrees_readFurther_of_next_ne (hsign : sign.toNat < 128) (h : At input s i)
    (hn : byteLength input < i + n) (hs : next s ≠ some sign) :
    Agrees input i (readFurther sign item m s)
      (readFurtherAt (String.ofList input) sign itemAt n i) := by
  obtain ⟨n, rfl⟩ := h.exists_round hn
  rw [readFurther_of_next_ne hs, readFurtherAt, if_neg (mt (h.peekAt_eq_some_iff hsign).1 hs)]
  exact .ok (le_skipAt _ i) h.skip

/-- The readers agree on the further entries of a list.  Each round moves past a sign, so there
are fewer rounds than bytes. -/
theorem agrees_readFurther (hsign : sign.toNat < 128) (hitem : AgreesOn input item itemAt)
    (h : At input s i) (hm : input.length ≤ i + m) (hn : byteLength input < i + n) :
    Agrees input i (readFurther sign item m s)
      (readFurtherAt (String.ofList input) sign itemAt n i) := by
  induction m generalizing s i n with
  | zero => exact agrees_readFurther_of_next_ne hsign h hn (h.next_ne hm)
  | succ m ih =>
    by_cases hs : next s = some sign
    · obtain ⟨n, rfl⟩ := h.exists_round hn
      obtain ⟨r, hr, hat⟩ := h.exists_behind hsign hs
      have hle := le_skipAt (String.ofList input) i
      rw [readFurther, hr, readFurtherAt, if_pos ((h.peekAt_eq_some_iff hsign).2 hs)]
      simp only [if_true]
      refine ((hitem hat).bind fun {d r j} hj hat => ?_).mono (by omega)
      refine (ih hat (by omega) (by omega)).bind fun {ds r k} hk hat => ?_
      exact .ok le_rfl hat
    · exact agrees_readFurther_of_next_ne hsign h hn hs

/-- The readers agree on a list with a sign between its entries. -/
theorem agrees_readList (hsign : sign.toNat < 128) (hitem : AgreesOn input item itemAt) :
    AgreesOn input (readList sign item) (readListAt (String.ofList input) sign itemAt) := by
  intro s i h
  rw [readList, readListAt, utf8ByteSize_ofList]
  refine (hitem h).bind fun {d r j} hj hat => ?_
  have hlength := hat.length_eq
  refine (agrees_readFurther hsign hitem hat (by omega) (by omega)).bind fun {ds r k} hk hat => ?_
  exact .ok le_rfl hat

end Lists

/-! ## Levels -/

/-- Where no angle bracket comes next there are no arguments. -/
theorem readArguments_of_next_ne {primary : Reader} (hs : next s ≠ some '<') :
    readArguments primary s = .ok ([], skipSpace s) := by
  rw [readArguments]
  cases h : skipSpace s with
  | nil => rfl
  | cons c r =>
    have hc : c ≠ '<' := by
      rintro rfl
      exact hs (by rw [next, h, List.head?_cons])
    simp only [if_neg hc]

section Levels

variable {primary : Reader} {primaryAt : CursorReader} (hprimary : AgreesOn input primary primaryAt)

include hprimary

/-- The readers agree on a primary and the brackets after it. -/
theorem agrees_readSuffixed :
    AgreesOn input (readSuffixed primary) (readSuffixedAt (String.ofList input) primaryAt) := by
  intro s i h
  rw [readSuffixed, readSuffixedAt, utf8ByteSize_ofList]
  refine (hprimary h).bind fun {d r j} hj hat => ?_
  have hlength := hat.length_eq
  exact agrees_readBrackets d hat (by omega) (by omega)

theorem agrees_readBoth :
    AgreesOn input (readBoth primary) (readBothAt (String.ofList input) primaryAt) := by
  intro s i h
  rw [readBoth, readBothAt]
  refine (agrees_readList (by decide) (agrees_readSuffixed hprimary) h).bind fun _ hat => ?_
  exact agrees_combine _ _ hat

theorem agrees_readUnion :
    AgreesOn input (readUnion primary) (readUnionAt (String.ofList input) primaryAt) := by
  intro s i h
  rw [readUnion, readUnionAt]
  refine (agrees_readList (by decide) (agrees_readBoth hprimary) h).bind fun _ hat => ?_
  exact agrees_combine _ _ hat

/-- The readers agree on the arguments in angle brackets after a name. -/
theorem agrees_readArguments :
    AgreesOn input (readArguments primary) (readArgumentsAt (String.ofList input) primaryAt) := by
  intro s i h
  rw [readArgumentsAt]
  by_cases hs : next s = some '<'
  · obtain ⟨r, hr, hat⟩ := h.exists_behind (by decide) hs
    have hle := le_skipAt (String.ofList input) i
    rw [readArguments, hr, if_pos ((h.peekAt_eq_some_iff (by decide)).2 hs)]
    simp only [if_true]
    refine ((agrees_readList (by decide) (agrees_readUnion hprimary) hat).bind ?_).mono (by omega)
    intro ds r j hj hat
    exact agrees_expect (by decide) hat fun _ hat => .ok le_rfl hat
  · rw [readArguments_of_next_ne hs, if_neg (mt (h.peekAt_eq_some_iff (by decide)).1 hs)]
    exact .ok (le_skipAt _ i) h.skip

/-- The readers agree on a name and its arguments. -/
theorem agrees_readName :
    AgreesOn input (readName primary) (readNameAt (String.ofList input) primaryAt) := by
  intro s i h
  have hword : ∀ c ∈ s.takeWhile isNameChar, c.toNat < 128 :=
    fun c hc => isAsciiClass_isNameChar c (List.mem_takeWhile_imp hc)
  have hsplit : s.takeWhile isNameChar ++ s.dropWhile isNameChar = s :=
    List.takeWhile_append_dropWhile
  have hslice : slice? (String.ofList input) i (runEnd (String.ofList input) isNameChar i) =
      some (String.ofList (s.takeWhile isNameChar)) := by
    rw [h.runEnd_eq isAsciiClass_isNameChar]
    exact At.slice (hsplit.symm ▸ h) hword
  have hrun : splitRun isNameChar s = (s.takeWhile isNameChar, s.dropWhile isNameChar) := rfl
  rw [readName, hrun, readNameAt, hslice]
  dsimp only
  rw [String.toList_ofList]
  by_cases hname : stripSeparators (s.takeWhile isNameChar) = [] ∨
      (stripSeparators (s.takeWhile isNameChar)).getLast? = some separator
  · rw [if_pos hname, if_pos hname]
    exact .error h
  · rw [if_neg hname, if_neg hname]
    have hle : i ≤ runEnd (String.ofList input) isNameChar i := Nat.le_add_right ..
    refine ((agrees_readArguments hprimary (h.runEnd isAsciiClass_isNameChar)).bind ?_).mono hle
    exact fun _ hat => agrees_interpret _ _ h hat

end Levels

/-- The readers agree on a primary, whatever the number that may be nested. -/
theorem agrees_readPrimary (n : Nat) :
    AgreesOn input (readPrimary n) (readPrimaryAt (String.ofList input) n) := by
  induction n with
  | zero => exact fun h => .error h
  | succ n ih =>
    intro s i h
    have hle := le_skipAt (String.ofList input) i
    rw [readPrimary, readPrimaryAt]
    cases hs : skipSpace s with
    | nil =>
      rw [h.peekAt_of_nil hs]
      exact .error (hs ▸ h.skip)
    | cons c r =>
      rw [h.peekAt_of_cons hs]
      simp only [firstByte_eq_iff (by decide : '?'.toNat < 128),
        firstByte_eq_iff (by decide : '('.toNat < 128), class_firstByte isAsciiClass_isNameStart]
      by_cases hquestion : c = '?'
      · have hnext := h.behind hs (hquestion ▸ by decide)
        rw [if_pos hquestion, if_pos hquestion]
        refine ((agrees_readSuffixed ih hnext).bind fun _ hat => ?_).mono (by omega)
        exact agrees_build _ hat
      rw [if_neg hquestion, if_neg hquestion]
      by_cases hparen : c = '('
      · have hnext := h.behind hs (hparen ▸ by decide)
        rw [if_pos hparen, if_pos hparen]
        refine ((agrees_readUnion ih hnext).bind fun _ hat => ?_).mono (by omega)
        exact agrees_expect (by decide) hat fun _ hat => .ok le_rfl hat
      rw [if_neg hparen, if_neg hparen]
      split
      · exact (agrees_readName ih (hs ▸ h.skip)).mono hle
      · exact .error (hs ▸ h.skip)

end Agreement

/-! ## Whole expressions -/

/-- The readers agree on a whole expression. -/
theorem parseAt_spec (input : List Char) :
    (∃ d, read input = .ok d ∧ parseAt (String.ofList input) = .ok d ∧
        ∀ c ∈ input, c.toNat < 128) ∨
      ∃ f i, read input = .error f ∧
        parseAt (String.ofList input) = .error (.fault f.fault.message i) ∧ At input f.rest i := by
  have hunion := agrees_readUnion (agrees_readPrimary depthLimit) (at_zero input)
  rw [read, parseAt]
  generalize readUnion (readPrimary depthLimit) input = answer at hunion ⊢
  generalize readUnionAt _ (readPrimaryAt _ depthLimit) 0 = answerAt at hunion ⊢
  cases hunion with
  | error hat => exact .inr ⟨_, _, rfl, rfl, hat⟩
  | @ok d rest j hle hat =>
    cases hs : skipSpace rest with
    | nil =>
      obtain ⟨p, hp, -, hascii⟩ := hs ▸ hat.skip
      rw [List.append_nil] at hp
      refine .inl ⟨d, ?_, ?_, hp ▸ hascii⟩
      · simp only [bind, Except.bind, hs]
      · simp only [bind, Except.bind, hat.peekAt_of_nil hs]
    | cons c r =>
      refine .inr ⟨⟨.unexpected c, c :: r⟩, _, ?_, ?_, hs ▸ hat.skip⟩
      · simp only [bind, Except.bind, hs]
      · simp only [bind, Except.bind, hat.peekAt_of_cons hs]
        rfl

end TypeExpression

open TypeExpression in
/-- Reading with a cursor ends, and cuts nothing out outside the text or inside a character.  If
the text is no type expression, the place of the fault is one of the text, and the bytes in front
of it are ASCII.  If it is one, it is ASCII altogether. -/
theorem parse_within_input (s : String) :
    (∃ d, Descriptor.parse s = .ok d ∧ parseAt s = .ok d ∧ ∀ c ∈ s.toList, c.toNat < 128) ∨
      ∃ message position,
        Descriptor.parse s = .error (.parse message s position) ∧
        parseAt s = .error (.fault message position) ∧
        position ≤ s.utf8ByteSize ∧ (⟨position⟩ : String.Pos.Raw).IsValid s ∧
        ∀ b ∈ s.toByteArray.data.toList.take position, b.toNat < 128 := by
  obtain ⟨input, rfl⟩ : ∃ input, s = String.ofList input := ⟨_, String.ofList_toList.symm⟩
  rw [Descriptor.parse, String.toList_ofList]
  rcases parseAt_spec input with ⟨d, hread, hparse, hascii⟩ | ⟨f, i, hread, hparse, hat⟩
  · exact .inl ⟨d, by rw [hread], hparse, hascii⟩
  · obtain ⟨hle, hvalid, hbytes⟩ := hat.within
    refine .inr ⟨f.fault.message, i, ?_, hparse, hle, hvalid, fun b hb => ?_⟩
    · rw [hread, ← hat.position_eq]
    · refine hbytes (Char.ofUInt8 b) ?_
      rw [Text.byteChars, ← List.map_take]
      exact List.mem_map_of_mem hb

example : Descriptor.parse "Foo | é" = .error (.parse "unexpected `Ã`" "Foo | é" 6) := by decide

end Eponym
