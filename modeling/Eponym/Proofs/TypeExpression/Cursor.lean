/-
# A cursor in a type expression

A type expression is read with a cursor that counts bytes: single bytes are looked at, a name is
cut out between two places of the cursor, and a fault is told by the place.  A cursor may come to
stand inside a character, and then nothing can be cut out; and a loop that goes on as long as it
finds a sign may never end.

Here is the reader with such a cursor, which stops in either case, and where the cursor stands
while it reads: in front of it there are ASCII characters only.

* `At` : where the cursor stands when some text is left;
* `At.within`, `At.position_eq` : that place is one of the text, and tells a failure;
* `At.peekAt_eq_some_iff`, `At.behind`, `At.slice` : what is looked at, moved past and cut out.
-/
import Eponym.Proofs.Text.Offset
import Eponym.Proofs.TypeExpression.Reading

namespace Eponym

namespace TypeExpression

open Text

/-! ## A reader with a cursor -/

/-- What ends the reading of an expression. -/
inductive Stop where
  /-- The expression has a fault at the offset. -/
  | fault (message : String) (position : Nat)
  /-- A slice was to be cut out between offsets that are none of the text. -/
  | outside
  /-- A loop was gone round more often than there are bytes. -/
  | endless

/-- An answer, and where the cursor stands behind what it was read from. -/
abbrev Reached (α : Type) := α × Nat

/-- A function that reads a descriptor from where the cursor stands. -/
abbrev CursorReader := Nat → Except Stop (Reached Descriptor)

/-- The text that reports a byte out of place. -/
def unexpectedByte (b : Char) : String := s!"unexpected `{b}`"

section Cursor

variable (input : String)

/-- The place behind the run of bytes of a class at the cursor. -/
def runEnd (p : Char → Bool) (i : Nat) : Nat :=
  i + (((byteChars input).drop i).takeWhile p).length

/-- The place of the next sign. -/
def skipAt (i : Nat) : Nat := runEnd input isSpace i

/-- The next sign, if there is one. -/
def peekAt (i : Nat) : Option Char := (byteChars input)[skipAt input i]?

/-- The place behind a sign that has to follow. -/
def expectAt (sign : Char) (i : Nat) : Except Stop Nat :=
  if peekAt input i = some sign then .ok (skipAt input i + 1)
  else .error (.fault (SyntaxFault.expected sign).message (skipAt input i))

/-- The descriptor, unless it is too high. -/
def buildAt (d : Descriptor) (i : Nat) : Except Stop (Reached Descriptor) :=
  if d.height ≤ depthLimit then .ok (d, i)
  else .error (.fault SyntaxFault.nestedTooDeeply.message i)

/-- The further entries of a list, each after a sign, in fewer rounds than are given. -/
def readFurtherAt (sign : Char) (item : CursorReader) :
    Nat → Nat → Except Stop (Reached (List Descriptor))
  | 0, _ => .error .endless
  | n + 1, i =>
    if peekAt input i = some sign then do
      let (d, j) ← item (skipAt input i + 1)
      let (ds, j) ← readFurtherAt sign item n j
      .ok (d :: ds, j)
    else .ok ([], skipAt input i)

/-- The entries of a list with a sign between them. -/
def readListAt (sign : Char) (item : CursorReader) (i : Nat) :
    Except Stop (Reached (List Descriptor)) := do
  let (d, j) ← item i
  let (ds, j) ← readFurtherAt input sign item (input.utf8ByteSize + 1) j
  .ok (d :: ds, j)

/-- A list of one entry is that entry; a longer list is put together. -/
def combineAt (join : List Descriptor → Descriptor) :
    List Descriptor → Nat → Except Stop (Reached Descriptor)
  | [d], i => .ok (d, i)
  | ds, i => buildAt (join ds) i

/-- The pairs of brackets after a descriptor, read in fewer rounds than are given. -/
def readBracketsAt : Nat → Descriptor → Nat → Except Stop (Reached Descriptor)
  | 0, _, _ => .error .endless
  | n + 1, d, i =>
    if peekAt input i = some '[' then do
      let j ← expectAt input ']' (skipAt input i + 1)
      let (d, j) ← buildAt (.iterable d) j
      readBracketsAt n d j
    else .ok (d, skipAt input i)

/-- What a name with arguments stands for, a fault being told by where the name starts. -/
def interpretAt (name : List Char) (arguments : List Descriptor) (start i : Nat) :
    Except Stop (Reached Descriptor) :=
  let keyword := String.ofList (name.map Char.toLower)
  if iterableKeywords.contains keyword then
    match arguments with
    | [] => buildAt (.iterable (.scalar "mixed")) i
    | [value] => buildAt (.iterable value) i
    | [key, value] => buildAt (.keyed key value) i
    | _ => .error (.fault (SyntaxFault.tooManyArguments name).message start)
  else if keyword = "null" then .ok (.null, i)
  else if scalarKeywords.contains keyword then .ok (.scalar (String.ofList name), i)
  else .ok (.ofName (String.ofList name), i)

section Levels

variable (primary : CursorReader)

/-- A primary and the brackets after it. -/
def readSuffixedAt (i : Nat) : Except Stop (Reached Descriptor) := do
  let (d, j) ← primary i
  readBracketsAt input (input.utf8ByteSize + 1) d j

/-- Suffixed types joined by `&`. -/
def readBothAt (i : Nat) : Except Stop (Reached Descriptor) := do
  let (ds, j) ← readListAt input '&' (readSuffixedAt input primary) i
  combineAt .intersection ds j

/-- Intersections joined by `|`. -/
def readUnionAt (i : Nat) : Except Stop (Reached Descriptor) := do
  let (ds, j) ← readListAt input '|' (readBothAt input primary) i
  combineAt .union ds j

/-- The arguments in angle brackets after a name, if there are any. -/
def readArgumentsAt (i : Nat) : Except Stop (Reached (List Descriptor)) :=
  if peekAt input i = some '<' then do
    let (ds, j) ← readListAt input ',' (readUnionAt input primary) (skipAt input i + 1)
    let j ← expectAt input '>' j
    .ok (ds, j)
  else .ok ([], skipAt input i)

/-- A name, cut out between two places of the cursor, and its arguments. -/
def readNameAt (i : Nat) : Except Stop (Reached Descriptor) :=
  match slice? input i (runEnd input isNameChar i) with
  | none => .error .outside
  | some word => do
    let name := stripSeparators word.toList
    if name = [] ∨ name.getLast? = some separator then
      .error (.fault (SyntaxFault.invalidName word.toList).message i)
    else
      let (arguments, j) ← readArgumentsAt input primary (runEnd input isNameChar i)
      interpretAt name arguments i j

end Levels

/-- A primary inside which at most the given number, itself counted, may be nested. -/
def readPrimaryAt : Nat → Nat → Except Stop (Reached Descriptor)
  | 0, i => .error (.fault SyntaxFault.nestedTooDeeply.message i)
  | n + 1, i => match peekAt input i with
    | none => .error (.fault SyntaxFault.unexpectedEnd.message (skipAt input i))
    | some b =>
      if b = '?' then do
        let (d, j) ← readSuffixedAt input (readPrimaryAt n) (skipAt input i + 1)
        buildAt (.union [d, .null]) j
      else if b = '(' then do
        let (d, j) ← readUnionAt input (readPrimaryAt n) (skipAt input i + 1)
        let j ← expectAt input ')' j
        .ok (d, j)
      else if isNameStart b then readNameAt input (readPrimaryAt n) (skipAt input i)
      else .error (.fault (unexpectedByte b) (skipAt input i))

/-- The descriptor that an expression stands for. -/
def parseAt : Except Stop Descriptor := do
  let (d, i) ← readUnionAt input (readPrimaryAt input depthLimit) 0
  match peekAt input i with
  | none => .ok d
  | some b => .error (.fault (unexpectedByte b) (skipAt input i))

end Cursor

/-! ## Where the cursor stands -/

/-- The cursor stands where some text is left if ASCII characters stand in front of that, one for
each byte that the cursor has counted. -/
def At (input rest : List Char) (i : Nat) : Prop :=
  ∃ p, input = p ++ rest ∧ p.length = i ∧ ∀ c ∈ p, c.toNat < 128

section Places

variable {input s r w : List Char} {c sign : Char} {i j : Nat} {p : Char → Bool}

theorem at_zero (input : List Char) : At input input 0 :=
  ⟨[], rfl, rfl, List.forall_mem_nil _⟩

/-- The cursor moves past ASCII characters. -/
theorem At.append (h : At input (w ++ r) i) (hw : ∀ c ∈ w, c.toNat < 128) :
    At input r (i + w.length) := by
  obtain ⟨p, rfl, rfl, hp⟩ := h
  exact ⟨p ++ w, by rw [List.append_assoc], List.length_append,
    List.forall_mem_append.2 ⟨hp, hw⟩⟩

theorem At.cons (h : At input (c :: r) i) (hc : c.toNat < 128) : At input r (i + 1) :=
  At.append (w := [c]) h (List.forall_mem_singleton.2 hc)

theorem At.length_eq (h : At input s i) : input.length = i + s.length := by
  obtain ⟨p, rfl, rfl, -⟩ := h
  exact List.length_append

/-- The bytes behind the cursor are those of the text that is left. -/
theorem At.drop_byteChars (h : At input s i) :
    (byteChars (String.ofList input)).drop i = byteChars (String.ofList s) := by
  obtain ⟨p, rfl, rfl, hp⟩ := h
  rw [String.ofList_append, byteChars_append, byteChars_of_ascii_text hp, List.drop_left]

theorem At.le_size (h : At input s i) : i ≤ byteLength input := by
  obtain ⟨p, rfl, rfl, hp⟩ := h
  rw [byteLength_append, byteLength_of_ascii hp]
  exact Nat.le_add_right ..

/-- What the cursor moves past can be cut out. -/
theorem At.slice (h : At input (w ++ r) i) (hw : ∀ c ∈ w, c.toNat < 128) :
    slice? (String.ofList input) i (i + w.length) = some (String.ofList w) := by
  obtain ⟨p, rfl, rfl, hp⟩ := h
  have hslice := slice?_ofList p w r
  rwa [byteLength_append, byteLength_of_ascii hp, byteLength_of_ascii hw] at hslice

/-- A run of an ASCII class takes as many bytes as characters. -/
theorem At.runEnd_eq (h : At input s i) (hp : IsAsciiClass p) :
    runEnd (String.ofList input) p i = i + (s.takeWhile p).length := by
  rw [runEnd, h.drop_byteChars, takeWhile_byteChars hp]

/-- Behind a run of an ASCII class, what follows it is left. -/
theorem At.runEnd (h : At input s i) (hp : IsAsciiClass p) :
    At input (s.dropWhile p) (runEnd (String.ofList input) p i) := by
  rw [h.runEnd_eq hp]
  have hsplit : s.takeWhile p ++ s.dropWhile p = s := List.takeWhile_append_dropWhile
  rw [← hsplit] at h
  exact h.append fun c hc => hp c (List.mem_takeWhile_imp hc)

/-- Where the cursor stands is a place of the text, and the bytes in front are ASCII. -/
theorem At.within (h : At input s i) :
    i ≤ (String.ofList input).utf8ByteSize ∧
      (⟨i⟩ : String.Pos.Raw).IsValid (String.ofList input) ∧
      ∀ b ∈ (byteChars (String.ofList input)).take i, b.toNat < 128 := by
  obtain ⟨p, rfl, rfl, hp⟩ := h
  refine ⟨?_, ?_, ?_⟩
  · rw [utf8ByteSize_ofList, byteLength_append, byteLength_of_ascii hp]
    exact Nat.le_add_right ..
  · rw [isValid_iff]
    refine ⟨String.ofList p, String.ofList s, String.ofList_append, ?_⟩
    rw [utf8ByteSize_ofList, byteLength_of_ascii hp]
  · rw [String.ofList_append, byteChars_append, byteChars_of_ascii_text hp, List.take_left]
    exact hp

/-- A failure is told by where the cursor stands. -/
theorem At.position_eq {f : Failure} (h : At input f.rest i) :
    f.position input = i := by
  obtain ⟨p, hp, rfl, hascii⟩ := h
  rw [Failure.position, hp, byteLength_append, byteLength_of_ascii hascii, Nat.add_sub_cancel]

/-! ## Signs -/

theorem isAsciiClass_isSpace : IsAsciiClass isSpace := by
  intro c hc
  simp only [isSpace, Bool.or_eq_true, decide_eq_true_eq] at hc
  rcases hc with (((rfl | rfl) | rfl) | rfl) | rfl <;> decide

theorem isAsciiClass_isNameChar : IsAsciiClass isNameChar := by
  intro c hc
  simp only [isNameChar, Bool.or_eq_true, decide_eq_true_eq] at hc
  rcases hc with ((hc | rfl) | rfl) | rfl
  · exact isAsciiClass_isAlphanum c hc
  all_goals decide

theorem isAsciiClass_isNameStart : IsAsciiClass isNameStart := by
  intro c hc
  refine isAsciiClass_isNameChar c ?_
  simp only [isNameStart, isNameChar, Char.isAlphanum, Bool.or_eq_true] at hc ⊢
  grind

/-- The first byte of a character is the one that a fault shows. -/
theorem head?_byteChars_cons (c : Char) (s : List Char) :
    (byteChars (String.ofList (c :: s))).head? = some (Char.ofNat (firstByte c)) := by
  have hval : c.val.toNat = c.toNat := rfl
  have hmax : c.toNat ≤ 1114111 := Char.toNat_le_max c
  have hlt : firstByte c < 256 := by
    unfold firstByte
    grind
  rw [byteChars_ofList_cons, List.head?_append_of_ne_nil _ (charBytes_ne_nil c), charBytes,
    ← ofUInt8_ofNat hlt, List.head?_map]
  unfold String.utf8EncodeChar firstByte
  simp only [hval, Nat.lt_succ_iff]
  -- one byte, two, three or four
  split_ifs
  all_goals simp only [List.head?_cons, Option.map_some]
  all_goals congr 3
  all_goals omega

/-- The first byte of a character is of an ASCII class exactly if the character is. -/
theorem class_firstByte (hp : IsAsciiClass p) (c : Char) :
    p (Char.ofNat (firstByte c)) = p c := by
  have hany := any_head?_byteChars hp [c]
  rwa [head?_byteChars_cons] at hany

theorem firstByte_eq_iff (hsign : sign.toNat < 128) :
    Char.ofNat (firstByte c) = sign ↔ c = sign := by
  rw [← beq_iff_eq, class_firstByte (isAsciiClass_beq sign hsign), beq_iff_eq]

/-- Behind the white space, what follows it is left. -/
theorem At.skip (h : At input s i) : At input (skipSpace s) (skipAt (String.ofList input) i) :=
  h.runEnd isAsciiClass_isSpace

theorem le_skipAt (input : String) (i : Nat) : i ≤ skipAt input i := Nat.le_add_right ..

theorem At.peekAt_eq (h : At input s i) :
    peekAt (String.ofList input) i = (byteChars (String.ofList (skipSpace s))).head? := by
  rw [peekAt, ← List.head?_drop, h.skip.drop_byteChars]

theorem At.peekAt_of_nil (h : At input s i) (hs : skipSpace s = []) :
    peekAt (String.ofList input) i = none := by
  rw [h.peekAt_eq, hs]
  rfl

theorem At.peekAt_of_cons (h : At input s i) (hs : skipSpace s = c :: r) :
    peekAt (String.ofList input) i = some (Char.ofNat (firstByte c)) := by
  rw [h.peekAt_eq, hs, head?_byteChars_cons]

/-- A sign comes next for the cursor exactly if it does in the text that is left. -/
theorem At.peekAt_eq_some_iff (h : At input s i) (hsign : sign.toNat < 128) :
    peekAt (String.ofList input) i = some sign ↔ next s = some sign := by
  cases hs : skipSpace s with
  | nil => rw [h.peekAt_of_nil hs, next, hs, List.head?_nil]
  | cons c r =>
    rw [h.peekAt_of_cons hs, next, hs, List.head?_cons, Option.some.injEq, Option.some.injEq,
      firstByte_eq_iff hsign]

/-- Behind the next character, if it is an ASCII character, what follows it is left. -/
theorem At.behind (h : At input s i) (hs : skipSpace s = c :: r) (hc : c.toNat < 128) :
    At input r (skipAt (String.ofList input) i + 1) :=
  At.cons (hs ▸ h.skip) hc

/-- Behind a sign that comes next, what follows it is left. -/
theorem At.exists_behind (h : At input s i) (hsign : sign.toNat < 128) (hs : next s = some sign) :
    ∃ r, skipSpace s = sign :: r ∧ At input r (skipAt (String.ofList input) i + 1) := by
  obtain ⟨r, hr⟩ := List.head?_eq_some_iff.1 hs
  exact ⟨r, hr, h.behind hr hsign⟩

end Places

end TypeExpression

end Eponym
