/-
# Byte offsets

A place in a text may be told by the number of bytes in front of it.  It is one of the text only
if a character starts there or the text ends; between two such places something can be cut out.
A single byte is looked at as the character with its number.  Those of an ASCII class are then
the characters of that class, since the bytes of any other character have greater numbers.

* `slice?_eq_some_iff` : what is cut out stands behind as many bytes as the first offset says;
* `any_head?_byteChars`, `any_getLast?_byteChars` : an ASCII class, told by the first byte or by
  the last one;
* `utf8ByteSize_ofList` : the two ways to count bytes agree.
-/
import Eponym.Identifier.Plural
import Eponym.Proofs.Identifier.Reading

namespace Eponym.Text

/-! ## Slices -/

/-- The part of a text between two byte offsets.  There is none if one of them lies behind the
end or inside a character, or if the second is smaller. -/
def slice? (s : String) (i j : Nat) : Option String :=
  if h : (⟨i⟩ : String.Pos.Raw).IsValid s ∧ (⟨j⟩ : String.Pos.Raw).IsValid s ∧ i ≤ j then
    some (String.extract (s.pos ⟨i⟩ h.1) (s.pos ⟨j⟩ h.2.1))
  else none

/-- The difference of two lengths.  There is none if the second is greater. -/
def minus? (a b : Nat) : Option Nat := if b ≤ a then some (a - b) else none

@[simp] theorem minus?_add (a b : Nat) : minus? (a + b) b = some a := by
  rw [minus?, if_pos (Nat.le_add_left b a), Nat.add_sub_cancel]

section Slices

variable {s p q w r t : String} {i j : Nat}

/-- An offset is one of a text if it counts the bytes of what stands in front. -/
theorem isValid_iff :
    (⟨i⟩ : String.Pos.Raw).IsValid s ↔ ∃ p r, s = p ++ r ∧ p.utf8ByteSize = i := by
  rw [String.Pos.Raw.isValid_iff_exists_append]
  refine exists_congr fun p => exists_congr fun r => and_congr_right fun _ => ?_
  rw [String.Pos.Raw.ext_iff, String.byteIdx_rawEndPos, eq_comm]

/-- The text in front of a place begins with that in front of an earlier place. -/
theorem exists_eq_append_of_le (h : p ++ r = q ++ t) (hle : p.utf8ByteSize ≤ q.utf8ByteSize) :
    ∃ w, q = p ++ w ∧ r = w ++ t := by
  have hlist := congrArg String.toList h
  rw [String.toList_append, String.toList_append, List.append_eq_append_iff] at hlist
  rcases hlist with ⟨w, hq, hr⟩ | ⟨w, hp, ht⟩
  · refine ⟨String.ofList w, ?_, ?_⟩
    · rw [← String.toList_inj, hq, String.toList_append, String.toList_ofList]
    · rw [← String.toList_inj, hr, String.toList_append, String.toList_ofList]
  · -- then nothing stands between the two places
    have hpw : p = q ++ String.ofList w := by
      rw [← String.toList_inj, hp, String.toList_append, String.toList_ofList]
    have hw : String.ofList w = "" := by
      rw [hpw, String.utf8ByteSize_append] at hle
      exact String.utf8ByteSize_eq_zero_iff.1 (by omega)
    rw [hw, String.append_empty] at hpw
    rw [String.ofList_eq_empty_iff] at hw
    rw [hw, List.nil_append, String.toList_inj] at ht
    exact ⟨"", by rw [hpw, String.append_empty], by rw [ht, String.empty_append]⟩

/-- Between the places in front of a part and behind it, the part is cut out. -/
theorem slice?_append (p w r : String) :
    slice? (p ++ w ++ r) p.utf8ByteSize (p ++ w).utf8ByteSize = some w := by
  have hsize : (p ++ w).utf8ByteSize = p.utf8ByteSize + w.utf8ByteSize :=
    String.utf8ByteSize_append
  have hvalid : (⟨p.utf8ByteSize⟩ : String.Pos.Raw).IsValid (p ++ w ++ r) ∧
      (⟨(p ++ w).utf8ByteSize⟩ : String.Pos.Raw).IsValid (p ++ w ++ r) ∧
      p.utf8ByteSize ≤ (p ++ w).utf8ByteSize :=
    ⟨isValid_iff.2 ⟨p, w ++ r, String.append_assoc, rfl⟩, isValid_iff.2 ⟨p ++ w, r, rfl, rfl⟩,
      by omega⟩
  rw [slice?, dif_pos hvalid, Option.some.injEq, ← String.toByteArray_inj,
    String.toByteArray_extract]
  have hbytes : (p ++ w ++ r).toByteArray = p.toByteArray ++ (w.toByteArray ++ r.toByteArray) := by
    rw [String.append_assoc, String.toByteArray_append, String.toByteArray_append]
  have hfrom : p.utf8ByteSize = p.toByteArray.size + 0 := String.size_toByteArray.symm
  have hto : (p ++ w).utf8ByteSize = p.toByteArray.size + w.toByteArray.size := by
    rw [hsize, String.size_toByteArray, String.size_toByteArray]
  rw [hbytes, String.offset_pos, String.offset_pos, hfrom, hto,
    ByteArray.extract_append_size_add, ByteArray.extract_append_eq_left rfl]

/-- What is cut out between two offsets stands behind as many bytes as the first says, and in
front of it and in it are as many as the second says. -/
theorem slice?_eq_some_iff :
    slice? s i j = some w ↔
      ∃ p r, s = p ++ w ++ r ∧ p.utf8ByteSize = i ∧ (p ++ w).utf8ByteSize = j := by
  constructor
  · intro h
    have hvalid : (⟨i⟩ : String.Pos.Raw).IsValid s ∧ (⟨j⟩ : String.Pos.Raw).IsValid s ∧ i ≤ j := by
      by_contra hno
      rw [slice?, dif_neg hno] at h
      cases h
    obtain ⟨p, r, hs, rfl⟩ := isValid_iff.1 hvalid.1
    obtain ⟨q, t, hs', rfl⟩ := isValid_iff.1 hvalid.2.1
    obtain ⟨v, rfl, -⟩ := exists_eq_append_of_le (hs.symm.trans hs') hvalid.2.2
    rw [hs', slice?_append, Option.some.injEq] at h
    exact ⟨p, t, h ▸ hs', rfl, h ▸ rfl⟩
  · rintro ⟨p, r, rfl, rfl, rfl⟩
    exact slice?_append p w r

end Slices

/-! ## Lengths -/

/-- The bytes of two texts end to end are those of both. -/
@[simp] theorem byteLength_append (s t : List Char) :
    byteLength (s ++ t) = byteLength s + byteLength t := by
  induction s with
  | nil => exact (Nat.zero_add _).symm
  | cons c s ih =>
    show c.utf8Size + byteLength (s ++ t) = c.utf8Size + byteLength s + byteLength t
    rw [ih, Nat.add_assoc]

/-- A text has as many bytes as its characters take. -/
@[simp] theorem utf8ByteSize_ofList (s : List Char) :
    (String.ofList s).utf8ByteSize = byteLength s := by
  induction s with
  | nil => rfl
  | cons c s ih =>
    rw [String.ofList_cons, String.utf8ByteSize_append, ih, String.utf8ByteSize_singleton]
    rfl

@[simp] theorem byteLength_eq_zero {s : List Char} : byteLength s = 0 ↔ s = [] := by
  rw [← utf8ByteSize_ofList, String.utf8ByteSize_eq_zero_iff, String.ofList_eq_empty_iff]

/-- Behind some characters, as many are cut out as the bytes between the offsets say. -/
theorem slice?_ofList (p w r : List Char) :
    slice? (String.ofList (p ++ (w ++ r))) (byteLength p) (byteLength (p ++ w)) =
      some (String.ofList w) := by
  have hslice := slice?_append (String.ofList p) (String.ofList w) (String.ofList r)
  rwa [← String.ofList_append, ← String.ofList_append, utf8ByteSize_ofList, utf8ByteSize_ofList,
    List.append_assoc] at hslice

/-- Behind some characters, the rest is cut out up to the end. -/
theorem slice?_to_end (p t : List Char) :
    slice? (String.ofList (p ++ t)) (byteLength p) (String.ofList (p ++ t)).utf8ByteSize =
      some (String.ofList t) := by
  have hslice := slice?_ofList p t []
  rwa [List.append_nil, ← utf8ByteSize_ofList (p ++ t)] at hslice

theorem ofList_append_toList (s : List Char) (t : String) :
    String.ofList (s ++ t.toList) = String.ofList s ++ t := by
  rw [String.ofList_append, String.ofList_toList]

/-! ## Bytes -/

/-- The bytes of a character in UTF-8, each as the character with its number. -/
def charBytes (c : Char) : List Char := (String.utf8EncodeChar c).map Char.ofUInt8

theorem charBytes_ne_nil (c : Char) : charBytes c ≠ [] :=
  mt List.map_eq_nil_iff.1 String.utf8EncodeChar_ne_nil

@[simp] theorem length_charBytes (c : Char) : (charBytes c).length = c.utf8Size := by
  rw [charBytes, List.length_map, String.length_utf8EncodeChar]

/-- The bytes of a text in UTF-8, each as the character with its number. -/
def byteChars (s : String) : List Char := s.toByteArray.data.toList.map Char.ofUInt8

@[simp] theorem byteChars_append (s t : String) :
    byteChars (s ++ t) = byteChars s ++ byteChars t := by
  simp [byteChars, String.toByteArray_append, ByteArray.data_append]

@[simp] theorem length_byteChars (s : String) : (byteChars s).length = s.utf8ByteSize := by
  rw [byteChars, List.length_map, Array.length_toList, ByteArray.size_data,
    String.size_toByteArray]

@[simp] theorem byteChars_ofList_nil : byteChars (String.ofList []) = [] := rfl

/-- The bytes of a text are those of its first character and those of the rest. -/
theorem byteChars_ofList_cons (c : Char) (s : List Char) :
    byteChars (String.ofList (c :: s)) = charBytes c ++ byteChars (String.ofList s) := by
  have hbytes : (String.singleton c).toByteArray = (String.utf8EncodeChar c).toByteArray := by
    rw [String.toByteArray_singleton, List.utf8Encode_singleton]
  rw [String.ofList_cons, byteChars_append]
  congr 1
  rw [byteChars, charBytes, hbytes, List.data_toByteArray]

theorem ofUInt8_ofNat {n : Nat} (hn : n < 256) : Char.ofUInt8 (UInt8.ofNat n) = Char.ofNat n := by
  rw [← Char.toNat_inj, Char.toNat_ofNat, if_pos (.inl (by omega))]
  exact UInt8.toNat_ofNat_of_lt' hn

theorem charBytes_of_ascii {c : Char} (hc : c.toNat < 128) : charBytes c = [c] := by
  have hle : c.val.toNat ≤ 127 := Nat.le_of_lt_succ hc
  rw [charBytes, String.utf8EncodeChar, if_pos hle, List.map_singleton, ofUInt8_ofNat (by omega)]
  show [Char.ofNat c.toNat] = [c]
  rw [Char.ofNat_toNat]

/-- No byte of another character is one of ASCII. -/
theorem not_ascii_of_mem_charBytes {c d : Char} (hc : ¬ c.toNat < 128) (hd : d ∈ charBytes c) :
    ¬ d.toNat < 128 := by
  have hval : c.val.toNat = c.toNat := rfl
  obtain ⟨b, hb, rfl⟩ := List.mem_map.1 hd
  obtain ⟨n, rfl, hlow, hhigh⟩ : ∃ n, b = UInt8.ofNat n ∧ 128 ≤ n ∧ n < 256 := by
    unfold String.utf8EncodeChar at hb
    simp only [hval] at hb
    split_ifs at hb
    · omega
    -- two, three or four bytes
    all_goals simp only [List.mem_cons, List.not_mem_nil, or_false] at hb
    · rcases hb with rfl | rfl <;> exact ⟨_, rfl, by omega, by omega⟩
    · rcases hb with rfl | rfl | rfl <;> exact ⟨_, rfl, by omega, by omega⟩
    · rcases hb with rfl | rfl | rfl | rfl <;> exact ⟨_, rfl, by omega, by omega⟩
  rw [ofUInt8_ofNat hhigh, Char.toNat_ofNat, if_pos (.inl (by omega))]
  omega

theorem byteChars_of_ascii {c : Char} (hc : c.toNat < 128) (s : List Char) :
    byteChars (String.ofList (c :: s)) = c :: byteChars (String.ofList s) := by
  rw [byteChars_ofList_cons, charBytes_of_ascii hc, List.singleton_append]

/-! ## ASCII -/

/-- The bytes of a text of ASCII characters are the characters. -/
theorem byteChars_of_ascii_text {s : List Char} (hs : ∀ c ∈ s, c.toNat < 128) :
    byteChars (String.ofList s) = s := by
  induction s with
  | nil => rfl
  | cons c s ih =>
    obtain ⟨hc, hs⟩ := List.forall_mem_cons.1 hs
    rw [byteChars_of_ascii hc, ih hs]

/-- A text of ASCII characters has as many bytes as characters. -/
theorem byteLength_of_ascii {s : List Char} (hs : ∀ c ∈ s, c.toNat < 128) :
    byteLength s = s.length := by
  induction s with
  | nil => rfl
  | cons c s ih =>
    obtain ⟨hc, hs⟩ := List.forall_mem_cons.1 hs
    have hsize : c.utf8Size = 1 :=
      Char.utf8Size_eq_one_iff.2 (UInt32.le_iff_toNat_le.2 (Nat.le_of_lt_succ hc))
    show c.utf8Size + byteLength s = s.length + 1
    rw [hsize, ih hs, Nat.add_comm]

/-- Whether all characters of a class are ASCII. -/
def IsAsciiClass (p : Char → Bool) : Prop := ∀ c, p c = true → c.toNat < 128

section Classes

variable {p : Char → Bool} (hp : IsAsciiClass p)

include hp

theorem byteChars_of_forall {w : List Char} (hw : ∀ c ∈ w, p c = true) :
    byteChars (String.ofList w) = w :=
  byteChars_of_ascii_text fun c hc => hp c (hw c hc)

/-- The bytes of a character that is not of the class are not of it either. -/
theorem class_of_mem_charBytes {c d : Char} (hc : p c = false) (hd : d ∈ charBytes c) :
    p d = false := by
  by_cases hascii : c.toNat < 128
  · rw [charBytes_of_ascii hascii, List.mem_singleton] at hd
    rw [hd, hc]
  · exact Bool.eq_false_iff.2 fun hpd => not_ascii_of_mem_charBytes hascii hd (hp d hpd)

/-- No byte of a text without characters of the class is of it. -/
theorem class_of_mem_byteChars {s : List Char} (hs : ∀ c ∈ s, p c = false) :
    ∀ b ∈ byteChars (String.ofList s), p b = false := by
  induction s with
  | nil => exact List.forall_mem_nil _
  | cons c s ih =>
    obtain ⟨hc, hs⟩ := List.forall_mem_cons.1 hs
    rw [byteChars_ofList_cons, List.forall_mem_append]
    exact ⟨fun b hb => class_of_mem_charBytes hp hc hb, ih hs⟩

/-- A text begins with a byte of the class exactly if it begins with a character of it. -/
theorem any_head?_byteChars (s : List Char) :
    (byteChars (String.ofList s)).head?.any p = s.head?.any p := by
  cases s with
  | nil => rfl
  | cons c s =>
    rw [List.head?_cons, Option.any_some, byteChars_ofList_cons]
    by_cases hc : p c = true
    · rw [charBytes_of_ascii (hp c hc)]
      rfl
    · rw [Bool.not_eq_true] at hc
      obtain ⟨b, bs, hbytes⟩ := List.exists_cons_of_ne_nil (charBytes_ne_nil c)
      rw [hc, hbytes]
      exact class_of_mem_charBytes hp hc (hbytes ▸ List.mem_cons_self)

/-- A text ends in a byte of the class exactly if it ends in a character of it. -/
theorem any_getLast?_byteChars (s : List Char) (c : Char) :
    (byteChars (String.ofList (s ++ [c]))).getLast?.any p = p c := by
  have hlast : byteChars (String.ofList [c]) = charBytes c := by
    rw [byteChars_ofList_cons]
    exact List.append_nil _
  have hne := charBytes_ne_nil c
  rw [String.ofList_append, byteChars_append, hlast, List.getLast?_append_of_ne_nil _ hne]
  by_cases hc : p c = true
  · rw [charBytes_of_ascii (hp c hc)]
    rfl
  · rw [Bool.not_eq_true] at hc
    rw [hc, List.getLast?_eq_getLast_of_ne_nil hne, Option.any_some]
    exact class_of_mem_charBytes hp hc (List.getLast_mem hne)

/-- A text that begins with no character of the class begins with no byte of it. -/
theorem head?_byteChars {s : List Char} (hs : ∀ c ∈ s.head?, p c = false) :
    ∀ c ∈ (byteChars (String.ofList s)).head?, p c = false := by
  refine (Option.any_eq_false ..).1 ?_
  rw [any_head?_byteChars hp]
  exact (Option.any_eq_false ..).2 hs

/-- The run of the class at the head of a text is that at the head of its bytes. -/
theorem takeWhile_byteChars (s : List Char) :
    (byteChars (String.ofList s)).takeWhile p = s.takeWhile p := by
  obtain ⟨w, rest, rfl, hw, hrest⟩ := exists_run p s
  rw [String.ofList_append, byteChars_append, byteChars_of_forall hp hw,
    takeWhile_run hw (head?_byteChars hp hrest), takeWhile_run hw hrest]

end Classes

/-! ## Classes -/

theorem isAsciiClass_beq (a : Char) (ha : a.toNat < 128) : IsAsciiClass (· == a) :=
  fun _ hc => (beq_iff_eq.1 hc) ▸ ha

theorem isAsciiClass_isUpper : IsAsciiClass Char.isUpper := by
  intro c hc
  simp only [Char.isUpper, decide_eq_true_eq, UInt32.le_iff_toNat_le] at hc
  exact Nat.lt_of_le_of_lt hc.2 (by decide)

theorem isAsciiClass_isLower : IsAsciiClass Char.isLower := by
  intro c hc
  simp only [Char.isLower, Bool.and_eq_true, decide_eq_true_eq, UInt32.le_iff_toNat_le] at hc
  exact Nat.lt_of_le_of_lt hc.2 (by decide)

theorem isAsciiClass_isDigit : IsAsciiClass Char.isDigit := by
  intro c hc
  simp only [Char.isDigit, Bool.and_eq_true, decide_eq_true_eq, UInt32.le_iff_toNat_le] at hc
  exact Nat.lt_of_le_of_lt hc.2 (by decide)

theorem isAsciiClass_isAlphanum : IsAsciiClass Char.isAlphanum := by
  intro c hc
  rcases isAlphanum_cases hc with h | h | h
  · exact isAsciiClass_isUpper c h
  · exact isAsciiClass_isLower c h
  · exact isAsciiClass_isDigit c h

end Eponym.Text
