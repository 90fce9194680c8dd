/-
# Words and segments by byte offsets

A name is read byte by byte, and its words and segments are cut out between offsets reckoned on
the way.  An offset may come to lie inside a character or behind the end, and then nothing can be
cut out.  That never happens: a word begins and ends with an ASCII character, a later segment
begins with one, and the bytes of any other character are passed over one by one.  The results
are those on characters.

* `wordsFrom?_eq`, `words?_eq` : the words behind any part of a name, and all words;
* `camelCase?_eq` : the camel-case form;
* `segmentsFrom?_eq`, `segments?_eq` : the segments from any one on, and all segments.
-/
import Eponym.Proofs.Identifier.Segment
import Eponym.Proofs.Text.Offset

namespace Eponym.Bytewise

open Text

/-! ## Words -/

/-- The words of a name from an offset on, given the bytes behind it. -/
def wordsFrom? (name : String) (position : Nat) (bytes : List Char) : Option (List String) :=
  match bytes with
  | [] => some []
  | b :: bs =>
    match leadingLength (b :: bs) with
    | 0 => wordsFrom? name (position + 1) bs
    | n + 1 => do
      let w ← slice? name position (position + (n + 1))
      let ws ← wordsFrom? name (position + (n + 1)) (bs.drop n)
      return w :: ws
termination_by bytes.length

/-- The words of a name. -/
def words? (name : String) : Option (List String) := wordsFrom? name 0 (byteChars name)

section Words

variable {name : String} {position : Nat} {b d : Char} {bs ds w run rest t : List Char}

theorem wordsFrom?_of_skip (h : leadingLength (b :: bs) = 0) :
    wordsFrom? name position (b :: bs) = wordsFrom? name (position + 1) bs := by
  rw [wordsFrom?, h]

/-- Where a word begins, it is cut out. -/
theorem wordsFrom?_of_leads (h : Leads w rest) :
    wordsFrom? name position (w ++ rest) = do
      let v ← slice? name position (position + w.length)
      let vs ← wordsFrom? name (position + w.length) rest
      return v :: vs := by
  have hlength := leadingLength_of_leads h
  obtain ⟨c, w, rfl⟩ := List.exists_cons_of_ne_nil h.ne_nil
  rw [List.cons_append] at hlength ⊢
  rw [wordsFrom?, hlength, List.length_cons]
  simp only [List.drop_left]

/-- A byte that is no letter or digit is passed over, with the capitals in front of it. -/
theorem wordsFrom?_of_passed (h : Passed run d) :
    wordsFrom? name position (run ++ d :: t) =
      wordsFrom? name (position + (run.length + 1)) t := by
  obtain ⟨hrun, hd⟩ := h
  induction run generalizing position with
  | nil =>
    have hpassed : Passed [] d := ⟨hrun, hd⟩
    exact wordsFrom?_of_skip (leadingLength_of_passed hpassed)
  | cons c run ih =>
    have hpassed : Passed (c :: run) d := ⟨hrun, hd⟩
    have hskip : leadingLength (c :: (run ++ d :: t)) = 0 := leadingLength_of_passed hpassed
    rw [List.cons_append, wordsFrom?_of_skip hskip, ih (List.forall_mem_cons.1 hrun).2,
      List.length_cons]
    congr 1
    omega

/-- Bytes that are no letters or digits are passed over one by one. -/
theorem wordsFrom?_of_no_alphanum (h : ∀ d ∈ ds, d.isAlphanum = false) :
    wordsFrom? name position (ds ++ t) = wordsFrom? name (position + ds.length) t := by
  induction ds generalizing position with
  | nil => rfl
  | cons d ds ih =>
    obtain ⟨hd, hds⟩ := List.forall_mem_cons.1 h
    have hpassed : Passed [] d := ⟨List.forall_mem_nil _, hd⟩
    have hskip : leadingLength (d :: (ds ++ t)) = 0 := leadingLength_of_passed hpassed
    rw [List.cons_append, wordsFrom?_of_skip hskip, ih hds, List.length_cons]
    congr 1
    omega

/-- Where an acronym may end, it may also end in front of the bytes. -/
theorem endsAcronym_byteChars (h : EndsAcronym rest) :
    EndsAcronym (byteChars (String.ofList rest)) := by
  cases h with
  | nil => exact .nil
  | digit hd =>
    rw [byteChars_of_ascii (isAsciiClass_isDigit _ hd)]
    exact .digit hd
  | capital hu hl =>
    rw [byteChars_of_ascii (isAsciiClass_isUpper _ hu),
      byteChars_of_ascii (isAsciiClass_isLower _ hl)]
    exact .capital hu hl

/-- A word that leads characters leads their bytes. -/
theorem leads_byteChars (h : Leads w rest) : Leads w (byteChars (String.ofList rest)) := by
  cases h with
  | acronym hne hw hrest => exact .acronym hne hw (endsAcronym_byteChars hrest)
  | small hne hw hrest => exact .small hne hw (head?_byteChars isAsciiClass_isLower hrest)
  | capitalized hw hrest => exact .capitalized hw (head?_byteChars isAsciiClass_isLower hrest)
  | digits hne hw hrest => exact .digits hne hw (head?_byteChars isAsciiClass_isDigit hrest)

/-- Behind any part of a name, the words of the rest are found. -/
theorem wordsFrom?_eq (p s : List Char) :
    wordsFrom? (String.ofList (p ++ s)) (byteLength p) (byteChars (String.ofList s)) =
      some ((words s).map String.ofList) := by
  induction s using reading_induction generalizing p with
  | nil => rw [words_nil, byteChars_ofList_nil, wordsFrom?, List.map_nil]
  | word w rest hlead ih =>
    have hbytes : byteChars (String.ofList w) = w :=
      byteChars_of_forall isAsciiClass_isAlphanum hlead.isAlphanum
    have hsize : byteLength p + w.length = byteLength (p ++ w) := by
      rw [byteLength_append,
        byteLength_of_ascii fun c hc => isAsciiClass_isAlphanum c (hlead.isAlphanum c hc)]
    have hrest := ih (p ++ w)
    rw [List.append_assoc] at hrest
    have hboth : byteChars (String.ofList (w ++ rest)) = w ++ byteChars (String.ofList rest) := by
      rw [String.ofList_append, byteChars_append, hbytes]
    rw [words_of_leads hlead, hboth, wordsFrom?_of_leads (leads_byteChars hlead), hsize,
      slice?_ofList, hrest]
    rfl
  | passed run d t hpassed ih =>
    have hnone : ∀ e ∈ charBytes d, e.isAlphanum = false :=
      fun e he => class_of_mem_charBytes isAsciiClass_isAlphanum hpassed.stop he
    have hlength := length_charBytes d
    -- the first byte of `d` ends the capitals, the others stand alone
    obtain ⟨e, es, hbytes⟩ := List.exists_cons_of_ne_nil (charBytes_ne_nil d)
    rw [hbytes] at hnone hlength
    obtain ⟨he, hes⟩ := List.forall_mem_cons.1 hnone
    have hall : byteChars (String.ofList (run ++ d :: t)) =
        run ++ e :: (es ++ byteChars (String.ofList t)) := by
      rw [String.ofList_append, byteChars_append, byteChars_ofList_cons, hbytes,
        byteChars_of_forall isAsciiClass_isUpper hpassed.run_upper, List.cons_append]
    have hsize : byteLength p + (run.length + 1) + es.length = byteLength (p ++ (run ++ [d])) := by
      have hd : byteLength [d] = d.utf8Size := Nat.add_zero _
      rw [byteLength_append, byteLength_append, hd, ← hlength, List.length_cons,
        byteLength_of_ascii fun c hc => isAsciiClass_isUpper c (hpassed.run_upper c hc)]
      omega
    have hrest := ih (p ++ (run ++ [d]))
    simp only [List.append_assoc, List.singleton_append] at hrest
    rw [words_of_passed hpassed, hall, wordsFrom?_of_passed ⟨hpassed.run_upper, he⟩,
      wordsFrom?_of_no_alphanum hes, hsize, ← hrest]

end Words

/-- The words of a name are cut out between offsets of the name. -/
theorem words?_eq (name : String) : words? name = some (wordsOf name) := by
  have h := wordsFrom?_eq [] name.toList
  rwa [List.nil_append, String.ofList_toList] at h

/-- The camel-case form of a name, its words cut out by offsets. -/
def camelCase? (name : String) : Option String := do
  match ← words? name with
  | [] => return decapitalize name
  | w :: ws => return String.ofList (joinCamel ((w :: ws).map String.toList))

/-- The camel-case form is that on characters. -/
theorem camelCase?_eq (name : String) : camelCase? name = some (camelCase name) := by
  rw [camelCase?, words?_eq, wordsOf, camelCase, camelCaseChars]
  cases words name.toList with
  | nil => rfl
  | cons w ws =>
    simp [List.map_map, Function.comp_def]

/-! ## Segments -/

/-- The segments of an identifier from the one that starts at an offset, given the place of the
next byte and the bytes from there on. -/
def segmentsFrom? (name : String) (start index : Nat) : List Char → Option (List String)
  | [] => do return [← slice? name start name.utf8ByteSize]
  | b :: bs =>
    if b.isUpper then do
      let g ← slice? name start index
      let gs ← segmentsFrom? name index (index + 1) bs
      return g :: gs
    else segmentsFrom? name start (index + 1) bs

/-- The segments of an identifier. -/
def segments? (name : String) : Option (List String) := segmentsFrom? name 0 0 (byteChars name)

section Segments

variable {name : String} {start index : Nat} {ds t : List Char}

/-- Bytes that are no capitals go to the segment at hand. -/
theorem segmentsFrom?_of_no_capital (h : ∀ d ∈ ds, d.isUpper = false) :
    segmentsFrom? name start index (ds ++ t) = segmentsFrom? name start (index + ds.length) t := by
  induction ds generalizing index with
  | nil => rfl
  | cons d ds ih =>
    obtain ⟨hd, hds⟩ := List.forall_mem_cons.1 h
    rw [List.cons_append, segmentsFrom?, hd, if_neg Bool.false_ne_true, ih hds, List.length_cons]
    congr 1
    omega

/-- Behind any part of an identifier and the beginning of a segment, the segments are found. -/
theorem segmentsFrom?_eq (p g s : List Char) {first : List Char} {others : List (List Char)}
    (hs : segmentChars s = first :: others) :
    segmentsFrom? (String.ofList (p ++ (g ++ s))) (byteLength p) (byteLength (p ++ g))
        (byteChars (String.ofList s)) =
      some (((g ++ first) :: others).map String.ofList) := by
  induction s generalizing p g first others with
  | nil =>
    obtain ⟨rfl, rfl⟩ := List.cons.inj hs
    rw [byteChars_ofList_nil, segmentsFrom?, List.append_nil, slice?_to_end]
    rfl
  | cons c s ih =>
    obtain ⟨head, tail, htail⟩ := exists_first_segment s
    rw [segmentChars_cons htail] at hs
    by_cases hc : c.isUpper = true
    · -- the segment at hand ends in front of `c`
      rw [if_pos hc] at hs
      obtain ⟨rfl, rfl⟩ := List.cons.inj hs
      have hsize : byteLength (p ++ g ++ [c]) = byteLength (p ++ g) + 1 := by
        rw [byteLength_append, byteLength_of_ascii
          (List.forall_mem_singleton.2 (isAsciiClass_isUpper c hc))]
        rfl
      have hrest := ih (p ++ g) [c] htail
      rw [hsize, List.append_assoc, List.singleton_append] at hrest
      rw [byteChars_of_ascii (isAsciiClass_isUpper c hc), segmentsFrom?, if_pos hc, slice?_ofList,
        hrest, List.append_nil]
      rfl
    · rw [if_neg hc] at hs
      obtain ⟨rfl, rfl⟩ := List.cons.inj hs
      rw [Bool.not_eq_true] at hc
      have hsize :
          byteLength (p ++ g) + (charBytes c).length = byteLength (p ++ (g ++ [c])) := by
        rw [length_charBytes, ← List.append_assoc, byteLength_append (p ++ g)]
        exact congrArg _ (Nat.add_zero _).symm
      have hrest := ih p (g ++ [c]) htail
      simp only [List.append_assoc, List.singleton_append] at hrest
      rw [byteChars_ofList_cons, segmentsFrom?_of_no_capital
        (fun d hd => class_of_mem_charBytes isAsciiClass_isUpper hc hd), hsize, hrest]

end Segments

/-- The segments of an identifier are cut out between offsets of it. -/
theorem segments?_eq (name : String) : segments? name = some (segments name) := by
  obtain ⟨first, others, hs⟩ := exists_first_segment name.toList
  have h := segmentsFrom?_eq [] [] name.toList hs
  simp only [List.nil_append, String.ofList_toList, ← hs] at h
  exact h

end Eponym.Bytewise
