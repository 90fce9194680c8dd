/-
# Where `map` is a segment

A name is cut in front of each ASCII capital and nowhere else, so a segment that reads `map` in
some letter case is spelled in one way only: `map` if it is the first, `Map` if it is a later one.
It is found where one of these stands and the name ends behind it or goes on with a capital.

* `reads_map_of_no_capital`, `reads_map_of_ledByCapital` : how a segment that reads `map` is spelled;
* `exists_map_segment_iff` : where it stands in a text;
* `map_segments_exact` : the segments of any identifier, and the names with such a segment.
-/
import Eponym.Convention.CollectionName
import Eponym.Proofs.Identifier.Segment
import Eponym.Proofs.Identifier.Word

namespace Eponym.CollectionName

section MapSegment

variable {g s : List Char}

/-! ## Spellings -/

theorem map_toLower_of_no_capital (h : s.any Char.isUpper = false) : s.map Char.toLower = s := by
  rw [List.any_eq_false] at h
  rw [List.map_congr_left fun c hc => Char.toLower_eq_of_not_isUpper (h c hc), List.map_id']

theorem reads_map_of_no_capital (hg : g.any Char.isUpper = false) :
    g.map Char.toLower = "map".toList ↔ g = "map".toList := by
  rw [map_toLower_of_no_capital hg]

/-- Of the texts that begin with their only capital, only `Map` reads `map`. -/
theorem reads_map_of_ledByCapital (hg : LedByCapital g) :
    g.map Char.toLower = "map".toList ↔ g = "Map".toList := by
  constructor
  · intro hread
    obtain ⟨u, t, rfl, hu, ht⟩ := hg
    rw [List.map_cons, map_toLower_of_no_capital ht] at hread
    obtain ⟨hm, rfl⟩ := List.cons.inj hread
    have hcapital : u = 'M' := by
      rw [← toUpper_toLower hu, hm]
      rfl
    rw [hcapital]
    rfl
  · rintro rfl
    rfl

/-! ## Places -/

/-- A segment reads `map` exactly if `map` begins the text, or `Map` stands in it, and nothing or
a capital is behind that. -/
theorem exists_map_segment_iff :
    (∃ k ∈ segmentChars s, k.map Char.toLower = "map".toList) ↔
      ∃ r : List Char, (∀ c ∈ r.head?, c.isUpper = true) ∧
        (s = "map".toList ++ r ∨ ∃ p, s = p ++ "Map".toList ++ r) := by
  obtain ⟨g, gs, hs⟩ := exists_first_segment s
  obtain ⟨hsplit, hg, hgs⟩ := segmentChars_eq_cons_iff.1 hs
  constructor
  · rintro ⟨k, hk, hread⟩
    rw [hs] at hk
    rcases List.mem_cons.1 hk with rfl | hk
    · refine ⟨gs.flatten, head?_isUpper_iff.2 ⟨gs, rfl, hgs⟩, .inl ?_⟩
      rw [hsplit, (reads_map_of_no_capital hg).1 hread]
    · obtain ⟨front, back, rfl⟩ := List.append_of_mem hk
      have hback : ∀ j ∈ back, LedByCapital j := fun j hj =>
        hgs j (List.mem_append_right front (List.mem_cons_of_mem k hj))
      refine ⟨back.flatten, head?_isUpper_iff.2 ⟨back, rfl, hback⟩, .inr ⟨g ++ front.flatten, ?_⟩⟩
      rw [hsplit, List.flatten_append, List.flatten_cons,
        (reads_map_of_ledByCapital (hgs k hk)).1 hread, List.append_assoc, List.append_assoc]
  · rintro ⟨r, hr, hstands⟩
    -- what is behind is made of later segments
    obtain ⟨back, rfl, hback⟩ := head?_isUpper_iff.1 hr
    rcases hstands with rfl | ⟨p, rfl⟩
    · have hsegments : segmentChars ("map".toList ++ back.flatten) = "map".toList :: back :=
        segmentChars_append_flatten rfl hback
      refine ⟨"map".toList, ?_, rfl⟩
      rw [hsegments]
      exact List.mem_cons_self
    · obtain ⟨h, front, hp⟩ := exists_first_segment p
      obtain ⟨rfl, hh, hfront⟩ := segmentChars_eq_cons_iff.1 hp
      have hMap : LedByCapital "Map".toList := ⟨'M', "ap".toList, rfl, rfl, rfl⟩
      have hsegments := segmentChars_append_flatten hh
        (List.forall_mem_append.2 ⟨hfront, List.forall_mem_cons.2 ⟨hMap, hback⟩⟩)
      rw [List.flatten_append, List.flatten_cons, ← List.append_assoc,
        ← List.append_assoc] at hsegments
      refine ⟨"Map".toList, ?_, rfl⟩
      rw [hsegments]
      exact List.mem_cons_of_mem h (List.mem_append_right front List.mem_cons_self)

end MapSegment

/-! ## Names -/

/-- A name has a `Map` segment exactly if it begins with `map` or has `Map` in it, and nothing or a
capital is behind that. -/
theorem hasMapSegment_iff_stands {name : String} :
    hasMapSegment name = true ↔
      ∃ r : String, (∀ c ∈ r.toList.head?, c.isUpper = true) ∧
        (name = "map" ++ r ∨ ∃ p, name = p ++ "Map" ++ r) := by
  rw [hasMapSegment_iff, exists_map_segment_iff]
  constructor
  · rintro ⟨r, hr, hstands⟩
    refine ⟨String.ofList r, by rwa [String.toList_ofList], ?_⟩
    rcases hstands with h | ⟨p, h⟩
    · exact .inl (by rw [← String.toList_inj, h]; simp)
    · exact .inr ⟨String.ofList p, by rw [← String.toList_inj, h]; simp⟩
  · rintro ⟨r, hr, rfl | ⟨p, rfl⟩⟩
    · exact ⟨r.toList, hr, .inl (String.toList_append ..)⟩
    · exact ⟨r.toList, hr, .inr ⟨p.toList, by simp⟩⟩

/-- The segments of an identifier make it up; the first has no ASCII capital, and each later one
begins with its only one.  So a name has a `Map` segment exactly if it begins with `map` or has
`Map` in it, and nothing or a capital is behind that. -/
theorem map_segments_exact (name : String) :
    String.join (segments name) = name ∧
      (∃ first later, segments name = first :: later ∧ first.toList.any Char.isUpper = false ∧
        ∀ s ∈ later, LedByCapital s.toList) ∧
      (hasMapSegment name = true ↔
        ∃ r : String, (∀ c ∈ r.toList.head?, c.isUpper = true) ∧
          (name = "map" ++ r ∨ ∃ p, name = p ++ "Map" ++ r)) := by
  refine ⟨?_, ?_, hasMapSegment_iff_stands⟩
  · rw [segments, join_map_ofList, flatten_segmentChars, String.ofList_toList]
  · obtain ⟨g, gs, hs⟩ := exists_first_segment name.toList
    obtain ⟨-, hg, hgs⟩ := segmentChars_eq_cons_iff.1 hs
    refine ⟨String.ofList g, gs.map String.ofList, by rw [segments, hs]; rfl, ?_, ?_⟩
    · rwa [String.toList_ofList]
    · intro s hs
      obtain ⟨k, hk, rfl⟩ := List.mem_map.1 hs
      rw [String.toList_ofList]
      exact hgs k hk

/-- Parts of words and other spellings are not found. -/
example : hasMapSegment "bitmapMappedNodeMAP" = false := by decide +kernel

end Eponym.CollectionName
