/-
# Files of subjects that are stored again

The subjects in a file are written as JSON and read again as they were, exactly if the types
of each are read back from what is printed for them.

* `sayable_encodeBatch` : JSON can say what a batch is stored as;
* `rereads` : which types, and which subjects of a file, are read again.
-/
import Eponym.Proofs.Data.Json
import Eponym.Proofs.Schema.Subject
import Eponym.Proofs.TypeExpression.Rereading
import Eponym.Schema.File

namespace Eponym

open Data TypeExpression

namespace Subject

/-! ## Subjects as JSON -/

theorem IsLeaf.sayable {v : Value} (h : IsLeaf v) (l : Nat) : Json.Sayable l v := by
  cases h with
  | text s => exact .text s
  | natural n => exact .natural n.toNat_lt

/-- JSON can say what a subject is stored as. -/
theorem sayable_encode (x : Subject) (l : Nat) : Json.Sayable (l + 1) x.encode := by
  rw [encode_eq]
  refine .object (List.forall_mem_cons.2 ⟨.text x.kind, ?_⟩)
  exact fun e he => (isField_fields x e he).leaf.sayable l

/-- JSON can say what a batch is stored as. -/
theorem sayable_encodeBatch (xs : List Subject) :
    Json.Sayable Json.levelLimit (encodeBatch xs) := by
  refine .object (l := 126) (List.forall_mem_singleton.2 (.list (l := 125) ?_))
  intro v hv
  obtain ⟨x, -, rfl⟩ := List.mem_map.1 hv
  exact sayable_encode x 124

/-- What is written as JSON is decoded from the data. -/
theorem decodeText_write_iff {α : Type} {d : Decoder α} {v : Value} {a : α}
    (h : Json.Sayable Json.levelLimit v) :
    decodeText d .json (Json.write v) = .ok a ↔ d v = .ok a := by
  have hread : Format.json.read (Json.write v) = some v := Json.read_write h
  rw [decodeText_eq_ok_iff, hread]
  simp

/-- A subject that is written as JSON is read again exactly if each of its types is read back
from what is printed for it. -/
theorem decodeText_encode_iff {x : Subject} :
    decodeText decode .json (Json.write x.encode) = .ok x ↔
      ∀ d ∈ x.types, Descriptor.parse d.text = .ok d := by
  rw [decodeText_write_iff (sayable_encode x 126), decode_encode_iff]

/-- So it is with each subject of a batch. -/
theorem decodeText_encodeBatch_iff {xs : List Subject} :
    decodeText decodeBatch .json (Json.write (encodeBatch xs)) = .ok xs ↔
      ∀ x ∈ xs, ∀ d ∈ x.types, Descriptor.parse d.text = .ok d := by
  rw [decodeText_write_iff (sayable_encodeBatch xs), decodeBatch_encodeBatch_iff]
  exact forall₂_congr fun x _ => decode_encode_iff

/-! ## What was read from a file -/

/-- The types of the subjects in a file were read from expressions. -/
theorem exists_parse_of_batchOfFile {path : String} {content : Content} {xs : List Subject}
    (h : batchOfFile path content = .ok xs) :
    ∀ x ∈ xs, ∀ d ∈ x.types, ∃ s, Descriptor.parse s = .ok d := by
  cases content with
  | error failure => cases h
  | ok s =>
    obtain ⟨v, -, hv⟩ := decodeText_eq_ok_iff.1 h
    intro x hx
    obtain ⟨w, hw⟩ := exists_of_mem_decodeBatch hv x hx
    exact types_of_decode hw

end Subject

/-- What was read from an expression is read back from what is printed, and what was read from
a file of subjects is read again from JSON, exactly if each name of a class in it starts with
a letter or an underscore. -/
theorem rereads (s : String) (d : Descriptor) (path : String) (content : Content)
    (xs : List Subject) :
    (Descriptor.parse s = .ok d →
      (Descriptor.parse d.text = .ok d ↔ ∀ n ∈ d.classNames, StartsPlainly n)) ∧
    (Subject.batchOfFile path content = .ok xs →
      (decodeText Subject.decodeBatch .json (Json.write (Subject.encodeBatch xs)) = .ok xs ↔
        ∀ x ∈ xs, ∀ d ∈ x.types, ∀ n ∈ d.classNames, StartsPlainly n) ∧
      ∀ x ∈ xs, (decodeText Subject.decode .json (Json.write x.encode) = .ok x ↔
        ∀ d ∈ x.types, ∀ n ∈ d.classNames, StartsPlainly n)) := by
  refine ⟨parse_text_eq_ok_iff, fun h => ?_⟩
  have hparsed := Subject.exists_parse_of_batchOfFile h
  have htypes : ∀ x ∈ xs, ((∀ d ∈ x.types, Descriptor.parse d.text = .ok d) ↔
      ∀ d ∈ x.types, ∀ n ∈ d.classNames, StartsPlainly n) := by
    intro x hx
    refine forall₂_congr fun d hd => ?_
    obtain ⟨s, hs⟩ := hparsed x hx d hd
    exact parse_text_eq_ok_iff hs
  refine ⟨?_, fun x hx => ?_⟩
  · rw [Subject.decodeText_encodeBatch_iff]
    exact forall₂_congr htypes
  · rw [Subject.decodeText_encode_iff]
    exact htypes x hx

/-- A name that starts with a digit behind a separator is read, but not read back; a subject
whose type is a plain name is read again. -/
theorem rereads_plain_only :
    (Descriptor.parse "\\1" = .ok (.ofName "1") ∧
      Descriptor.parse (Descriptor.ofName "1").text ≠ .ok (.ofName "1")) ∧
    decodeText Subject.decodeBatch .json
        (Json.write (Subject.encodeBatch [.typed .variable "user" (.ofName "User") none])) =
      .ok [.typed .variable "user" (.ofName "User") none] := by
  have hdigit : Descriptor.parse "\\1" = .ok (.ofName "1") := rfl
  have htext : Descriptor.parse (Descriptor.ofName "User").text = .ok (.ofName "User") := rfl
  have hbatch : decodeText Subject.decodeBatch .json
      (Json.write (Subject.encodeBatch [.typed .variable "user" (.ofName "User") none])) =
      .ok [.typed .variable "user" (.ofName "User") none] := by
    rw [Subject.decodeText_encodeBatch_iff]
    exact List.forall_mem_singleton.2 (List.forall_mem_singleton.2 htext)
  have hformat : Format.ofPath "subjects.json" = .json := by
    rw [Format.ofPath_eq_json_iff]
    decide
  have hfile : Subject.batchOfFile "subjects.json"
      (.ok (Json.write (Subject.encodeBatch [.typed .variable "user" (.ofName "User") none]))) =
      .ok [.typed .variable "user" (.ofName "User") none] := by
    unfold Subject.batchOfFile
    rw [hformat]
    exact hbatch
  obtain ⟨hread, hreread⟩ := rereads "\\1" (.ofName "1") "subjects.json" _ _
  refine ⟨⟨hdigit, fun h => ?_⟩, ?_⟩
  · have hstart := (hread hdigit).1 h
    exact absurd hstart (by decide)
  · have hplain : ∀ n ∈ (Descriptor.ofName "User").classNames, StartsPlainly n := by decide
    refine (hreread hfile).1.2 ?_
    exact List.forall_mem_singleton.2 (List.forall_mem_singleton.2 hplain)

end Eponym
