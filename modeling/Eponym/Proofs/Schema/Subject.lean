/-
# Subjects that are stored again

A subject keeps its types, which are stored as expressions.  So a subject that was read is
stored and read again as it was exactly if the expressions of its types are read back.

* `Subject.types` : the types of a subject;
* `types_of_decode` : the types of a subject that was read were read from expressions;
* `decode_encode_iff` : which subjects are read again.
-/
import Eponym.Proofs.Data.Decoder
import Eponym.Schema.Subject

namespace Eponym

open Data

/-- An expression is decoded to what it is parsed as. -/
theorem Descriptor.decodeExpression_text_iff {s : String} {d : Descriptor} :
    decodeExpression (.text s) = .ok d ↔ parse s = .ok d := by
  unfold decodeExpression
  rw [Except.bind_eq_ok_iff]
  cases h : parse s with
  | ok e => simp [Data.text, h]
  | error f => simp [Data.text, h]

/-- What is decoded as a type was parsed from some text. -/
theorem Descriptor.exists_parse_of_decodeExpression {v : Value} {d : Descriptor}
    (h : decodeExpression v = .ok d) : ∃ s, parse s = .ok d := by
  obtain ⟨s, hs, -⟩ := Except.bind_eq_ok_iff.1 h
  refine ⟨s, ?_⟩
  rw [← decodeExpression_text_iff]
  unfold decodeExpression at *
  rw [hs] at h
  exact h

namespace Subject

/-! ## Fields -/

/-- The types of a subject, each with the name of its field. -/
def typeFields : Subject → List (String × Descriptor)
  | typed _ _ type _ => [("type", type)]
  | promotedProperty _ type declared _ =>
    ("type", type) :: (declared.map fun d => ("declared_type", d)).toList
  | foreachValue _ _ type _ => [("iterable_type", type)]

/-- The types of a subject. -/
def types (x : Subject) : List Descriptor := x.typeFields.map Prod.snd

/-- The kind of a subject. -/
def tag : Subject → Tag
  | typed place _ _ _ => .typed place
  | promotedProperty _ _ _ _ => .promotedProperty
  | foreachValue _ _ _ _ => .foreachValue

/-- The name of the kind of a subject. -/
def kind : Subject → String
  | typed place _ _ _ => placeName place
  | promotedProperty _ _ _ _ => "promoted_property"
  | foreachValue _ _ _ _ => "foreach_value"

/-- The entries of a stored subject that are not its kind. -/
def fields : Subject → Entries
  | typed _ name type line => [("name", .text name), ("type", encodeType type)] ++ lineEntry line
  | promotedProperty name type declared line =>
    [("name", .text name), ("type", encodeType type)] ++
      (declared.map fun d => ("declared_type", encodeType d)).toList ++ lineEntry line
  | foreachValue name iterable type line =>
    [("value_name", .text name)] ++
      (iterable.map fun i => ("iterable_name", Value.text i)).toList ++
      [("iterable_type", encodeType type)] ++ lineEntry line

theorem encode_eq (x : Subject) : x.encode = .object (("kind", .text x.kind) :: x.fields) := by
  cases x <;> rfl

theorem decodeTag_kind (x : Subject) : decodeTag (.text x.kind) = .ok x.tag := by
  cases x with
  | typed place => cases place <;> rfl
  | promotedProperty => rfl
  | foreachValue => rfl

/-- Each type of a subject is stored under the name of its field. -/
theorem lookup_fields {x : Subject} {f : String × Descriptor} (hf : f ∈ x.typeFields) :
    x.fields.lookup f.1 = some (encodeType f.2) := by
  cases x with
  | typed place name type line =>
    obtain rfl := List.mem_singleton.1 hf
    rfl
  | promotedProperty name type declared line =>
    rcases List.mem_cons.1 hf with rfl | hf
    · rfl
    · cases declared with
      | none => cases hf
      | some d =>
        obtain rfl := List.mem_singleton.1 hf
        rfl
  | foreachValue name iterable type line =>
    obtain rfl := List.mem_singleton.1 hf
    cases iterable <;> rfl

/-! ## What was read -/

/-- The entries that the fields of a subject of the given kind are read from. -/
def knownEntries : Tag → List (String × Decoder Unit)
  | .typed _ => [("name", check Data.text), ("type", check Descriptor.decodeExpression),
      ("line", check (nullable word))]
  | .promotedProperty => [("name", check Data.text), ("type", check Descriptor.decodeExpression),
      ("declared_type", check (nullable Descriptor.decodeExpression)),
      ("line", check (nullable word))]
  | .foreachValue => [("value_name", check Data.text),
      ("iterable_name", check (nullable Data.text)),
      ("iterable_type", check Descriptor.decodeExpression), ("line", check (nullable word))]

/-- A subject with one type is decoded field by field. -/
theorem decodeFields_typed_eq_ok_iff {place : Place} {es : Entries} {x : Subject} :
    decodeFields es (.typed place) = .ok x ↔ inspect (knownEntries (.typed place)) es = .ok () ∧
      ∃ name type line, required Data.text "name" es = .ok name ∧
        required Descriptor.decodeExpression "type" es = .ok type ∧
        optional (nullable word) none "line" es = .ok line ∧
        x = .typed place name type line := by
  simp only [decodeFields, Except.bind_eq_ok_iff]
  constructor
  · rintro ⟨_, hin, name, hname, type, htype, line, hline, ⟨⟩⟩
    exact ⟨hin, name, type, line, hname, htype, hline, rfl⟩
  · rintro ⟨hin, name, type, line, hname, htype, hline, rfl⟩
    exact ⟨(), hin, name, hname, type, htype, line, hline, rfl⟩

/-- A promoted property is decoded field by field. -/
theorem decodeFields_promotedProperty_eq_ok_iff {es : Entries} {x : Subject} :
    decodeFields es .promotedProperty = .ok x ↔
      inspect (knownEntries .promotedProperty) es = .ok () ∧
      ∃ name type declared line, required Data.text "name" es = .ok name ∧
        required Descriptor.decodeExpression "type" es = .ok type ∧
        optional (nullable Descriptor.decodeExpression) none "declared_type" es = .ok declared ∧
        optional (nullable word) none "line" es = .ok line ∧
        x = .promotedProperty name type declared line := by
  simp only [decodeFields, Except.bind_eq_ok_iff]
  constructor
  · rintro ⟨_, hin, name, hname, type, htype, declared, hdeclared, line, hline, ⟨⟩⟩
    exact ⟨hin, name, type, declared, line, hname, htype, hdeclared, hline, rfl⟩
  · rintro ⟨hin, name, type, declared, line, hname, htype, hdeclared, hline, rfl⟩
    exact ⟨(), hin, name, hname, type, htype, declared, hdeclared, line, hline, rfl⟩

/-- A loop variable is decoded field by field. -/
theorem decodeFields_foreachValue_eq_ok_iff {es : Entries} {x : Subject} :
    decodeFields es .foreachValue = .ok x ↔ inspect (knownEntries .foreachValue) es = .ok () ∧
      ∃ name iterable type line, required Data.text "value_name" es = .ok name ∧
        optional (nullable Data.text) none "iterable_name" es = .ok iterable ∧
        required Descriptor.decodeExpression "iterable_type" es = .ok type ∧
        optional (nullable word) none "line" es = .ok line ∧
        x = .foreachValue name iterable type line := by
  simp only [decodeFields, Except.bind_eq_ok_iff]
  constructor
  · rintro ⟨_, hin, name, hname, iterable, hiterable, type, htype, line, hline, ⟨⟩⟩
    exact ⟨hin, name, iterable, type, line, hname, hiterable, htype, hline, rfl⟩
  · rintro ⟨hin, name, iterable, type, line, hname, hiterable, htype, hline, rfl⟩
    exact ⟨(), hin, name, hname, iterable, hiterable, type, htype, line, hline, rfl⟩

/-- Each type of a subject that was decoded stands in its field. -/
theorem typeFields_of_decodeFields {es : Entries} {tag : Tag} {x : Subject}
    (h : decodeFields es tag = .ok x) {f : String × Descriptor} (hf : f ∈ x.typeFields) :
    ∃ v, es.lookup f.1 = some v ∧ Descriptor.decodeExpression v = .ok f.2 := by
  cases tag with
  | typed place =>
    obtain ⟨-, name, type, line, -, htype, -, rfl⟩ := decodeFields_typed_eq_ok_iff.1 h
    obtain rfl := List.mem_singleton.1 hf
    exact required_eq_ok_iff.1 htype
  | promotedProperty =>
    obtain ⟨-, name, type, declared, line, -, htype, hdeclared, -, rfl⟩ :=
      decodeFields_promotedProperty_eq_ok_iff.1 h
    rcases List.mem_cons.1 hf with rfl | hf
    · exact required_eq_ok_iff.1 htype
    · cases declared with
      | none => cases hf
      | some d =>
        obtain rfl := List.mem_singleton.1 hf
        exact optional_nullable_sound hdeclared
  | foreachValue =>
    obtain ⟨-, name, iterable, type, line, -, -, htype, -, rfl⟩ :=
      decodeFields_foreachValue_eq_ok_iff.1 h
    obtain rfl := List.mem_singleton.1 hf
    exact required_eq_ok_iff.1 htype

/-- A subject is decoded from the fields of an object. -/
theorem exists_decodeFields_of_decode {v : Value} {x : Subject} (h : decode v = .ok x) :
    ∃ es tag, decodeFields es tag = .ok x := by
  unfold decode at h
  obtain ⟨stored, -, h⟩ := Except.bind_eq_ok_iff.1 h
  simp only at h
  split at h
  · obtain ⟨_, hfault, -⟩ := Except.bind_eq_ok_iff.1 h
    cases hfault
  · obtain ⟨tag, -, h⟩ := Except.bind_eq_ok_iff.1 h
    obtain ⟨es, -, h⟩ := Except.bind_eq_ok_iff.1 h
    split at h
    · exact ⟨es, tag, h⟩
    · cases h

/-- The types of a subject that was decoded were read from expressions. -/
theorem types_of_decode {v : Value} {x : Subject} (h : decode v = .ok x) :
    ∀ d ∈ x.types, ∃ s, Descriptor.parse s = .ok d := by
  intro d hd
  obtain ⟨f, hf, rfl⟩ := List.mem_map.1 hd
  obtain ⟨es, tag, h⟩ := exists_decodeFields_of_decode h
  obtain ⟨v, -, hv⟩ := typeFields_of_decodeFields h hf
  exact Descriptor.exists_parse_of_decodeExpression hv

/-! ## What is stored -/

/-- A value that is stored as it is: a text, or a number that fits a machine word. -/
inductive IsLeaf : Value → Prop
  | text (s : String) : IsLeaf (.text s)
  | natural (n : UInt64) : IsLeaf (.natural n.toNat)

/-- An entry that is not the kind, and stored as it is. -/
structure IsField (e : String × Value) : Prop where
  name_ne : e.1 ≠ "kind"
  leaf : IsLeaf e.2

theorem IsLeaf.resolve {v : Value} (h : IsLeaf v) : v.resolve = v ∧ v.isSound = true := by
  cases h with
  | text s => exact ⟨Value.resolve_text s, rfl⟩
  | natural n => exact ⟨Value.resolve_natural _, rfl⟩

/-- Fields are read as they were stored. -/
theorem mapM_fields {tag : Tag} {es : Entries} (hes : ∀ e ∈ es, IsField e) :
    ((es.map fun e => (Value.text e.1, e.2)).mapM fun e =>
      (fieldName tag e.1).map (·, e.2.resolve)) = .ok es := by
  induction es with
  | nil => rfl
  | cons e es ih =>
    obtain ⟨he, hes⟩ := List.forall_mem_cons.1 hes
    rw [List.map_cons, List.mapM_cons, ih hes, fieldName_text, he.leaf.resolve.1]
    rfl

/-- The kind is told from the fields. -/
theorem partition_fields {kind : Value} {es : Entries} (hes : ∀ e ∈ es, IsField e) :
    ((Value.text "kind", kind) :: es.map fun e => (Value.text e.1, e.2)).partition
      (fun e => e.1.keyText? = some "kind") =
      ([(.text "kind", kind)], es.map fun e => (.text e.1, e.2)) := by
  have hfields : ∀ e ∈ es.map fun e => (Value.text e.1, e.2), ¬ e.1.keyText? = some "kind" := by
    intro e he
    obtain ⟨f, hf, rfl⟩ := List.mem_map.1 he
    rw [Value.keyText?_text]
    exact fun h => (hes f hf).name_ne (Option.some.inj h)
  rw [List.partition_eq_filter_filter, List.filter_cons_of_pos (by simp),
    List.filter_cons_of_neg (by simp)]
  refine Prod.ext (congrArg (List.cons _) ?_) ?_
  · rw [List.filter_eq_nil_iff]
    intro e he
    simpa using hfields e he
  · show List.filter _ _ = _
    rw [List.filter_eq_self]
    intro e he
    simpa using hfields e he

/-- A stored subject is decoded from its fields. -/
theorem decode_object {kind : String} {tag : Tag} {es : Entries}
    (hkind : decodeTag (.text kind) = .ok tag) (hes : ∀ e ∈ es, IsField e) :
    decode (.object (("kind", .text kind) :: es)) = decodeFields es tag := by
  have hsound : (Value.object es).isSound = true := by
    rw [Value.isSound_object, List.all_eq_true]
    exact fun e he => (hes e he).leaf.resolve.2
  have htag : required decodeTag "kind" [("kind", .text kind)] = .ok tag := hkind
  have hstored : storedEntries (.object (("kind", .text kind) :: es)) =
      .ok ((.text "kind", .text kind) :: es.map fun e => (.text e.1, e.2)) := rfl
  unfold decode
  rw [hstored]
  simp only [bind, Except.bind]
  rw [partition_fields hes]
  simp only [List.map_cons, List.map_nil, htag, mapM_fields hes]
  show (if (Value.object es).isSound = true then _ else _) = _
  rw [if_pos hsound]

/-- The fields of a subject are read as they were stored. -/
theorem isField_fields (x : Subject) : ∀ e ∈ x.fields, IsField e := by
  have htext : ∀ {name : String} (s : String), name ≠ "kind" → IsField (name, .text s) :=
    fun s hname => ⟨hname, .text s⟩
  have hline : ∀ line, ∀ e ∈ lineEntry line, IsField e := by
    intro line
    cases line with
    | none => exact List.forall_mem_nil _
    | some n =>
      have hname : "line" ≠ "kind" := by decide
      exact List.forall_mem_singleton.2 ⟨hname, .natural n⟩
  cases x with
  | typed place name type line =>
    refine List.forall_mem_append.2 ⟨?_, hline line⟩
    exact List.forall_mem_cons.2 ⟨htext _ (by decide),
      List.forall_mem_singleton.2 (htext _ (by decide))⟩
  | promotedProperty name type declared line =>
    refine List.forall_mem_append.2 ⟨List.forall_mem_append.2 ⟨?_, ?_⟩, hline line⟩
    · exact List.forall_mem_cons.2 ⟨htext _ (by decide),
        List.forall_mem_singleton.2 (htext _ (by decide))⟩
    · cases declared with
      | none => exact List.forall_mem_nil _
      | some d => exact List.forall_mem_singleton.2 (htext _ (by decide))
  | foreachValue name iterable type line =>
    refine List.forall_mem_append.2 ⟨List.forall_mem_append.2 ⟨?_, ?_⟩, hline line⟩
    · refine List.forall_mem_append.2 ⟨List.forall_mem_singleton.2 (htext _ (by decide)), ?_⟩
      cases iterable with
      | none => exact List.forall_mem_nil _
      | some i => exact List.forall_mem_singleton.2 (htext _ (by decide))
    · exact List.forall_mem_singleton.2 (htext _ (by decide))

/-! ## What is read again -/

/-- A line is read back if there is one. -/
theorem decode_line {es : Entries} {line : Option UInt64}
    (h : es.lookup "line" = line.map fun n => .natural n.toNat) :
    optional (nullable word) none "line" es = .ok line := by
  cases line with
  | none => exact optional_of_lookup_none h
  | some n =>
    rw [optional_of_lookup h]
    exact nullable_word_natural n

/-- A line has a value if there is one. -/
theorem hasValue_line {known : List (String × Decoder Unit)}
    (h : known.lookup "line" = some (check (nullable word))) (line : Option UInt64) :
    ∀ e ∈ lineEntry line, HasValue known e := by
  cases line with
  | none => exact List.forall_mem_nil _
  | some n => exact List.forall_mem_singleton.2 (.of_lookup h (nullable_word_natural n))

/-- The fields of a subject with one type are read back if the type is. -/
theorem decodeFields_typed {place : Place} {name : String} {type : Descriptor}
    {line : Option UInt64} (ht : Descriptor.decodeExpression (encodeType type) = .ok type) :
    decodeFields (fields (.typed place name type line)) (.typed place) =
      .ok (.typed place name type line) := by
  have hline : (fields (.typed place name type line)).lookup "line" =
      line.map fun n => .natural n.toNat := by
    cases line <;> rfl
  have hvalues : ∀ e ∈ fields (.typed place name type line),
      HasValue (knownEntries (.typed place)) e := by
    refine List.forall_mem_append.2 ⟨List.forall_mem_cons.2 ⟨.of_lookup rfl rfl, ?_⟩, ?_⟩
    · exact List.forall_mem_singleton.2 (.of_lookup rfl ht)
    · exact hasValue_line rfl line
  refine decodeFields_typed_eq_ok_iff.2 ⟨inspect_eq_ok_iff.2 ⟨?_, hvalues⟩, ?_⟩
  · cases line <;> rfl
  · exact ⟨name, type, line, rfl, ht, decode_line hline, rfl⟩

/-- The fields of a promoted property are read back if its types are. -/
theorem decodeFields_promotedProperty {name : String} {type : Descriptor}
    {declared : Option Descriptor} {line : Option UInt64}
    (ht : Descriptor.decodeExpression (encodeType type) = .ok type)
    (hd : ∀ d ∈ declared, Descriptor.decodeExpression (encodeType d) = .ok d) :
    decodeFields (fields (.promotedProperty name type declared line)) .promotedProperty =
      .ok (.promotedProperty name type declared line) := by
  have hline : (fields (.promotedProperty name type declared line)).lookup "line" =
      line.map fun n => .natural n.toNat := by
    cases declared <;> cases line <;> rfl
  have hnullable : ∀ d ∈ declared,
      nullable Descriptor.decodeExpression (encodeType d) = .ok (some d) := by
    intro d hmem
    show (Descriptor.decodeExpression (encodeType d)).map some = _
    rw [hd d hmem]
    rfl
  have hdeclared : optional (nullable Descriptor.decodeExpression) none "declared_type"
      (fields (.promotedProperty name type declared line)) = .ok declared := by
    cases declared with
    | none => cases line <;> rfl
    | some d => exact hnullable d rfl
  have hvalues : ∀ e ∈ fields (.promotedProperty name type declared line),
      HasValue (knownEntries .promotedProperty) e := by
    refine List.forall_mem_append.2 ⟨List.forall_mem_append.2 ⟨?_, ?_⟩, ?_⟩
    · exact List.forall_mem_cons.2 ⟨.of_lookup rfl rfl,
        List.forall_mem_singleton.2 (.of_lookup rfl ht)⟩
    · cases declared with
      | none => exact List.forall_mem_nil _
      | some d => exact List.forall_mem_singleton.2 (.of_lookup rfl (hnullable d rfl))
    · exact hasValue_line rfl line
  refine decodeFields_promotedProperty_eq_ok_iff.2 ⟨inspect_eq_ok_iff.2 ⟨?_, hvalues⟩, ?_⟩
  · cases declared <;> cases line <;> rfl
  · exact ⟨name, type, declared, line, rfl, ht, hdeclared, decode_line hline, rfl⟩

/-- The fields of a loop variable are read back if its type is. -/
theorem decodeFields_foreachValue {name : String} {iterable : Option String} {type : Descriptor}
    {line : Option UInt64} (ht : Descriptor.decodeExpression (encodeType type) = .ok type) :
    decodeFields (fields (.foreachValue name iterable type line)) .foreachValue =
      .ok (.foreachValue name iterable type line) := by
  have hline : (fields (.foreachValue name iterable type line)).lookup "line" =
      line.map fun n => .natural n.toNat := by
    cases iterable <;> cases line <;> rfl
  have hiterable : optional (nullable Data.text) none "iterable_name"
      (fields (.foreachValue name iterable type line)) = .ok iterable := by
    cases iterable <;> cases line <;> rfl
  have htype : (fields (.foreachValue name iterable type line)).lookup "iterable_type" =
      some (encodeType type) := by
    cases iterable <;> rfl
  have hvalues : ∀ e ∈ fields (.foreachValue name iterable type line),
      HasValue (knownEntries .foreachValue) e := by
    refine List.forall_mem_append.2 ⟨List.forall_mem_append.2
      ⟨List.forall_mem_append.2 ⟨?_, ?_⟩, ?_⟩, ?_⟩
    · exact List.forall_mem_singleton.2 (.of_lookup rfl rfl)
    · cases iterable with
      | none => exact List.forall_mem_nil _
      | some i =>
        have hi : nullable Data.text (.text i) = .ok (some i) := rfl
        exact List.forall_mem_singleton.2 (.of_lookup rfl hi)
    · exact List.forall_mem_singleton.2 (.of_lookup rfl ht)
    · exact hasValue_line rfl line
  refine decodeFields_foreachValue_eq_ok_iff.2 ⟨inspect_eq_ok_iff.2 ⟨?_, hvalues⟩, ?_⟩
  · cases iterable <;> cases line <;> rfl
  · have hread := required_eq_ok_iff.2 ⟨_, htype, ht⟩
    exact ⟨name, iterable, type, line, rfl, hiterable, hread, decode_line hline, rfl⟩

/-- The fields of a subject are read back if its types are. -/
theorem decodeFields_fields {x : Subject}
    (h : ∀ d ∈ x.types, Descriptor.decodeExpression (encodeType d) = .ok d) :
    decodeFields x.fields x.tag = .ok x := by
  cases x with
  | typed => exact decodeFields_typed (h _ List.mem_cons_self)
  | promotedProperty name type declared line =>
    refine decodeFields_promotedProperty (h _ List.mem_cons_self) fun d hd => h d ?_
    cases hd
    exact List.mem_cons_of_mem _ List.mem_cons_self
  | foreachValue => exact decodeFields_foreachValue (h _ List.mem_cons_self)

/-- A stored subject is read again exactly if each of its types is read back from the
expression that it is stored as. -/
theorem decode_encode_iff {x : Subject} :
    decode x.encode = .ok x ↔ ∀ d ∈ x.types, Descriptor.parse d.text = .ok d := by
  rw [encode_eq, decode_object (decodeTag_kind x) (isField_fields x)]
  simp only [← Descriptor.decodeExpression_text_iff]
  constructor
  · intro h d hd
    obtain ⟨f, hf, rfl⟩ := List.mem_map.1 hd
    obtain ⟨v, hv, hread⟩ := typeFields_of_decodeFields h hf
    rw [lookup_fields hf] at hv
    rw [← Option.some.inj hv] at hread
    exact hread
  · exact decodeFields_fields

/-! ## Batches -/

/-- Each subject of a batch was decoded. -/
theorem exists_of_mem_decodeBatch {v : Value} {xs : List Subject} (h : decodeBatch v = .ok xs) :
    ∀ x ∈ xs, ∃ w, decode w = .ok x := by
  obtain ⟨es, -, h⟩ := Except.bind_eq_ok_iff.1 h
  obtain ⟨_, -, h⟩ := Except.bind_eq_ok_iff.1 h
  cases hv : es.lookup "subjects" with
  | none =>
    rw [optional_of_lookup_none hv] at h
    cases h
    exact List.forall_mem_nil _
  | some v =>
    rw [optional_of_lookup hv] at h
    exact exists_of_mem_list h

/-- A stored batch is read again exactly if each of its subjects is. -/
theorem decodeBatch_encodeBatch_iff {xs : List Subject} :
    decodeBatch (encodeBatch xs) = .ok xs ↔ ∀ x ∈ xs, decode x.encode = .ok x := by
  rw [← list_map_eq_ok_iff]
  constructor
  · intro h
    obtain ⟨es, hes, h⟩ := Except.bind_eq_ok_iff.1 h
    cases hes
    obtain ⟨_, -, h⟩ := Except.bind_eq_ok_iff.1 h
    exact h
  · intro h
    refine Except.bind_eq_ok_iff.2 ⟨_, rfl, Except.bind_eq_ok_iff.2 ⟨(), ?_, h⟩⟩
    exact inspect_eq_ok_iff.2 ⟨rfl, List.forall_mem_singleton.2 (.of_lookup rfl h)⟩

end Subject

end Eponym
