/-
# Descriptors that are stored again

A stored descriptor is read back as it was, however deeply it is nested, and whether it stands
alone or inside another one.  A key type that is not known is left out; one that is known is
never taken for a missing one, since the data form of a descriptor is an object and not null.

* `decodeAt_object` : what is stored under a kind is put together as one of that kind;
* `decode_encode` : a descriptor is read back as it was.
-/
import Eponym.Proofs.Data.Decoder
import Eponym.Schema.Descriptor

namespace Eponym.Descriptor

open Data

/-! ## Parts -/

/-- If the part is known it can be read. -/
def CanBeRead (known : List (String × (Part → Except DecodeFault Unit))) (p : String × Part) :
    Prop :=
  ∀ f, known.lookup p.1 = some f → f p.2 = .ok ()

/-- The parts of a stored descriptor pass if no known one repeats, and each can be read. -/
theorem inspectParts_eq_ok_iff {known : List (String × (Part → Except DecodeFault Unit))}
    {parts : List (String × Part)} :
    inspectParts known parts = .ok () ↔
      repeats (known.map Prod.fst) (parts.map fun p => (p.1, p.2.value)) = false ∧
        ∀ p ∈ parts, CanBeRead known p := by
  unfold inspectParts
  cases repeats (known.map Prod.fst) (parts.map fun p => (p.1, p.2.value)) with
  | true => simp
  | false =>
    rw [if_neg Bool.false_ne_true, Except.forM_eq_ok_iff]
    simp only [List.mem_mergeSort, true_and]
    refine forall₂_congr fun p _ => ?_
    unfold CanBeRead
    cases known.lookup p.1 with
    | none => simp
    | some f => simp

/-- A part that is not known is let pass. -/
theorem CanBeRead.of_unknown {known : List (String × (Part → Except DecodeFault Unit))}
    {p : String × Part} (h : known.lookup p.1 = none) : CanBeRead known p := by
  intro f hf
  rw [h] at hf
  cases hf

/-- A part that has a reading can be read. -/
theorem CanBeRead.of_lookup {α : Type}
    {known : List (String × (Part → Except DecodeFault Unit))} {p : String × Part}
    {read : Part → Except DecodeFault α} {a : α}
    (h : known.lookup p.1 = some fun p => forget (read p)) (ha : read p.2 = .ok a) :
    CanBeRead known p := by
  intro f hf
  rw [h] at hf
  rw [← Option.some.inj hf]
  show forget (read p.2) = .ok ()
  rw [ha]
  rfl

/-- A value, with the descriptors that it may stand for inside another one. -/
def Part.ofValue (v : Value) : Part := ⟨v, decodeAt true v, decodeMany v⟩

/-- The entries of a stored descriptor become parts one by one. -/
theorem decodeParts_eq (es : Entries) :
    decodeParts es = es.map fun e => (e.1, Part.ofValue e.2) := by
  induction es with
  | nil => rfl
  | cons e es ih =>
    rw [decodeParts, ih]
    rfl

/-- The data form of a descriptor is no null, so that it tells the key type if it is read. -/
theorem keyType_ofValue_encode {d : Descriptor} (h : decodeAt true d.encode = .ok d) :
    (Part.ofValue d.encode).keyType = .ok (some d) := by
  have hkey : (Part.ofValue d.encode).keyType = (decodeAt true d.encode).map some := by
    cases d <;> rfl
  rw [hkey, h]
  rfl

/-! ## Kinds -/

/-- What is stored under a kind is put together as one of that kind. -/
theorem decodeAt_object (inside : Bool) (tag : Tag) {kind : String} {es : Entries}
    (htag : choice tags (.text kind) = .ok tag) (hes : ∀ e ∈ es, e.1 ≠ "kind") :
    decodeAt inside (.object (("kind", .text kind) :: es)) =
      assemble (decodeParts (("kind", .text kind) :: es)) tag := by
  have hkind : decodeTag inside (.text kind) = .ok tag := htag
  have hnone : (decodeParts es).filter (fun p => p.1 = "kind") = [] := by
    rw [decodeParts_eq, List.filter_eq_nil_iff, List.forall_mem_map]
    simpa using hes
  have hone : ((decodeParts (("kind", .text kind) :: es)).filter fun p => p.1 = "kind").length =
      1 := by
    rw [decodeParts, List.filter_cons_of_pos (by rfl), hnone, List.length_singleton]
  rw [decodeAt, assembleTagged, hone]
  show (decodeTag inside (.text kind) >>= fun tag => _) = _
  rw [hkind]
  rfl

section Kinds

variable (inside : Bool)

/-- A named type is read back. -/
theorem decodeAt_named (t : NamedType) :
    decodeAt inside (encode (.named t)) = .ok (.named t) := by
  have hname : TypeName.decode t.name.encode = .ok t.name := TypeName.decode_encode t.name
  have hbuiltin : Data.bool (.bool t.builtin) = .ok t.builtin := rfl
  rw [encode, decodeAt_object inside .named rfl (by simp)]
  refine Except.bind_eq_ok_iff.2 ⟨(), inspectParts_eq_ok_iff.2 ⟨rfl, ?_⟩, ?_⟩
  · refine List.forall_mem_cons.2 ⟨.of_unknown rfl, List.forall_mem_cons.2 ⟨?_, ?_⟩⟩
    · exact .of_lookup rfl hname
    · exact List.forall_mem_singleton.2 (.of_lookup rfl hbuiltin)
  · exact Except.bind_eq_ok_iff.2 ⟨t.name, hname, rfl⟩

/-- Members are read back if the descriptors in them are; what they make up is told by the
kind. -/
theorem decodeAt_members {tag : Tag} {kind : String} {make : List Descriptor → Descriptor}
    (htag : choice tags (.text kind) = .ok tag)
    (hmake : ∀ parts, assemble parts tag = (do
      inspectParts [("members", fun p => forget p.many)] parts
      return make (← requirePart Part.many parts "members")))
    {ds : List Descriptor} (h : decodeItems (encodeList ds) = .ok ds) :
    decodeAt inside (.object [("kind", .text kind), ("members", .list (encodeList ds))]) =
      .ok (make ds) := by
  rw [decodeAt_object inside tag htag (by simp), hmake]
  refine Except.bind_eq_ok_iff.2 ⟨(), inspectParts_eq_ok_iff.2 ⟨rfl, ?_⟩, ?_⟩
  · refine List.forall_mem_cons.2 ⟨.of_unknown rfl, List.forall_mem_singleton.2 ?_⟩
    exact .of_lookup rfl h
  · exact Except.bind_eq_ok_iff.2 ⟨ds, h, rfl⟩

/-- An iterable is read back if what it holds is. -/
theorem decodeAt_iterable {value : Descriptor} (h : decodeAt true value.encode = .ok value) :
    decodeAt inside (encode (.iterable value)) = .ok (.iterable value) := by
  rw [encode, decodeAt_object inside .iterable rfl (by simp)]
  refine Except.bind_eq_ok_iff.2 ⟨(), inspectParts_eq_ok_iff.2 ⟨rfl, ?_⟩, ?_⟩
  · refine List.forall_mem_cons.2 ⟨.of_unknown rfl, List.forall_mem_singleton.2 ?_⟩
    exact .of_lookup rfl h
  · refine Except.bind_eq_ok_iff.2 ⟨none, rfl, ?_⟩
    exact Except.bind_eq_ok_iff.2 ⟨value, h, rfl⟩

/-- An iterable is read back if its keys and what it holds are. -/
theorem decodeAt_keyed {key value : Descriptor} (hk : decodeAt true key.encode = .ok key)
    (hv : decodeAt true value.encode = .ok value) :
    decodeAt inside (encode (.keyed key value)) = .ok (.keyed key value) := by
  have hkey := keyType_ofValue_encode hk
  rw [encode, decodeAt_object inside .iterable rfl (by simp)]
  refine Except.bind_eq_ok_iff.2 ⟨(), inspectParts_eq_ok_iff.2 ⟨rfl, ?_⟩, ?_⟩
  · refine List.forall_mem_cons.2 ⟨.of_unknown rfl, List.forall_mem_cons.2 ⟨?_, ?_⟩⟩
    · exact .of_lookup rfl hkey
    · exact List.forall_mem_singleton.2 (.of_lookup rfl hv)
  · refine Except.bind_eq_ok_iff.2 ⟨some key, hkey, ?_⟩
    exact Except.bind_eq_ok_iff.2 ⟨value, hv, rfl⟩

/-- A scalar is read back. -/
theorem decodeAt_scalar (name : String) :
    decodeAt inside (encode (.scalar name)) = .ok (.scalar name) := by
  have hname : Data.text (.text name) = .ok name := rfl
  rw [encode, decodeAt_object inside .scalar rfl (by simp)]
  refine Except.bind_eq_ok_iff.2 ⟨(), inspectParts_eq_ok_iff.2 ⟨rfl, ?_⟩, ?_⟩
  · refine List.forall_mem_cons.2 ⟨.of_unknown rfl, List.forall_mem_singleton.2 ?_⟩
    exact .of_lookup rfl hname
  · exact Except.bind_eq_ok_iff.2 ⟨name, hname, rfl⟩

end Kinds

/-! ## Descriptors of any depth -/

mutual

/-- A descriptor is read back, inside another or not. -/
theorem decodeAt_encode (inside : Bool) : (d : Descriptor) → decodeAt inside d.encode = .ok d
  | named t => decodeAt_named inside t
  | union ds => by
    rw [encode]
    exact decodeAt_members inside rfl (fun _ => rfl) (decodeItems_encodeList ds)
  | intersection ds => by
    rw [encode]
    exact decodeAt_members inside rfl (fun _ => rfl) (decodeItems_encodeList ds)
  | iterable value => decodeAt_iterable inside (decodeAt_encode true value)
  | keyed key value =>
    decodeAt_keyed inside (decodeAt_encode true key) (decodeAt_encode true value)
  | null => by
    rw [encode, decodeAt_object inside .null rfl (by simp)]
    rfl
  | scalar name => decodeAt_scalar inside name

/-- Several descriptors are read back one by one. -/
theorem decodeItems_encodeList : (ds : List Descriptor) → decodeItems (encodeList ds) = .ok ds
  | [] => rfl
  | d :: ds => by
    rw [encodeList, decodeItems, decodeAt_encode true d, decodeItems_encodeList ds]
    rfl

end

theorem decode_encode (d : Descriptor) : decode d.encode = .ok d := decodeAt_encode false d

end Eponym.Descriptor
