/-
# The spelling of a declared type does not matter

A catalogue and a deny list look at keys, so that letter case and leading separators make no
difference to them.  Memories, the members of a descriptor and lineages do tell spellings
apart: a type that is spelled in two ways is two members, and is worked out twice.  All the
same nothing depends on the spelling of a declared type.  What is found for it comes from its
declaration, and whatever a second spelling finds once more is a repetition.

* `Respelled` : a descriptor in which occurrences of a name are replaced;
* `Suggester.distinctBy_constraining` : members may be gone through with repetitions;
* `Session.spelling_irrelevant` : answers are the same for both spellings.
-/
import Eponym.Proofs.Candidates.Memoization

namespace Eponym

/-! ## Spelling a name differently -/

mutual

/-- The second descriptor is the first one with occurrences of a name replaced by another name,
at some places or at all. -/
inductive Respelled (a b : TypeName) : Descriptor → Descriptor → Prop
  | same (d : Descriptor) : Respelled a b d d
  | replaced (builtin : Bool) : Respelled a b (.named ⟨a, builtin⟩) (.named ⟨b, builtin⟩)
  | union {ds es : List Descriptor} (h : RespelledList a b ds es) :
    Respelled a b (.union ds) (.union es)
  | intersection {ds es : List Descriptor} (h : RespelledList a b ds es) :
    Respelled a b (.intersection ds) (.intersection es)
  | iterable {d e : Descriptor} (h : Respelled a b d e) :
    Respelled a b (.iterable d) (.iterable e)
  | keyed {j k d e : Descriptor} (hk : Respelled a b j k) (h : Respelled a b d e) :
    Respelled a b (.keyed j d) (.keyed k e)

/-- The descriptors of the second list are those of the first one, each with occurrences of a
name replaced. -/
inductive RespelledList (a b : TypeName) : List Descriptor → List Descriptor → Prop
  | nil : RespelledList a b [] []
  | cons {d e : Descriptor} {ds es : List Descriptor} (h : Respelled a b d e)
    (hs : RespelledList a b ds es) : RespelledList a b (d :: ds) (e :: es)

end

section Leaves

variable {a b : TypeName} {α : Type} {f : NamedType → α}

mutual

/-- A function of leaves that does not tell the names apart does not tell the leaves of the
descriptors apart. -/
theorem Respelled.map_leaves (hf : ∀ builtin, f ⟨a, builtin⟩ = f ⟨b, builtin⟩)
    {d e : Descriptor} : Respelled a b d e → d.leaves.map f = e.leaves.map f
  | .same _ => rfl
  | .replaced builtin => congrArg (fun x => [x]) (hf builtin)
  | .union h | .intersection h => h.map_leaves hf
  | .iterable _ | .keyed _ _ => rfl

/-- Nor does it tell the leaves of several descriptors apart. -/
theorem RespelledList.map_leaves (hf : ∀ builtin, f ⟨a, builtin⟩ = f ⟨b, builtin⟩)
    {ds es : List Descriptor} : RespelledList a b ds es →
      (Descriptor.leavesList ds).map f = (Descriptor.leavesList es).map f
  | .nil => rfl
  | .cons h hs => by
    rw [Descriptor.leavesList, Descriptor.leavesList, List.map_append, List.map_append,
      h.map_leaves hf, hs.map_leaves hf]

end

theorem Respelled.flatMap_leaves {d e : Descriptor} (h : Respelled a b d e)
    {g : NamedType → List α} (hg : ∀ builtin, g ⟨a, builtin⟩ = g ⟨b, builtin⟩) :
    d.leaves.flatMap g = e.leaves.flatMap g := by
  rw [List.flatMap_def, List.flatMap_def, h.map_leaves hg]

/-- A leaf keeps its flag. -/
theorem Respelled.builtin_eq_false {d e : Descriptor} (h : Respelled a b d e)
    (hd : ∀ t ∈ d.leaves, t.builtin = false) : ∀ t ∈ e.leaves, t.builtin = false := by
  intro t ht
  have hflag : ∀ flag, NamedType.builtin ⟨a, flag⟩ = NamedType.builtin ⟨b, flag⟩ :=
    fun _ => rfl
  have hmap : d.leaves.map NamedType.builtin = e.leaves.map NamedType.builtin :=
    h.map_leaves hflag
  obtain ⟨s, hs, heq⟩ := List.mem_map.1 (hmap ▸ List.mem_map_of_mem ht)
  rw [← heq]
  exact hd s hs

end Leaves

/-! ## What is known -/

namespace Catalogue

variable {r : Catalogue} {a b : TypeName} {d : Declaration}

theorem reflect_congr {s t : String} (h : typeKey s = typeKey t) : r.reflect s = r.reflect t := by
  rw [reflect, reflect, declaration?, declaration?, h]

/-- The lineage of a declared type is that of its declaration. -/
theorem lineage_congr (hd : r.lookup a.key = some d) (h : a.key = b.key) :
    (Knowledge.catalogue r).lineage a = (Knowledge.catalogue r).lineage b := by
  have hfound : r.reflect b.text = some (r.reflection d) := by
    show (r.lookup b.key).map r.reflection = _
    rw [← h, hd]
    rfl
  show lineageOf a (r.reflect a.text) = lineageOf b (r.reflect b.text)
  rw [reflect_congr h, hfound]
  rfl

end Catalogue

/-! ## What is suggested -/

namespace Suggester

variable {r : Suggester} {d e : Descriptor} {a b : TypeName}

theorem candidatesOf_congr (h : r.knowledge.lineage a = r.knowledge.lineage b) :
    r.candidatesOf a = r.candidatesOf b := by
  rw [candidatesOf, candidatesOf, h]

/-- Where no leaf belongs to the runtime, the members that may constrain an identifier
contribute what all leaves do, one after the other, that are not denied: what is met again has
been contributed already. -/
theorem distinctBy_constraining {α β : Type} [DecidableEq β]
    (hd : ∀ t ∈ d.leaves, t.builtin = false) (key : α → β) (f : TypeName → List α) :
    distinctBy key ((r.constraining d).flatMap fun t => f t.name) =
      distinctBy key (d.leaves.flatMap fun t =>
        if r.denied.deniesType t.name.text then [] else f t.name) := by
  have hmember : ∀ t ∈ d.namedMembers, (!r.excludes t) = !r.denied.deniesType t.name.text := by
    intro t ht
    rw [excludes, hd t (mem_of_mem_distinctBy ht), Bool.false_or]
  -- what a member contributes depends on its name alone
  have hnames : ∀ ts : List NamedType,
      ts.flatMap (fun t => if r.denied.deniesType t.name.text then [] else f t.name) =
        (ts.map NamedType.name).flatMap fun n =>
          if r.denied.deniesType n.text then [] else f n := by
    intro ts
    rw [List.flatMap_map]
  have hallowed : (r.constraining d).flatMap (fun t => f t.name) =
      (d.namedMembers.map NamedType.name).flatMap fun n =>
        if r.denied.deniesType n.text then [] else f n := by
    rw [constraining, List.filter_congr hmember, flatMap_filter_eq, ← hnames]
    congr 1
    funext t
    cases r.denied.deniesType t.name.text <;> rfl
  rw [hallowed, Descriptor.namedMembers, map_distinctBy, distinctBy_flatMap_eraseDups, hnames]

/-- Members that contribute the same under both names contribute the same altogether. -/
theorem distinctBy_respelled {α β : Type} [DecidableEq β] (h : Respelled a b d e)
    (hd : ∀ t ∈ d.leaves, t.builtin = false) (key : α → β) {f : TypeName → List α}
    (hkey : a.key = b.key) (hf : f a = f b) :
    distinctBy key ((r.constraining d).flatMap fun t => f t.name) =
      distinctBy key ((r.constraining e).flatMap fun t => f t.name) := by
  have hdenied : r.denied.deniesType a.text = r.denied.deniesType b.text :=
    Denied.deniesType_congr hkey
  rw [distinctBy_constraining hd, distinctBy_constraining (h.builtin_eq_false hd)]
  exact congrArg _ (h.flatMap_leaves fun _ => by rw [hdenied, hf])

end Suggester

/-! ## Spellings of a declared type -/

namespace Session

/-- The spelling of a declared type does not matter.  If two texts spell its name, up to letter
case and leading separators, then whatever was asked before, all that is found for the one is
found for the other: what is known of it, its lineage, its candidates, and for a descriptor
with no type of the runtime the candidates and the base names of interfaces, in order. -/
theorem spelling_irrelevant {r : Catalogue} {m n : String} {declared : Declaration}
    (hm : r.declaration? m = some declared) (h : typeKey m = typeKey n) (denied : Denied)
    (names : List TypeName) (qs : List Question) :
    let suggester : Suggester := ⟨.catalogue r, denied⟩
    let s := after suggester names qs
    let a := TypeName.ofString m
    let b := TypeName.ofString n
    ((reflect (.catalogue r) m).run s).1 = ((reflect (.catalogue r) n).run s).1 ∧
      ((expand (.catalogue r) a).run s).1 = ((expand (.catalogue r) b).run s).1 ∧
      ((candidatesOf suggester a).run s).1 = ((candidatesOf suggester b).run s).1 ∧
      ∀ d e, Respelled a b d e → (∀ t ∈ d.leaves, t.builtin = false) →
        ((suggest suggester d).run s).1 = ((suggest suggester e).run s).1 ∧
        ((interfaceBaseNames suggester d).run s).1 =
          ((interfaceBaseNames suggester e).run s).1 := by
  intro suggester s a b
  have hkey : a.key = b.key := by
    rw [TypeName.key_ofString, TypeName.key_ofString, h]
  have ha : r.lookup a.key = some declared := by
    rw [TypeName.key_ofString]
    exact hm
  have hlineage : suggester.knowledge.lineage a = suggester.knowledge.lineage b :=
    Catalogue.lineage_congr ha hkey
  have hcandidates := Suggester.candidatesOf_congr (r := suggester) hlineage
  have hexpand : ∀ c, ((expand (.catalogue r) c).run s).1 = suggester.knowledge.lineage c :=
    fun c => (answers_expand (r := suggester) c).run_after names qs
  have hasked : ∀ c, ((candidatesOf suggester c).run s).1 = suggester.candidatesOf c :=
    fun c => (answers_candidatesOf c).run_after names qs
  have hsuggest : ∀ d, ((suggest suggester d).run s).1 = suggester.suggest d :=
    fun d => (answers_suggest d).run_after names qs
  have hinterfaces : ∀ d, ((interfaceBaseNames suggester d).run s).1 =
      suggester.interfaceBaseNames d :=
    fun d => (answers_interfaceBaseNames d).run_after names qs
  refine ⟨Catalogue.reflect_congr h, ?_, ?_, fun d e hde hd => ⟨?_, ?_⟩⟩
  · rw [hexpand, hexpand, hlineage]
  · rw [hasked, hasked, hcandidates]
  · rw [hsuggest, hsuggest, Suggester.suggest, Suggester.suggest, ← distinctBy_id,
      ← distinctBy_id]
    exact Suggester.distinctBy_respelled hde hd id hkey hcandidates
  · have hbare : suggester.bareNames (suggester.knowledge.reflect a.text) =
        suggester.bareNames (suggester.knowledge.reflect b.text) :=
      congrArg suggester.bareNames (Catalogue.reflect_congr hkey)
    rw [hinterfaces, hinterfaces]
    exact Suggester.distinctBy_respelled hde hd Prod.fst hkey
      (f := fun c => suggester.bareNames (suggester.knowledge.reflect c.text)) hbare

/-- An interface that a union names twice, once in another spelling, and a session that has met
that spelling before. -/
theorem spelling_irrelevant_channel :
    let channel : Declaration := ⟨.ofString "App\\ChannelInterface", .interface,
      [.ofString "Io\\Endpoint"], [], false⟩
    let r : Catalogue := Catalogue.empty.register channel
    let suggester : Suggester := ⟨.catalogue r, .ofEntries ["io\\ENDPOINT"] ["user"]⟩
    let s := after suggester [.ofString "app\\channelinterface"] [.suggest (.ofName "App\\User")]
    let m := "App\\ChannelInterface"
    let n := "\\app\\channelInterface"
    let d : Descriptor := .union [.ofName m, .iterable (.ofName m), .ofName "App\\User", .ofName m]
    let e : Descriptor := .union [.ofName m, .iterable (.ofName m), .ofName "App\\User", .ofName n]
    (r.declaration? m = some channel ∧ typeKey m = typeKey n ∧
      Respelled (.ofString m) (.ofString n) d e ∧ ∀ t ∈ d.leaves, t.builtin = false) ∧
      ((suggest suggester d).run s).1 = ((suggest suggester e).run s).1 ∧
      ((interfaceBaseNames suggester d).run s).1 =
        ((interfaceBaseNames suggester e).run s).1 := by
  intro channel r suggester s m n d e
  have hm : r.declaration? m = some channel := by decide +kernel
  have hkey : typeKey m = typeKey n := by decide +kernel
  have hde : Respelled (.ofString m) (.ofString n) d e :=
    .union (.cons (.same _) (.cons (.same _) (.cons (.same _) (.cons (.replaced false) .nil))))
  have hd : ∀ t ∈ d.leaves, t.builtin = false := by decide +kernel
  refine ⟨⟨hm, hkey, hde, hd⟩, ?_⟩
  obtain ⟨-, -, -, hsame⟩ := spelling_irrelevant hm hkey (.ofEntries ["io\\ENDPOINT"] ["user"])
    [.ofString "app\\channelinterface"] [.suggest (.ofName "App\\User")]
  exact hsame d e hde hd

end Session

end Eponym
