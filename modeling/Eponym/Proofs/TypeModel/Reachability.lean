/-
# Interfaces are what is reachable

Reflecting on a declared type reports as its interfaces exactly the types that are
reachable from its roots through what declared types extend, on ways that do not lead back
through the type itself.  Nothing is assumed of the catalogue: types may extend one another
in a circle, may be reached in several ways, and may be referred to without a declaration.

* `Reachable` : the keys that ways from some references lead to;
* `mem_keys_reach_iff` : the search lists the keys that are reachable;
* `interfaces_reachable` : what is reported of the interfaces of a declared type.
-/
import Eponym.Proofs.TypeModel.Ancestry

namespace Eponym.Catalogue

/-! ## Ways through a catalogue -/

/-- The declaration under the first key extends a type with the second one. -/
def Leads (r : Catalogue) (k l : String) : Prop :=
  ∃ d, r.lookup k = some d ∧ ∃ n ∈ d.extended, n.key = l

/-- The keys that ways from some references lead to, through what declared types extend and
past all that is to be avoided. -/
inductive Reachable (r : Catalogue) (avoided : List String) (start : TypeName → Prop) :
    String → Prop
  | root {n : TypeName} (hn : start n) (hk : n.key ∉ avoided) : Reachable r avoided start n.key
  | step {k l : String} (hk : Reachable r avoided start k) (hl : r.Leads k l)
      (ha : l ∉ avoided) : Reachable r avoided start l

section Reach

variable {r : Catalogue} {visited : List String} {pending : List TypeName} {k : String}

/-- The search misses nothing that is reachable, since it comes back only when what it has
listed leads nowhere else. -/
theorem mem_keys_reach_of_reachable (h : r.Reachable visited (· ∈ pending) k) :
    k ∈ (r.reach visited pending).map TypeName.key := by
  induction h with
  | root hn hk => exact (reach_starts hn).resolve_left hk
  | step _ hl ha ih =>
    obtain ⟨m, hm, rfl⟩ := List.mem_map.1 ih
    obtain ⟨d, hd, n, hn, rfl⟩ := hl
    exact (reach_closed hm hd hn).resolve_left ha

/-- What the search lists is reachable, as each reference is led to by one before it. -/
theorem reachable_of_reach_eq {before after : List TypeName} {n : TypeName}
    (h : r.reach visited pending = before ++ n :: after) :
    r.Reachable visited (· ∈ pending) n.key := by
  induction hl : before.length using Nat.strongRecOn generalizing before n after with
  | ind i ih =>
    have hn : n ∈ r.reach visited pending := by
      rw [h]
      exact List.mem_append_right _ List.mem_cons_self
    have hv := key_notMem_of_mem_reach hn
    rcases reach_justified h with hp | ⟨m, hm, d, hd, hext⟩
    · exact .root hp hv
    · obtain ⟨xs, ys, rfl⟩ := List.append_of_mem hm
      have hearlier : r.reach visited pending = xs ++ m :: (ys ++ n :: after) := by
        rw [h, List.append_assoc, List.cons_append]
      have hm : r.Reachable visited (· ∈ pending) m.key := by
        refine ih xs.length ?_ hearlier rfl
        rw [← hl, List.length_append, List.length_cons]
        omega
      exact .step hm ⟨d, hd, n, hext, rfl⟩ hv

/-- The search lists the keys that are reachable, and no others. -/
theorem mem_keys_reach_iff :
    k ∈ (r.reach visited pending).map TypeName.key ↔ r.Reachable visited (· ∈ pending) k := by
  constructor
  · intro h
    obtain ⟨n, hn, rfl⟩ := List.mem_map.1 h
    obtain ⟨before, after, hs⟩ := List.append_of_mem hn
    exact reachable_of_reach_eq hs
  · exact mem_keys_reach_of_reachable

end Reach

/-! ## Entries -/

/-- An entry of a reflection stands for a type that is referred to: as it is declared, or
else as it is spelled, and then it does not belong to the runtime. -/
structure StandsFor (r : Catalogue) (t : ReflectedType) (n : TypeName) : Prop where
  key_eq : typeKey t.name = n.key
  declared : ∀ d, r.lookup n.key = some d → t = ⟨d.name.text, d.builtin⟩
  undeclared : r.lookup n.key = none → t = ⟨n.text, false⟩

/-- What a reference is reflected as stands for it. -/
theorem standsFor_reflected (r : Catalogue) (n : TypeName) : r.StandsFor (r.reflected n) n := by
  unfold reflected
  cases h : r.lookup n.key with
  | some d =>
    have hk : d.name.key = n.key := key_of_lookup h
    exact ⟨hk, fun e he => by rw [Option.some.inj (h.symm.trans he)], fun he => by simp_all⟩
  | none => exact ⟨rfl, fun e he => by simp_all, fun _ => rfl⟩

theorem map_key_reflected (r : Catalogue) (found : List TypeName) :
    (found.map r.reflected).map (fun t => typeKey t.name) = found.map TypeName.key := by
  rw [List.map_map]
  exact List.map_congr_left fun n _ => (r.standsFor_reflected n).key_eq

/-! ## The interfaces of a declared type -/

/-- A list of entries reports the interfaces of a declared type: one for each key that is
reachable from the roots on a way that avoids the type, and no other; each of them stands
for a root, or for a type that an entry before it extends. -/
structure ReportsInterfaces (r : Catalogue) (d : Declaration) (ts : List ReflectedType) :
    Prop where
  nodup : (ts.map fun t => typeKey t.name).Nodup
  mem_iff : ∀ k, k ∈ (ts.map fun t => typeKey t.name) ↔ r.Reachable [d.key] (r.IsRoot d) k
  entry : ∀ before t after, ts = before ++ t :: after → ∃ n, r.StandsFor t n ∧
    (r.IsRoot d n ∨ ∃ s ∈ before, ∃ e, r.lookup (typeKey s.name) = some e ∧ n ∈ e.extended)

theorem mem_roots_eq_isRoot {r : Catalogue} {d : Declaration} (hd : r.lookup d.key = some d) :
    (fun n => n ∈ r.roots d) = r.IsRoot d :=
  funext fun _ => propext (mem_roots_iff hd)

/-- What the search from the roots lists reports the interfaces. -/
theorem reportsInterfaces_reach {r : Catalogue} {d : Declaration}
    (hd : r.lookup d.key = some d) :
    r.ReportsInterfaces d ((r.reach [d.key] (r.roots d)).map r.reflected) where
  nodup := by
    rw [map_key_reflected]
    exact nodup_keys_reach r [d.key] (r.roots d)
  mem_iff k := by
    rw [map_key_reflected, mem_keys_reach_iff, mem_roots_eq_isRoot hd]
  entry before t after h := by
    -- the entries before `t` stand for the references listed before that of `t`
    obtain ⟨xs, ys, hs, rfl, hy⟩ := List.map_eq_append_iff.1 h
    obtain ⟨n, zs, rfl, rfl, rfl⟩ := List.map_eq_cons_iff.1 hy
    refine ⟨n, r.standsFor_reflected n, ?_⟩
    rcases reach_justified hs with hn | ⟨m, hm, e, he, hn⟩
    · exact .inl ((mem_roots_iff hd).1 hn)
    · refine .inr ⟨r.reflected m, List.mem_map_of_mem hm, e, ?_, hn⟩
      rw [(r.standsFor_reflected m).key_eq]
      exact he

/-- Reflecting on a declared type gives a result: the search from its roots comes to an end,
and what it lists reports the interfaces of the type. -/
theorem interfaces_reachable {r : Catalogue} {name : String} {d : Declaration}
    (h : r.declaration? name = some d) :
    ∃ reflection found, r.reflect name = some reflection ∧
      r.Searches [d.key] (r.roots d) found ∧ reflection.interfaces = found.map r.reflected ∧
      r.ReportsInterfaces d reflection.interfaces := by
  have hd : r.lookup d.key = some d := lookup_key_of_lookup h
  refine ⟨r.reflection d, r.reach [d.key] (r.roots d), ?_, ?_, rfl, reportsInterfaces_reach hd⟩
  · rw [reflect, h]
    rfl
  · exact searches_reach r [d.key] (r.roots d)

/-- Two interfaces that extend each other, the first with an undeclared one beside. -/
def circle : Catalogue :=
  (empty.register
    ⟨.ofString "Readable", .interface, [.ofString "Seekable", .ofString "Io\\Stream"], [],
      false⟩).register ⟨.ofString "Seekable", .interface, [.ofString "READABLE"], [], false⟩

/-- The search ends where interfaces extend each other. -/
theorem interfaces_reachable_circle :
    ∃ d, circle.declaration? "seekable" = some d ∧
      ∃ reflection found, circle.reflect "seekable" = some reflection ∧
        circle.Searches [d.key] (circle.roots d) found ∧
        reflection.interfaces = found.map circle.reflected ∧
        circle.ReportsInterfaces d reflection.interfaces := by
  have h : circle.declaration? "seekable" =
      some ⟨.ofString "Seekable", .interface, [.ofString "READABLE"], [], false⟩ := by
    decide +kernel
  exact ⟨_, h, interfaces_reachable h⟩

end Eponym.Catalogue
