/-
# The walk to the parents

The walk follows the first `extends` entry from a declaration to the next.  It ends behind a
parent that is not declared, at a type that extends nothing, or in front of a key that it has
met, that of the type it started from included; the last of these is remarked on, once.  Since
it meets no key twice it ends on every catalogue, circles included, after no more steps than
there are declarations.

* `Upward`, `Ends` : what is met on the way, and why it goes no further;
* `upward_climb`, `nodup_keys_climb`, `length_climb_le` : the walk in terms of these;
* `parents_walked` : what is reported of the parents of a declared type, and remarked on.
-/
import Eponym.Proofs.TypeModel.Reachability

namespace Eponym.Catalogue

/-! ## Ways upwards -/

/-- Following first entries from a declaration meets the references one after the other, and
comes to the given declaration, or to none if the last reference is to an undeclared type. -/
inductive Upward (r : Catalogue) : Declaration → List TypeName → Option Declaration → Prop
  | here (d : Declaration) : Upward r d [] (some d)
  | undeclared {d : Declaration} {n : TypeName} {ns : List TypeName}
      (hd : d.extended = n :: ns) (hn : r.lookup n.key = none) : Upward r d [n] none
  | step {d p : Declaration} {n : TypeName} {ns ms : List TypeName} {top : Option Declaration}
      (hd : d.extended = n :: ns) (hp : r.lookup n.key = some p) (hup : Upward r p ms top) :
      Upward r d (n :: ms) top

/-- Why a way upwards goes no further when the given keys have been met: it has come to no
declaration, or to one that extends nothing, or its next reference is to a type that has been
met, which is then the reference given. -/
inductive Ends (met : List String) : Option Declaration → Option TypeName → Prop
  | undeclared : Ends met none none
  | top {e : Declaration} (he : e.extended = []) : Ends met (some e) none
  | again {e : Declaration} {n : TypeName} {ns : List TypeName} (he : e.extended = n :: ns)
      (hn : n.key ∈ met) : Ends met (some e) (some n)

/-- It does not matter in which order the keys have been met. -/
theorem Ends.congr {met met' : List String} {top : Option Declaration} {again : Option TypeName}
    (h : Ends met top again) (hmet : ∀ k ∈ met, k ∈ met') : Ends met' top again := by
  cases h with
  | undeclared => exact .undeclared
  | top he => exact .top he
  | again he hn => exact .again he (hmet _ hn)

section Climb

variable {r : Catalogue} {visited : List String} {d : Declaration} {n : TypeName}

/-- The walk goes upwards, and ends for one of the reasons there are. -/
theorem upward_climb (r : Catalogue) (visited : List String) (d : Declaration) :
    ∃ top, r.Upward d (r.climb visited d).1 top ∧
      Ends (visited ++ (r.climb visited d).1.map TypeName.key) top (r.climb visited d).2 := by
  fun_induction r.climb visited d with
  | case1 visited d hd => exact ⟨some d, .here d, .top hd⟩
  | case2 visited d parent ns hd hv =>
    exact ⟨some d, .here d, .again hd (List.mem_append_left _ hv)⟩
  | case3 visited d parent ns hd hv hp => exact ⟨none, .undeclared hd hp, .undeclared⟩
  | case4 visited d parent ns hd hv p hp above ih =>
    obtain ⟨top, hup, hends⟩ := ih
    refine ⟨top, .step hd hp hup, hends.congr fun k hk => ?_⟩
    exact List.mem_append.2 (visited_or_listed_cons (List.mem_append.1 hk))

/-- What has been visited is not met. -/
theorem key_notMem_of_mem_climb (h : n ∈ (r.climb visited d).1) : n.key ∉ visited := by
  fun_induction r.climb visited d with
  | case1 visited d hd => exact absurd h List.not_mem_nil
  | case2 visited d parent ns hd hv => exact absurd h List.not_mem_nil
  | case3 visited d parent ns hd hv hp =>
    obtain rfl := List.mem_singleton.1 h
    exact hv
  | case4 visited d parent ns hd hv p hp above ih =>
    rcases List.mem_cons.1 h with rfl | h
    · exact hv
    · exact fun hn => ih h (List.mem_cons_of_mem _ hn)

/-- No key that has been visited is met. -/
theorem notMem_keys_climb {k : String} (hk : k ∈ visited) :
    k ∉ (r.climb visited d).1.map TypeName.key := by
  intro h
  obtain ⟨n, hn, rfl⟩ := List.mem_map.1 h
  exact key_notMem_of_mem_climb hn hk

/-- No key is met twice. -/
theorem nodup_keys_climb (r : Catalogue) (visited : List String) (d : Declaration) :
    ((r.climb visited d).1.map TypeName.key).Nodup := by
  fun_induction r.climb visited d with
  | case1 visited d hd => exact List.nodup_nil
  | case2 visited d parent ns hd hv => exact List.nodup_nil
  | case3 visited d parent ns hd hv hp => exact List.pairwise_singleton _ _
  | case4 visited d parent ns hd hv p hp above ih =>
    exact List.nodup_cons.2 ⟨notMem_keys_climb List.mem_cons_self, ih⟩

/-- Each step but the last leaves fewer declarations to visit. -/
theorem length_climb_le (r : Catalogue) (visited : List String) (d : Declaration) :
    (r.climb visited d).1.length ≤ (r.unvisited visited).length + 1 := by
  fun_induction r.climb visited d with
  | case1 visited d hd => exact Nat.zero_le _
  | case2 visited d parent ns hd hv => exact Nat.zero_le _
  | case3 visited d parent ns hd hv hp => exact Nat.le_add_left 1 _
  | case4 visited d parent ns hd hv p hp above ih =>
    have hlt := length_unvisited_lt hp hv
    show (r.climb (parent.key :: visited) p).1.length + 1 ≤ _
    omega

/-- From a declared type the walk takes no more steps than there are declarations. -/
theorem length_climb_le_size (hd : r.lookup d.key = some d) :
    (r.climb [d.key] d).1.length ≤ r.size := by
  have hle := length_climb_le r [d.key] d
  have hlt := length_unvisited_lt hd List.not_mem_nil
  have hall : r.unvisited [] = r.declarations := List.filter_eq_self.2 fun _ _ => by simp
  rw [hall] at hlt
  exact Nat.le_trans hle hlt

/-- The remarks on a class tell at which reference the walk came back to what it had met. -/
theorem reflectNotices_of_plainClass {name : String} (h : r.declaration? name = some d)
    (hk : d.kind = .plainClass) :
    r.reflectNotices name = (r.climb [d.key] d).2.toList.map .cyclicHierarchy := by
  simp only [reflectNotices, h, ancestry, if_pos hk]
  cases (r.climb [d.key] d).2 with
  | none => rfl
  | some n => rfl

theorem reflectNotices_of_not_plainClass {name : String} (h : r.declaration? name = some d)
    (hk : d.kind ≠ .plainClass) : r.reflectNotices name = [] := by
  simp only [reflectNotices, h, ancestry, if_neg hk]

end Climb

/-! ## Reported parents -/

/-- What is reported of the parents of a declared type.  For a class these are what is met on
the way upwards, nearest first, up to where that ends; no two of them have the same key, none
has that of the class, and there are at most as many as declarations.  There is a remark exactly
if the way ends in front of something that has been met, one remark then, and it spells the
reference as the `extends` entry does.  Other types have no parents, and there is no remark. -/
theorem parents_walked {r : Catalogue} {name : String} {d : Declaration}
    (h : r.declaration? name = some d) :
    ∃ reflection, r.reflect name = some reflection ∧
      (d.kind = .plainClass → ∃ ns top again, r.Upward d ns top ∧
        Ends (d.key :: ns.map TypeName.key) top again ∧
        reflection.parents = ns.map r.reflected ∧
        (d.key :: reflection.parents.map fun t => typeKey t.name).Nodup ∧
        reflection.parents.length ≤ r.size ∧
        (r.reflectNotices name).map Notice.message =
          again.toList.map fun n => "Cyclic class hierarchy through " ++ n.text) ∧
      (d.kind ≠ .plainClass → reflection.parents = [] ∧ r.reflectNotices name = []) := by
  have hd : r.lookup d.key = some d := lookup_key_of_lookup h
  have hreflect : r.reflect name = some (r.reflection d) := by
    rw [reflect, h]
    rfl
  refine ⟨r.reflection d, hreflect, fun hk => ?_, fun hk => ⟨?_, ?_⟩⟩
  · have hparents : (r.reflection d).parents = (r.climb [d.key] d).1.map r.reflected := by
      rw [reflection, ancestry, if_pos hk]
    obtain ⟨top, hup, hends⟩ := upward_climb r [d.key] d
    refine ⟨(r.climb [d.key] d).1, top, (r.climb [d.key] d).2, hup, hends, hparents, ?_, ?_, ?_⟩
    · rw [hparents, map_key_reflected]
      exact List.nodup_cons.2
        ⟨notMem_keys_climb List.mem_cons_self, nodup_keys_climb r [d.key] d⟩
    · rw [hparents, List.length_map]
      exact length_climb_le_size hd
    · rw [reflectNotices_of_plainClass h hk, List.map_map]
      rfl
  · rw [reflection, ancestry, if_neg hk]
    rfl
  · exact reflectNotices_of_not_plainClass h hk

/-- Three classes, of which the last extends the second in another spelling. -/
def books : Catalogue :=
  ((empty.register ⟨.ofString "Account", .plainClass, [.ofString "Ledger"], [], false⟩).register
    ⟨.ofString "Ledger", .plainClass, [.ofString "Book", .ofString "Account"], [],
      false⟩).register ⟨.ofString "Book", .plainClass, [.ofString "LEDGER"], [], false⟩

/-- The way from the first class comes back to the second, not to the first. -/
theorem parents_walked_books :
    ∃ d, books.declaration? "account" = some d ∧ d.kind = .plainClass ∧
      (books.reflectNotices "account").map Notice.message =
        ["Cyclic class hierarchy through LEDGER"] ∧
      ∃ reflection, books.reflect "account" = some reflection ∧
        ∃ ns top again, books.Upward d ns top ∧
          Ends (d.key :: ns.map TypeName.key) top again ∧
          reflection.parents = ns.map books.reflected ∧
          (d.key :: reflection.parents.map fun t => typeKey t.name).Nodup ∧
          reflection.parents.length ≤ books.size ∧
          (books.reflectNotices "account").map Notice.message =
            again.toList.map fun n => "Cyclic class hierarchy through " ++ n.text := by
  have h : books.declaration? "account" =
      some ⟨.ofString "Account", .plainClass, [.ofString "Ledger"], [], false⟩ := by
    decide +kernel
  obtain ⟨reflection, hreflect, hclass, -⟩ := parents_walked h
  exact ⟨_, h, rfl, by decide +kernel, reflection, hreflect, hclass rfl⟩

end Eponym.Catalogue
