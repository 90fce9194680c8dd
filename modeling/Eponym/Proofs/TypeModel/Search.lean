/-
# The search for interfaces

The search goes into depth.  A reference to a type that has not been visited is listed; if
the type is declared, all that it extends is searched before the next reference is.  The
visited keys are handed on, so that no type is listed twice, whichever way leads to it.

* `searches_iff` : the search ends on every catalogue, and lists what `reach` lists;
* `nodup_keys_reach` : no key is listed twice;
* `reach_starts`, `reach_closed` : what a reference leads to is listed, or was visited;
* `reach_justified` : what is listed was asked for, or stands behind what leads to it.
-/
import Eponym.TypeModel.Reflection

namespace Eponym.Catalogue

/-! ## Runs of the search -/

/-- The visited keys after the references have been listed one by one. -/
def marked (visited : List String) (found : List TypeName) : List String :=
  (found.map TypeName.key).reverse ++ visited

theorem marked_cons (visited : List String) (n : TypeName) (found : List TypeName) :
    marked visited (n :: found) = marked (n.key :: visited) found := by
  rw [marked, marked, List.map_cons, List.reverse_cons, List.append_assoc, List.singleton_append]

/-- References are marked in the order in which they are listed. -/
theorem marked_append (visited : List String) (xs ys : List TypeName) :
    marked visited (xs ++ ys) = marked (marked visited xs) ys := by
  rw [marked, marked, marked, List.map_append, List.reverse_append, List.append_assoc]

/-- The search through some references, with some keys visited before, has come to its end
and has listed the given ones.  What a declared type extends is searched by a run of its
own, after which the search goes on with the keys that the run has marked. -/
inductive Searches (r : Catalogue) : List String → List TypeName → List TypeName → Prop
  | done (visited : List String) : Searches r visited [] []
  | passed {visited : List String} {n : TypeName} {ns found : List TypeName}
      (hv : n.key ∈ visited) (hns : Searches r visited ns found) :
      Searches r visited (n :: ns) found
  | undeclared {visited : List String} {n : TypeName} {ns found : List TypeName}
      (hv : n.key ∉ visited) (hd : r.lookup n.key = none)
      (hns : Searches r (n.key :: visited) ns found) :
      Searches r visited (n :: ns) (n :: found)
  | declared {visited : List String} {n : TypeName} {d : Declaration}
      {ns inner found : List TypeName} (hv : n.key ∉ visited) (hd : r.lookup n.key = some d)
      (hin : Searches r (n.key :: visited) d.extended inner)
      (hns : Searches r (marked (n.key :: visited) inner) ns found) :
      Searches r visited (n :: ns) (n :: (inner ++ found))

section Search

variable {r : Catalogue} {visited : List String} {n : TypeName}

/-- A run through references end to end is a run through the first and one through the
others. -/
theorem Searches.of_append {xs ys found : List TypeName}
    (h : r.Searches visited (xs ++ ys) found) :
    ∃ a b, found = a ++ b ∧ r.Searches visited xs a ∧ r.Searches (marked visited a) ys b := by
  induction xs generalizing visited found with
  | nil => exact ⟨[], found, rfl, .done visited, h⟩
  | cons n xs ih =>
    rw [List.cons_append] at h
    cases h with
    | passed hv hns =>
      obtain ⟨a, b, rfl, ha, hb⟩ := ih hns
      exact ⟨a, b, rfl, .passed hv ha, hb⟩
    | undeclared hv hd hns =>
      obtain ⟨a, b, rfl, ha, hb⟩ := ih hns
      refine ⟨n :: a, b, rfl, .undeclared hv hd ha, ?_⟩
      rw [marked_cons]
      exact hb
    | @declared _ _ d _ inner _ hv hd hin hns =>
      obtain ⟨a, b, rfl, ha, hb⟩ := ih hns
      refine ⟨n :: (inner ++ a), b, ?_, .declared hv hd hin ha, ?_⟩
      · rw [List.cons_append, List.append_assoc]
      · rw [marked_cons, marked_append]
        exact hb

/-- Pending references may be searched in two parts. -/
theorem reach_append (r : Catalogue) (visited : List String) (xs ys : List TypeName) :
    r.reach visited (xs ++ ys) =
      r.reach visited xs ++ r.reach (marked visited (r.reach visited xs)) ys := by
  fun_induction r.reach visited xs with
  | case1 visited => rfl
  | case2 visited n ns hv ih => rw [List.cons_append, reach_cons_of_visited hv, ih]
  | case3 visited n ns hv hd ih =>
    rw [List.cons_append, reach_cons_of_undeclared hv hd, ih, marked_cons, List.cons_append]
  | case4 visited n ns hv d hd ih =>
    rw [List.cons_append, reach_cons_of_declared hv hd, ← List.append_assoc, ih, marked_cons,
      List.cons_append]

/-- On every catalogue the search comes to its end. -/
theorem searches_reach (r : Catalogue) (visited : List String) (pending : List TypeName) :
    r.Searches visited pending (r.reach visited pending) := by
  fun_induction r.reach visited pending with
  | case1 visited => exact .done visited
  | case2 visited n ns hv ih => exact .passed hv ih
  | case3 visited n ns hv hd ih => exact .undeclared hv hd ih
  | case4 visited n ns hv d hd ih =>
    -- the run through what is pending falls into the inner run and the rest
    obtain ⟨inner, rest, hf, hin, hns⟩ := ih.of_append
    rw [hf]
    exact .declared hv hd hin hns

/-- The search ends in one way only, with what `reach` lists. -/
theorem searches_iff {pending found : List TypeName} :
    r.Searches visited pending found ↔ found = r.reach visited pending := by
  constructor
  · intro h
    induction h with
    | done visited => rw [reach_nil]
    | passed hv _ ih => rw [reach_cons_of_visited hv, ih]
    | undeclared hv hd _ ih => rw [reach_cons_of_undeclared hv hd, ih]
    | declared hv hd _ _ ihin ihns =>
      rw [reach_cons_of_declared hv hd, reach_append, ← ihin, ihns]
  · rintro rfl
    exact searches_reach r visited pending

/-! ## What is listed -/

/-- What has been visited is not listed. -/
theorem key_notMem_of_mem_reach {pending : List TypeName} (h : n ∈ r.reach visited pending) :
    n.key ∉ visited := by
  fun_induction r.reach visited pending with
  | case1 visited => exact absurd h List.not_mem_nil
  | case2 visited m ns hv ih => exact ih h
  | case3 visited m ns hv hd ih =>
    rcases List.mem_cons.1 h with rfl | h
    · exact hv
    · exact fun hn => ih h (List.mem_cons_of_mem _ hn)
  | case4 visited m ns hv d hd ih =>
    rcases List.mem_cons.1 h with rfl | h
    · exact hv
    · exact fun hn => ih h (List.mem_cons_of_mem _ hn)

/-- The key of a reference that has just been visited is not among those listed after it. -/
theorem key_notMem_keys_reach (r : Catalogue) (visited : List String) (n : TypeName)
    (pending : List TypeName) :
    n.key ∉ (r.reach (n.key :: visited) pending).map TypeName.key := by
  intro h
  obtain ⟨m, hm, hk⟩ := List.mem_map.1 h
  have hnot := key_notMem_of_mem_reach hm
  rw [hk] at hnot
  exact hnot List.mem_cons_self

/-- No key is listed twice. -/
theorem nodup_keys_reach (r : Catalogue) (visited : List String) (pending : List TypeName) :
    ((r.reach visited pending).map TypeName.key).Nodup := by
  fun_induction r.reach visited pending with
  | case1 visited => exact List.nodup_nil
  | case2 visited n ns hv ih => exact ih
  | case3 visited n ns hv hd ih =>
    exact List.nodup_cons.2 ⟨key_notMem_keys_reach r visited n ns, ih⟩
  | case4 visited n ns hv d hd ih =>
    exact List.nodup_cons.2 ⟨key_notMem_keys_reach r visited n (d.extended ++ ns), ih⟩

/-- A key that counts as visited or listed once a reference is visited does so if the
reference is listed instead. -/
theorem visited_or_listed_cons {k : String} {found : List TypeName}
    (h : k ∈ n.key :: visited ∨ k ∈ found.map TypeName.key) :
    k ∈ visited ∨ k ∈ (n :: found).map TypeName.key := by
  rw [List.map_cons]
  rcases h with h | h
  · rcases List.mem_cons.1 h with h | h
    · exact .inr (List.mem_cons.2 (.inl h))
    · exact .inl h
  · exact .inr (List.mem_cons_of_mem _ h)

/-- What the search starts from is listed under its key, if it was not visited. -/
theorem reach_starts {pending : List TypeName} (h : n ∈ pending) :
    n.key ∈ visited ∨ n.key ∈ (r.reach visited pending).map TypeName.key := by
  fun_induction r.reach visited pending with
  | case1 visited => exact absurd h List.not_mem_nil
  | case2 visited m ns hv ih =>
    rcases List.mem_cons.1 h with rfl | h
    · exact .inl hv
    · exact ih h
  | case3 visited m ns hv hd ih =>
    rcases List.mem_cons.1 h with rfl | h
    · exact .inr List.mem_cons_self
    · exact visited_or_listed_cons (ih h)
  | case4 visited m ns hv d hd ih =>
    rcases List.mem_cons.1 h with rfl | h
    · exact .inr List.mem_cons_self
    · exact visited_or_listed_cons (ih (List.mem_append_right _ h))

/-- What a listed type extends is listed under its key, if it was not visited. -/
theorem reach_closed {pending : List TypeName} {m : TypeName} {d : Declaration}
    (hm : m ∈ r.reach visited pending) (hd : r.lookup m.key = some d) (hn : n ∈ d.extended) :
    n.key ∈ visited ∨ n.key ∈ (r.reach visited pending).map TypeName.key := by
  fun_induction r.reach visited pending with
  | case1 visited => exact absurd hm List.not_mem_nil
  | case2 visited l ns hv ih => exact ih hm
  | case3 visited l ns hv hl ih =>
    rcases List.mem_cons.1 hm with rfl | hm
    · exact absurd (hl.symm.trans hd) (by simp)
    · exact visited_or_listed_cons (ih hm)
  | case4 visited l ns hv e hl ih =>
    rcases List.mem_cons.1 hm with rfl | hm
    · -- what the head extends was pending when the search went on
      obtain rfl : e = d := Option.some.inj (hl.symm.trans hd)
      exact visited_or_listed_cons (reach_starts (List.mem_append_left _ hn))
    · exact visited_or_listed_cons (ih hm)

/-- What is listed was asked for, or is extended by a type that is listed before it. -/
theorem reach_justified {pending before after : List TypeName}
    (h : r.reach visited pending = before ++ n :: after) :
    n ∈ pending ∨ ∃ m ∈ before, ∃ d, r.lookup m.key = some d ∧ n ∈ d.extended := by
  fun_induction r.reach visited pending generalizing before with
  | case1 visited => exact absurd h (by simp)
  | case2 visited l ns hv ih => exact (ih h).imp (List.mem_cons_of_mem l) id
  | case3 visited l ns hv hl ih =>
    cases before with
    | nil => exact .inl (List.mem_cons.2 (.inl (List.cons.inj h).1.symm))
    | cons b before =>
      rcases ih (List.cons.inj h).2 with hn | ⟨m, hm, hd⟩
      · exact .inl (List.mem_cons_of_mem l hn)
      · exact .inr ⟨m, List.mem_cons_of_mem b hm, hd⟩
  | case4 visited l ns hv e hl ih =>
    cases before with
    | nil => exact .inl (List.mem_cons.2 (.inl (List.cons.inj h).1.symm))
    | cons b before =>
      rcases ih (List.cons.inj h).2 with hn | ⟨m, hm, hd⟩
      · rcases List.mem_append.1 hn with hn | hn
        · obtain rfl : l = b := (List.cons.inj h).1
          exact .inr ⟨l, List.mem_cons_self, e, hl, hn⟩
        · exact .inl (List.mem_cons_of_mem l hn)
      · exact .inr ⟨m, List.mem_cons_of_mem b hm, hd⟩

end Search

end Eponym.Catalogue
