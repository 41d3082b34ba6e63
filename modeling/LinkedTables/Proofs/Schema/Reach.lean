import Mathlib
import LinkedTables.Proofs.Catalog.Reachable
import LinkedTables.Proofs.Schema.Rounds

/-!
# Paths to the tables in reach

What the search for tables in reach has found.  `Leads` says that relations form a path from the
home table.  Every entry is found with a path that leads to it, the paths of all tables on the way
are **initial parts of that path** (`mem_reachable_of_append`), and none comes back to the home
table.
-/

namespace LinkedTables

namespace Schema

variable {s : Schema} {home : TableId}

/-- Relations that lead from the home table to another, each declared where the last one ends. -/
inductive Leads (s : Schema) (home : TableId) : List Relation → TableId → Prop
  | nil : Leads s home [] home
  | snoc {path : List Relation} {id : TableId} {r : Relation} :
      Leads s home path id → r ∈ s.relationsOf id → Leads s home (path ++ [r]) r.target

lemma Leads.eq_target {path before : List Relation} {r : Relation} {id : TableId}
    (h : Leads s home path id) (hpath : path = before ++ [r]) : id = r.target := by
  cases h with
  | nil => simp at hpath
  | snoc _ _ =>
    have hr := (List.append_inj' hpath rfl).2
    simp only [List.cons.injEq, and_true] at hr
    rw [hr]

/-- A path leads to one table only. -/
lemma Leads.unique {path : List Relation} {id id' : TableId} (h : s.Leads home path id)
    (h' : s.Leads home path id') : id = id' := by
  cases h with
  | nil =>
    generalize hpath : ([] : List Relation) = path at h'
    cases h' with
    | nil => rfl
    | snoc _ _ => simp at hpath
  | snoc _ _ => exact (h'.eq_target rfl).symm

/-- A relation on a path starts where the path has led to by then. -/
lemma Leads.source {path before after : List Relation} {r : Relation} {id : TableId}
    (hs : s.Closed) (h : Leads s home path id) (hpath : path = before ++ r :: after) :
    Leads s home before r.source := by
  induction h generalizing after with
  | nil => simp at hpath
  | @snoc path id r' hleads hr' ih =>
    rcases List.eq_nil_or_concat after with rfl | ⟨after', last, rfl⟩
    · rcases List.append_inj' hpath rfl with ⟨rfl, hr⟩
      simp only [List.cons.injEq, and_true] at hr
      rw [← hr, (hs id r' hr').1]
      exact hleads
    · simp only [List.concat_eq_append] at hpath
      rw [← List.cons_append, ← List.append_assoc] at hpath
      exact ih (List.append_inj' hpath rfl).1

/-- An entry extends another one whose path is shorter; this is what inductions over entries are
on. -/
lemma reachable_cases {x : Reached} (hx : x ∈ s.reachable home) :
    x = ⟨home, []⟩ ∨ ∃ y ∈ s.reachable home, ∃ r ∈ s.relationsOf y.table,
      x = ⟨r.target, y.path ++ [r]⟩ ∧ y.path.length < x.path.length := by
  rcases (search_reachable s home).grown x hx with hx | ⟨y, hy, r, hr, rfl⟩
  · exact Or.inl hx
  · exact Or.inr ⟨y, hy, r, hr, rfl, by simp⟩

/-- **Every table in reach** is found with a path that leads to it. -/
theorem leads_of_mem_reachable {x : Reached} (hx : x ∈ s.reachable home) :
    Leads s home x.path x.table := by
  induction hn : x.path.length using Nat.strong_induction_on generalizing x with
  | h n ih =>
    rcases reachable_cases hx with rfl | ⟨y, hy, r, hr, rfl, hlt⟩
    · exact .nil
    · exact .snoc (ih y.path.length (by omega) hy rfl) hr

/-- **The paths of the tables on the way** are the initial parts of the path. -/
theorem mem_reachable_of_append {x : Reached} (hx : x ∈ s.reachable home) {before : List Relation}
    {r : Relation} {after : List Relation} (hpath : x.path = before ++ r :: after) :
    ⟨r.target, before ++ [r]⟩ ∈ s.reachable home := by
  induction hn : x.path.length using Nat.strong_induction_on generalizing x after with
  | h n ih =>
    rcases reachable_cases hx with rfl | ⟨y, hy, r', hr', rfl, hlt⟩
    · simp at hpath
    · rcases List.eq_nil_or_concat after with rfl | ⟨after', last, rfl⟩
      · rcases List.append_inj' hpath rfl with ⟨rfl, hr⟩
        cases hr
        exact hx
      · simp only [List.concat_eq_append] at hpath
        rw [← List.cons_append, ← List.append_assoc] at hpath
        rcases List.append_inj' hpath rfl with ⟨hy', -⟩
        exact ih y.path.length (by omega) hy hy' rfl

/-- The search begins at the home table. -/
lemma home_mem_reachable {x : Reached} (hx : x ∈ s.reachable home) :
    ⟨home, []⟩ ∈ s.reachable home := by
  induction hn : x.path.length using Nat.strong_induction_on generalizing x with
  | h n ih =>
    rcases reachable_cases hx with rfl | ⟨y, hy, r, hr, rfl, hlt⟩
    · exact hx
    · exact ih y.path.length (by omega) hy rfl

/-- A table is found with one path only. -/
lemma eq_of_mem_reachable {x y : Reached} (hx : x ∈ s.reachable home)
    (hy : y ∈ s.reachable home) (h : x.table = y.table) : x = y :=
  List.inj_on_of_nodup_map (search_reachable s home).nodup hx hy h

/-- A relation on a path starts at a table that is found with the part of the path before it. -/
lemma source_mem_reachable (hs : s.Closed) {x : Reached} (hx : x ∈ s.reachable home)
    {before after : List Relation} {r : Relation} (hpath : x.path = before ++ r :: after) :
    ⟨r.source, before⟩ ∈ s.reachable home := by
  have hleads := (leads_of_mem_reachable hx).source hs hpath
  rcases List.eq_nil_or_concat before with rfl | ⟨front, q, rfl⟩
  · rw [hleads.unique .nil]
    exact home_mem_reachable hx
  · rw [List.concat_eq_append] at hleads hpath ⊢
    rw [hleads.eq_target rfl]
    rw [List.append_assoc] at hpath
    exact mem_reachable_of_append hx hpath

/-- **No path comes back** to the home table. -/
theorem target_ne_home {x : Reached} (hx : x ∈ s.reachable home) {r : Relation}
    (hr : r ∈ x.path) : r.target ≠ home := by
  rcases List.append_of_mem hr with ⟨before, after, hpath⟩
  have hmem := mem_reachable_of_append hx hpath
  intro hhome
  have heq := eq_of_mem_reachable hmem (home_mem_reachable hx) hhome
  simp at heq

/-- **Only one relation is used** to come to a table, whatever path it lies on. -/
theorem relation_eq_of_target_eq {x y : Reached} (hx : x ∈ s.reachable home)
    (hy : y ∈ s.reachable home) {r r' : Relation} (hr : r ∈ x.path) (hr' : r' ∈ y.path)
    (h : r.target = r'.target) : r = r' := by
  rcases List.append_of_mem hr with ⟨before, after, hpath⟩
  rcases List.append_of_mem hr' with ⟨before', after', hpath'⟩
  have heq := eq_of_mem_reachable (mem_reachable_of_append hx hpath)
    (mem_reachable_of_append hy hpath') h
  have hpaths : before ++ [r] = before' ++ [r'] := congrArg Reached.path heq
  simpa using (List.append_inj' hpaths rfl).2

end Schema

end LinkedTables
