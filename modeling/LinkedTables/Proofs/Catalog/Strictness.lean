import Mathlib
import LinkedTables.Proofs.Catalog.Consistency
import LinkedTables.Proofs.Catalog.Parsed
import LinkedTables.Proofs.Schema.Completeness

/-!
# The strict rule only refuses more

An unqualified name that the home table has as a column is bound by one rule to the home table at
once, and by the other only if no other table in reach has such a column.  The home table is the
first one that a search finds, so where both rules answer they answer with the same table, and where
only the strict one refuses, the **home table is the first candidate** it names
(`bind_strict_error`).

A binding remembers whether a search has found it, and this is the one thing in which two bindings
of a reference differ.  Nothing but the log looks at it: filters that both rules bind are the same,
and so are their plans and answers.
-/

namespace LinkedTables

namespace Database

variable {db : Database} {home : TableId} {r : Reference} {e : Expr Reference}

/-! ## One reference -/

/-- The home table is the only candidate of a search or the first one. -/
lemma search_of_hasColumn (hhome : home < db.schema.size) {name : String}
    (h : db.hasColumn home name = true) :
    db.search home name = .ok ⟨⟨home, name⟩, [], true⟩ ∨ ∃ others,
      db.search home name = .error (.ambiguousColumn name (db.schema.nameOf home :: others)) := by
  obtain ⟨rest, hrest⟩ := Schema.exists_reachable_eq_cons hhome
  simp only [search, hrest, List.map_cons]
  rw [List.filter_cons_of_pos (p := (db.hasColumn · name)) h]
  cases (rest.map Reached.table).filter fun id => db.hasColumn id name with
  | nil => exact Or.inl rfl
  | cons other others => exact Or.inr ⟨_, rfl⟩

/-- The rules differ on the names of columns of the home table, where the strict one searches. -/
lemma bind_strict_cases (db : Database) (home : TableId) (r : Reference) :
    db.bind home .strict r = db.bind home .preferHome r
      ∨ db.hasColumn home r.name = true
        ∧ db.bind home .preferHome r = .ok ⟨⟨home, r.name⟩, [], false⟩
        ∧ db.bind home .strict r = db.search home r.name := by
  cases hr : r.form with
  | home name => exact Or.inl (by simp only [bind, hr])
  | path segments name => exact Or.inl (by simp only [bind, hr])
  | plain name =>
    have hname : r.name = name := by simp only [Reference.name, hr]
    by_cases hcolumn : db.hasColumn home name = true
    · exact Or.inr ⟨hname ▸ hcolumn, by simp [bind, hr, hcolumn, hname], by simp [bind, hr, hname]⟩
    · exact Or.inl (by simp [bind, hr, hcolumn])

lemma bind_preferHome_of_strict (hhome : home < db.schema.size) {b : Binding}
    (h : db.bind home .strict r = .ok b) :
    ∃ b', db.bind home .preferHome r = .ok b' ∧ b'.column = b.column ∧ b'.path = b.path := by
  rcases bind_strict_cases db home r with heq | ⟨hcolumn, hprefer, hstrict⟩
  · exact ⟨b, heq ▸ h, rfl, rfl⟩
  · rw [hstrict] at h
    rcases search_of_hasColumn hhome hcolumn with hsearch | ⟨others, hsearch⟩
    · rw [hsearch] at h
      cases h
      exact ⟨_, hprefer, rfl, rfl⟩
    · rw [hsearch] at h
      cases h

/-- **Where only the strict rule refuses a reference**, it names the home table first. -/
lemma bind_strict_error (hhome : home < db.schema.size) {b : Binding} {x : Failure}
    (hb : db.bind home .preferHome r = .ok b) (h : db.bind home .strict r = .error x) :
    db.hasColumn home r.name = true
      ∧ ∃ others, x = .ambiguousColumn r.name (db.schema.nameOf home :: others) := by
  rcases bind_strict_cases db home r with heq | ⟨hcolumn, -, hstrict⟩
  · rw [← heq, h] at hb
    cases hb
  · rw [hstrict] at h
    rcases search_of_hasColumn hhome hcolumn with hsearch | ⟨others, hsearch⟩
    · rw [hsearch] at h
      cases h
    · rw [hsearch] at h
      cases h
      exact ⟨hcolumn, others, rfl⟩

/-! ## Whole filters -/

/-- Of a binding, an explicit path has the table and the path. -/
lemma explicitPaths_congr {rs : List Reference} {g g' : Reference → Binding}
    (h : ∀ r ∈ rs, (g r).column = (g' r).column ∧ (g r).path = (g' r).path) :
    explicitPaths (rs.map g) = explicitPaths (rs.map g') := by
  simp only [explicitPaths, List.filterMap_map]
  refine congrArg distinct (List.filterMap_congr fun r hr => ?_)
  simp only [Function.comp_apply, h r hr]

/-- **What the strict rule binds**, the other one binds to the same columns and paths. -/
lemma bindFilter_preferHome_of_strict (hsize : db.schema.size = db.tables.size) {f : BoundFilter}
    (h : (db.bindFilter home .strict e).result = .ok f) :
    (db.bindFilter home .preferHome e).result = .ok f := by
  obtain ⟨⟨t, ht⟩, hbound, rfl⟩ := bindFilter_eq_ok_iff.1 h
  have hhome : home < db.schema.size := lt_of_lt_of_eq (lt_size_of_table ht) hsize.symm
  have hsame : ∀ r ∈ e.columns,
      (db.bindingOf home .strict r).column = (db.bindingOf home .preferHome r).column
        ∧ (db.bindingOf home .strict r).path = (db.bindingOf home .preferHome r).path := by
    intro r hr
    obtain ⟨b, hb⟩ := hbound r hr
    obtain ⟨b', hb', hcolumn, hpath⟩ := bind_preferHome_of_strict hhome hb
    rw [bindingOf_eq hb, bindingOf_eq hb', hcolumn, hpath]
    exact ⟨rfl, rfl⟩
  refine bindFilter_eq_ok_iff.2 ⟨⟨t, ht⟩, fun r hr => ?_, ?_⟩
  · obtain ⟨b, hb⟩ := hbound r hr
    obtain ⟨b', hb', -⟩ := bind_preferHome_of_strict hhome hb
    exact ⟨b', hb'⟩
  · rw [explicitPaths_congr hsame]
    exact congrArg (BoundFilter.mk · _)
      ((Expr.mapColumns_eq_mapColumns_iff e).2 fun r hr => (hsame r hr).1)

/-- **Where only the strict rule refuses a filter**, it does so for a reference that it finds
ambiguous, and names the home table first. -/
lemma bindFilter_strict_error (hsize : db.schema.size = db.tables.size) {f : BoundFilter}
    {x : Failure} (hf : (db.bindFilter home .preferHome e).result = .ok f)
    (h : (db.bindFilter home .strict e).result = .error x) :
    ∃ column others, x = .ambiguousColumn column (db.schema.nameOf home :: others)
      ∧ db.hasColumn home column = true ∧ home < db.schema.size := by
  obtain ⟨⟨t, ht⟩, hbound, -⟩ := bindFilter_eq_ok_iff.1 hf
  have hhome : home < db.schema.size := lt_of_lt_of_eq (lt_size_of_table ht) hsize.symm
  rcases cases_of_bindFilter_error h with h | ⟨r, hr, hrefused⟩
  · rw [ht] at h
    cases h
  · obtain ⟨b, hb⟩ := hbound r hr
    obtain ⟨hcolumn, others, rfl⟩ := bind_strict_error hhome hb hrefused
    exact ⟨r.name, others, rfl, hcolumn, hhome⟩

end Database

namespace Catalog

variable {c : Catalog} {home : TableId} {text : String}

/-- A catalog with another rule for unqualified names, and all other settings as they are. -/
def under (c : Catalog) (rule : UnqualifiedRule) : Catalog :=
  c.withSettings (c.settings.withUnqualified rule)

/-- **The strict rule only refuses more.**  A filter that it answers has the same answer under the
other rule.  A filter that only the other rule answers is refused because the name of a column of
the home table is ambiguous, and the home table is the first candidate. -/
theorem filter_under_strict (hc : c.Reachable) (home : TableId) (text : String) :
    (∀ t, ((c.under .strict).filter home text).result = .ok t →
      ((c.under .preferHome).filter home text).result = .ok t)
    ∧ ∀ t x, ((c.under .preferHome).filter home text).result = .ok t →
      ((c.under .strict).filter home text).result = .error x →
      ∃ column name others, x = .ambiguousColumn column (name :: others)
        ∧ c.database.hasColumn home column = true ∧ c.schema.tableName? home = some name := by
  have hsize : c.database.schema.size = c.database.tables.size := hc.closed.size_eq
  refine ⟨fun t h => ?_, fun t x h hx => ?_⟩
  · obtain ⟨hlength, e, hparse, h⟩ := filter_eq_ok_iff.1 h
    obtain ⟨f, p, hf, hp, hevaluate⟩ := filterExpr_eq_ok_iff.1 h
    exact filter_eq_ok_iff.2 ⟨hlength, e, hparse, filterExpr_eq_ok_iff.2
      ⟨f, p, Database.bindFilter_preferHome_of_strict hsize hf, hp, hevaluate⟩⟩
  · obtain ⟨hlength, e, hparse, h⟩ := filter_eq_ok_iff.1 h
    obtain ⟨f, p, hf, hp, hevaluate⟩ := filterExpr_eq_ok_iff.1 h
    cases hstrict : (c.database.bindFilter home .strict e).result with
    | ok f' =>
      -- what both rules bind has one answer
      have hf' := Database.bindFilter_preferHome_of_strict hsize hstrict
      obtain rfl : f' = f := Except.ok.inj (hf'.symm.trans hf)
      have hanswer : ((c.under .strict).filter home text).result = .ok t :=
        filter_eq_ok_iff.2 ⟨hlength, e, hparse, filterExpr_eq_ok_iff.2
          ⟨f', p, hstrict, hp, hevaluate⟩⟩
      rw [hx] at hanswer
      cases hanswer
    | error y =>
      have hrefused : ((c.under .strict).filter home text).result = .error y :=
        (filter_eq_filterExpr (c := c.under .strict) hlength hparse).trans
          (filterExpr_eq_error hstrict)
      obtain rfl : y = x := Except.error.inj (hrefused.symm.trans hx)
      obtain ⟨column, others, rfl, hcolumn, hhome⟩ :=
        Database.bindFilter_strict_error hsize hf hstrict
      obtain ⟨name, hname, -⟩ := hc.consistent.found home (hc.closed.size_eq ▸ hhome)
      have hfirst : c.database.schema.nameOf home = name := Schema.nameOf_eq hname
      exact ⟨column, name, others, by rw [hfirst], hcolumn, hname⟩

/-- Both rules take `y` for the column of `o`.  Of `k` the other rule takes that of `h`, which is
one of two candidates to the strict one. -/
theorem filter_under_strict_partners :
    partners.Reachable
      ∧ (∃ t, ((partners.under .strict).filter 0 "y == 5").result = .ok t
        ∧ ((partners.under .preferHome).filter 0 "y == 5").result = .ok t)
      ∧ ∃ t x column name others, ((partners.under .preferHome).filter 0 "k == 1").result = .ok t
        ∧ ((partners.under .strict).filter 0 "k == 1").result = .error x
        ∧ x = .ambiguousColumn column (name :: others)
        ∧ partners.database.hasColumn 0 column = true
        ∧ partners.schema.tableName? 0 = some name := by
  have h : ((partners.under .strict).filter 0 "y == 5").result
        = .ok ⟨[⟨"k", #[.integer 1, .integer 2]⟩], #[0, 1]⟩
      ∧ ((partners.under .preferHome).filter 0 "k == 1").result
        = .ok ⟨[⟨"k", #[.integer 1]⟩], #[0]⟩
      ∧ ((partners.under .strict).filter 0 "k == 1").result
        = .error (.ambiguousColumn "k" ["h", "o"]) :=
    ⟨by cbv, by cbv, by cbv⟩
  obtain ⟨hy, hk, hrefused⟩ := h
  obtain ⟨column, name, others, heq, hcolumn, hname⟩ :=
    (filter_under_strict reachable_partners 0 "k == 1").2 _ _ hk hrefused
  exact ⟨reachable_partners, ⟨_, hy, (filter_under_strict reachable_partners 0 "y == 5").1 _ hy⟩,
    _, _, column, name, others, hk, hrefused, heq, hcolumn, hname⟩

end Catalog

end LinkedTables
