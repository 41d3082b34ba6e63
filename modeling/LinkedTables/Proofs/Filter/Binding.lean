import Mathlib
import LinkedTables.Filter.Binding
import LinkedTables.Proofs.Schema.Reach

/-!
# Bound filters

What is known of a filter once its references are bound: `BoundFilter.Sound`.  Every column belongs
to a table that has it, every path that is spelled out is a path of declared relations from the
home table to a table that owns a column of the filter, and an owner that no path leads to is the
home table or was found in reach of it.

The proof follows the binding of a reference: the first segment stands for the path to the nearest
relation of that name, each further segment for a relation declared where the path ends, and the
column has to be there in the end.

A reference that cannot be bound is refused for one of three causes, which `Failure.OfReference`
names; `bindFilter_error` says that a filter is refused for no other, if its home table is there.
-/

namespace LinkedTables

/-! ## Lists without repetitions -/

lemma mem_foldl_distinct {α : Type} [DecidableEq α] {x : α} (xs found : List α) :
    x ∈ xs.foldl (fun found x => if x ∈ found then found else x :: found) found
      ↔ x ∈ found ∨ x ∈ xs := by
  induction xs generalizing found with
  | nil => simp
  | cons y xs ih =>
    rw [List.foldl_cons, ih]
    split_ifs with hy
    · rw [List.mem_cons]
      constructor
      · rintro (h | h)
        · exact Or.inl h
        · exact Or.inr (Or.inr h)
      · rintro (h | rfl | h)
        · exact Or.inl h
        · exact Or.inl hy
        · exact Or.inr h
    · simp only [List.mem_cons]
      tauto

lemma mem_distinct {α : Type} [DecidableEq α] {x : α} {xs : List α} :
    x ∈ distinct xs ↔ x ∈ xs := by
  simp [distinct, mem_foldl_distinct]

namespace BoundFilter

lemma mem_owners {f : BoundFilter} {id : TableId} :
    id ∈ f.owners ↔ ∃ c ∈ f.expr.columns, c.table = id := by
  simp [owners, mem_distinct]

/-- What holds of a filter whose references are bound. -/
structure Sound (db : Database) (home : TableId) (f : BoundFilter) : Prop where
  owned : ∀ c ∈ f.expr.columns, db.hasColumn c.table c.column = true
  explicit : ∀ p ∈ f.paths, p.table ∈ f.owners ∧ db.schema.Leads home p.path p.table
  located : ∀ id ∈ f.owners, id = home ∨ (∃ p ∈ f.paths, p.table = id)
    ∨ id ∈ (db.schema.reachable home).map Reached.table

end BoundFilter

namespace Database

variable {db : Database} {home : TableId}

lemma table_eq_ok_iff {id : TableId} {t : Table} :
    db.table id = .ok t ↔ db.tables[id]? = some t := by
  simp only [table]
  split <;> simp_all

lemma lt_size_of_table {id : TableId} {t : Table} (h : db.table id = .ok t) :
    id < db.tables.size :=
  (Array.getElem?_eq_some_iff.1 (table_eq_ok_iff.1 h)).1

/-! ## One reference -/

lemma endOf_eq {path : List Relation} {id : TableId} (h : db.schema.Leads home path id) :
    endOf home path = id := by
  cases h with
  | nil => rfl
  | snoc _ _ => simp [endOf]

lemma mem_of_relation? {s : Schema} {id : TableId} {name : String} {r : Relation}
    (h : s.relation? id name = some r) : r ∈ s.relationsOf id := by
  simp only [Schema.relation?] at h
  exact List.mem_of_find?_eq_some h

lemma leads_of_findRelation? {name : String} {path : List Relation}
    (h : db.schema.findRelation? home name = some path) :
    db.schema.Leads home path (endOf home path) := by
  simp only [Schema.findRelation?] at h
  rcases List.exists_of_findSome?_eq_some h with ⟨x, hx, hpath⟩
  rcases Option.map_eq_some_iff.1 hpath with ⟨r, hr, rfl⟩
  have hleads := (Schema.leads_of_mem_reachable hx).snoc (mem_of_relation? hr)
  rwa [endOf_eq hleads]

lemma leads_of_firstHops {segment : String} {path : List Relation}
    (h : db.firstHops home segment = .ok path) :
    db.schema.Leads home path (endOf home path) := by
  simp only [firstHops] at h
  split at h
  · rename_i path' hpath
    cases h
    exact leads_of_findRelation? hpath
  · split_ifs at h
    cases h
    exact .nil

lemma leads_of_followHops {segments : List String} :
    ∀ {path path' : List Relation}, db.schema.Leads home path (endOf home path) →
      db.followHops home path segments = .ok path' →
      db.schema.Leads home path' (endOf home path') := by
  induction segments with
  | nil =>
    intro path path' hpath h
    cases h
    exact hpath
  | cons segment rest ih =>
    intro path path' hpath h
    simp only [followHops] at h
    split at h
    · rename_i r hr
      have hsnoc := hpath.snoc (mem_of_relation? hr)
      refine ih ?_ h
      rwa [endOf_eq hsnoc]
    · cases h

lemma bindOn_eq_ok {id : TableId} {path : List Relation} {name : String} {b : Binding}
    (h : db.bindOn id path name = .ok b) :
    db.hasColumn id name = true ∧ b = ⟨⟨id, name⟩, path, false⟩ := by
  simp only [bindOn] at h
  split_ifs at h with hcolumn
  cases h
  exact ⟨hcolumn, rfl⟩

lemma search_eq_ok {name : String} {b : Binding} (h : db.search home name = .ok b) :
    db.hasColumn b.column.table b.column.column = true ∧ b.path = []
      ∧ b.column.table ∈ (db.schema.reachable home).map Reached.table := by
  simp only [search] at h
  split at h
  · cases h
  · rename_i owner howner
    cases h
    have hmem : owner ∈ ((db.schema.reachable home).map Reached.table).filter
        fun id => db.hasColumn id name := by
      rw [howner]
      exact List.mem_singleton_self owner
    exact ⟨(List.mem_filter.1 hmem).2, rfl, (List.mem_filter.1 hmem).1⟩
  · cases h

/-- **A bound reference** is a column of the table it is bound to.  A path that it spells out leads
there, and without one that table has been found in reach. -/
theorem bind_sound {rule : UnqualifiedRule} {r : Reference} {b : Binding}
    (h : db.bind home rule r = .ok b) :
    db.hasColumn b.column.table b.column.column = true
      ∧ (db.schema.Leads home b.path b.column.table
        ∨ b.path = [] ∧ b.column.table ∈ (db.schema.reachable home).map Reached.table) := by
  simp only [bind] at h
  split at h
  · rcases bindOn_eq_ok h with ⟨hcolumn, rfl⟩
    exact ⟨hcolumn, Or.inl .nil⟩
  · rename_i segments name _
    cases segments with
    | nil =>
      rcases bindOn_eq_ok h with ⟨hcolumn, rfl⟩
      exact ⟨hcolumn, Or.inl .nil⟩
    | cons first rest =>
      simp only [bindPath] at h
      rcases eq_ok_of_bind h with ⟨path, hfirst, h⟩
      rcases eq_ok_of_bind h with ⟨path', hfollow, h⟩
      rcases bindOn_eq_ok h with ⟨hcolumn, rfl⟩
      exact ⟨hcolumn, Or.inl (leads_of_followHops (leads_of_firstHops hfirst) hfollow)⟩
  · split_ifs at h with hhome
    · cases h
      exact ⟨hhome.2, Or.inl .nil⟩
    · rcases search_eq_ok h with ⟨hcolumn, hpath, hreached⟩
      exact ⟨hcolumn, Or.inr ⟨hpath, hreached⟩⟩

/-! ## Whole filters -/

lemma mem_explicitPaths {p : ExplicitPath} {bindings : List Binding} :
    p ∈ explicitPaths bindings ↔
      ∃ b ∈ bindings, b.path ≠ [] ∧ p = ⟨b.column.table, b.path⟩ := by
  simp only [explicitPaths, mem_distinct, List.mem_filterMap]
  refine exists_congr fun b => and_congr_right fun _ => ?_
  cases hpath : b.path <;> simp [eq_comm]

lemma bindTraced_returns (rule : UnqualifiedRule) (r : Reference) :
    (db.bindTraced home rule r).Returns (db.bind home rule r) := by
  have hbind : (db.bindTraced home rule r).Returns (db.bind home rule r >>= fun b => pure b) := by
    refine (Traced.returns_answer _).bind ?_
    intro b
    split_ifs
    · exact Traced.Returns.after_emit _ (Traced.returns_pure b)
    · exact Traced.returns_pure b
  rwa [bind_pure] at hbind

lemma bindFilter_returns (rule : UnqualifiedRule) (e : Expr Reference) :
    (db.bindFilter home rule e).Returns (do
      let _ ← db.table home
      let bound ← e.mapColumnsM (db.bind home rule)
      pure ⟨bound.mapColumns Binding.column, explicitPaths bound.columns⟩) :=
  (Traced.returns_answer _).bind fun _ =>
    (Traced.Returns.mapColumnsM (bindTraced_returns rule) e).bind fun _ => Traced.returns_pure _

/-- What a reference is bound to; one that cannot be bound is taken for a column of the home
table. -/
def bindingOf (db : Database) (home : TableId) (rule : UnqualifiedRule) (r : Reference) : Binding :=
  (db.bind home rule r).toOption.getD ⟨⟨home, r.name⟩, [], false⟩

lemma bindingOf_eq {rule : UnqualifiedRule} {r : Reference} {b : Binding}
    (h : db.bind home rule r = .ok b) : db.bindingOf home rule r = b := by
  simp [bindingOf, h, Except.toOption]

/-- **A filter is bound** exactly if its home table is there and all of its references are bound,
and then each of them is bound where it stands. -/
lemma bindFilter_eq_ok_iff {rule : UnqualifiedRule} {e : Expr Reference} {f : BoundFilter} :
    (db.bindFilter home rule e).result = .ok f ↔ (∃ t, db.table home = .ok t)
      ∧ (∀ r ∈ e.columns, ∃ b, db.bind home rule r = .ok b)
      ∧ f = ⟨e.mapColumns fun r => (db.bindingOf home rule r).column,
        explicitPaths (e.columns.map (db.bindingOf home rule))⟩ := by
  have hcolumns : ∀ {bound : Expr Binding}, e.mapColumnsM (db.bind home rule) = .ok bound ↔
      (∀ r ∈ e.columns, ∃ b, db.bind home rule r = .ok b)
        ∧ bound = e.mapColumns (db.bindingOf home rule) :=
    Expr.mapColumnsM_eq_ok_iff bindingOf_eq
  rw [(bindFilter_returns rule e).result, ← Expr.mapColumns_mapColumns, ← Expr.columns_mapColumns]
  constructor
  · intro h
    rcases eq_ok_of_bind h with ⟨t, ht, h⟩
    rcases eq_ok_of_bind h with ⟨bound, hbound, h⟩
    rcases hcolumns.1 hbound with ⟨hall, rfl⟩
    cases h
    exact ⟨⟨t, ht⟩, hall, rfl⟩
  · rintro ⟨⟨t, ht⟩, hall, rfl⟩
    rw [ht, hcolumns.2 ⟨hall, rfl⟩]
    rfl

/-- **A filter whose references are bound** has columns that are there, and explicit paths that lead
to tables it needs. -/
theorem bindFilter_sound {rule : UnqualifiedRule} {e : Expr Reference} {f : BoundFilter}
    (h : (db.bindFilter home rule e).result = .ok f) :
    (∃ t, db.table home = .ok t) ∧ f.Sound db home := by
  rw [(bindFilter_returns rule e).result] at h
  rcases eq_ok_of_bind h with ⟨t, ht, h⟩
  rcases eq_ok_of_bind h with ⟨bound, hbound, h⟩
  cases h
  have hbindings : ∀ b ∈ bound.columns, db.hasColumn b.column.table b.column.column = true
      ∧ (db.schema.Leads home b.path b.column.table
        ∨ b.path = [] ∧ b.column.table ∈ (db.schema.reachable home).map Reached.table) := by
    intro b hb
    rcases Expr.exists_of_mapColumnsM hbound b hb with ⟨r, -, hr⟩
    exact bind_sound hr
  refine ⟨⟨t, ht⟩, ?_, ?_, ?_⟩
  · intro c hc
    rw [Expr.columns_mapColumns] at hc
    rcases List.mem_map.1 hc with ⟨b, hb, rfl⟩
    exact (hbindings b hb).1
  · intro p hp
    rcases mem_explicitPaths.1 hp with ⟨b, hb, hne, rfl⟩
    refine ⟨?_, (hbindings b hb).2.resolve_right fun h => hne h.1⟩
    rw [BoundFilter.mem_owners, Expr.columns_mapColumns]
    exact ⟨b.column, List.mem_map_of_mem hb, rfl⟩
  · intro id hid
    rw [BoundFilter.mem_owners, Expr.columns_mapColumns] at hid
    rcases hid with ⟨c, hc, rfl⟩
    rcases List.mem_map.1 hc with ⟨b, hb, rfl⟩
    rcases (hbindings b hb).2 with hleads | ⟨-, hreached⟩
    · by_cases hpath : b.path = []
      · rw [hpath] at hleads
        exact Or.inl (endOf_eq hleads).symm
      · exact Or.inr (Or.inl ⟨_, mem_explicitPaths.2 ⟨b, hb, hpath, rfl⟩, rfl⟩)
    · exact Or.inr (Or.inr hreached)

end Database

/-! ## References that cannot be bound -/

/-- The causes for which a reference cannot be bound. -/
def Failure.OfReference : Failure → Prop
  | unknownColumn .. | unknownRelation .. | ambiguousColumn .. => True
  | _ => False

namespace Database

variable {db : Database} {home : TableId} {x : Failure}

lemma bindOn_error {id : TableId} {path : List Relation} {name : String}
    (h : db.bindOn id path name = .error x) : x.OfReference := by
  simp only [bindOn] at h
  split_ifs at h
  cases h
  trivial

lemma firstHops_error {segment : String} (h : db.firstHops home segment = .error x) :
    x.OfReference := by
  simp only [firstHops] at h
  split at h
  · cases h
  · split_ifs at h
    cases h
    trivial

lemma followHops_error {segments : List String} :
    ∀ {path : List Relation}, db.followHops home path segments = .error x → x.OfReference := by
  induction segments with
  | nil =>
    intro path h
    cases h
  | cons segment rest ih =>
    intro path h
    simp only [followHops] at h
    split at h
    · exact ih h
    · cases h
      trivial

lemma search_error {name : String} (h : db.search home name = .error x) : x.OfReference := by
  simp only [search] at h
  split at h <;> cases h <;> trivial

/-- **A reference is refused** because of a column or a relation that it names. -/
theorem bind_error {rule : UnqualifiedRule} {r : Reference} (h : db.bind home rule r = .error x) :
    x.OfReference := by
  simp only [bind] at h
  split at h
  · exact bindOn_error h
  · rename_i segments name _
    cases segments with
    | nil => exact bindOn_error h
    | cons first rest =>
      simp only [bindPath] at h
      rcases eq_error_of_bind h with h | ⟨path, -, h⟩
      · exact firstHops_error h
      · rcases eq_error_of_bind h with h | ⟨path', -, h⟩
        · exact followHops_error h
        · exact bindOn_error h
  · split_ifs at h
    exact search_error h

lemma table_error {id : TableId} (h : db.table id = .error x) : x = .unknownTable id := by
  simp only [table] at h
  split at h
  · cases h
  · cases h
    rfl

/-- A filter that is refused has a reference that is refused, or its home table is not there. -/
lemma cases_of_bindFilter_error {rule : UnqualifiedRule} {e : Expr Reference}
    (h : (db.bindFilter home rule e).result = .error x) :
    db.table home = .error x ∨ ∃ r ∈ e.columns, db.bind home rule r = .error x := by
  rw [(bindFilter_returns rule e).result] at h
  rcases eq_error_of_bind h with h | ⟨t, -, h⟩
  · exact Or.inl h
  · rcases eq_error_of_bind h with h | ⟨bound, -, h⟩
    · exact Or.inr (Expr.exists_of_mapColumnsM_error h)
    · cases h

/-- **A filter is refused** because its home table is not there, or because of a reference. -/
theorem bindFilter_error {rule : UnqualifiedRule} {e : Expr Reference}
    (h : (db.bindFilter home rule e).result = .error x) :
    x = .unknownTable home ∨ x.OfReference := by
  rcases cases_of_bindFilter_error h with h | ⟨r, -, h⟩
  · exact Or.inl (table_error h)
  · exact Or.inr (bind_error h)

end Database

end LinkedTables
