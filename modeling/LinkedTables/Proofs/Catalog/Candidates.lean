import Mathlib
import LinkedTables.Proofs.Catalog.Qualified
import LinkedTables.Proofs.Join.ExplicitPath

/-!
# Every candidate can be selected

A name that several tables in reach have is refused, and the failure names these tables.  Any of
them can be meant: behind `self` the name is a column of the home table, and behind the names of the
relations of the nearest path to another table it is a column of that one (`Catalog.Selects`).

**No relation of the same name comes in between.**  The first segment of the path is a relation of
the home table itself, which nothing comes before, and each further one is looked up on the table
reached so far and nowhere else.

**No table is joined twice**, as the nearest path comes to none twice, so that such a path can also
be planned (`JoinPlan.plan_eq_along`).
-/

namespace LinkedTables

namespace Schema

variable {s : Schema} {home id : TableId} {path : List Relation}

/-! ## The home table comes first -/

lemma rank_nil_le (s : Schema) (home : TableId) (path : List Relation) :
    s.rank home [] ≤ s.rank home path := by
  cases path with
  | nil => exact le_rfl
  | cons r rest => exact (rank_lt_of_length_lt (by simp)).le

lemma nearest_home (s : Schema) (home : TableId) : s.Nearest home [] home :=
  ⟨.nil, fun path' _ => rank_nil_le s home path'⟩

/-- Nothing comes before the home table. -/
lemma not_before_home : ¬ s.Before home id home := by
  rintro ⟨path, path', -, hpath', hlt⟩
  rw [hpath'.unique (nearest_home s home)] at hlt
  exact not_lt_of_ge (rank_nil_le s home path) hlt

/-- A relation of the home table is what its name stands for as a first segment. -/
lemma begins_of_mem {r : Relation} (hr : r ∈ s.relationsOf home) :
    s.Begins home r.name [r] r.target :=
  .relation (nearest_home s home) hr rfl fun _ hbefore => absurd hbefore not_before_home

end Schema

namespace Database

variable {db : Database} {home id : TableId} {rule : UnqualifiedRule} {column : String}
  {path : List Relation}

/-! ## Behind the names of a path -/

/-- **Any path but the empty one** is found by the names of its relations. -/
lemma bind_map_name (hn : db.schema.NamesOnce) (hhome : home < db.schema.size)
    (h : db.schema.Leads home path id) (hne : path ≠ []) (hcolumn : db.hasColumn id column = true)
    (rule : UnqualifiedRule) (position : ℕ) :
    db.bind home rule ⟨.path (path.map Relation.name) column, position⟩
      = .ok ⟨⟨id, column⟩, path, false⟩ := by
  cases path with
  | nil => exact absurd rfl hne
  | cons r rest =>
    obtain ⟨hr, hrest⟩ := h.walk.of_cons
    exact BindsPath.bindPath_eq hn hhome (.bound (Schema.begins_of_mem hr) hrest hcolumn)

/-! ## Where candidates come from -/

lemma candidates_of_search (hhome : home < db.schema.size) {name : String} {names : List String}
    (h : db.search home name = .error (.ambiguousColumn column names)) :
    ∃ owners, db.schema.Lists home (fun id => db.hasColumn id column = true) owners
      ∧ names = owners.map db.schema.nameOf := by
  simp only [search] at h
  split at h <;> cases h
  exact ⟨_, Schema.lists_filter hhome (db.hasColumn · column), rfl⟩

/-- **Only a search finds several candidates**, and they are the tables in reach that have the
column. -/
lemma candidates_of_bind (hn : db.schema.NamesOnce) (hhome : home < db.schema.size)
    {r : Reference} {names : List String}
    (h : db.bind home rule r = .error (.ambiguousColumn column names)) :
    ∃ owners, db.schema.Lists home (fun id => db.hasColumn id column = true) owners
      ∧ names = owners.map db.schema.nameOf := by
  have hbindOn : ∀ {id : TableId} {path : List Relation} {name : String},
      db.bindOn id path name ≠ .error (.ambiguousColumn column names) := by
    intro id path name h
    simp only [bindOn] at h
    split_ifs at h
    cases h
  simp only [bind] at h
  split at h
  · exact absurd h hbindOn
  · rename_i segments name _
    cases segments with
    | nil => exact absurd h hbindOn
    | cons first rest =>
      rw [bindPath_iff hn hhome] at h
      cases h
  · split_ifs at h
    exact candidates_of_search hhome h

lemma candidates_of_bindFilter (hn : db.schema.NamesOnce) (hhome : home < db.schema.size)
    {e : Expr Reference} {names : List String}
    (h : (db.bindFilter home rule e).result = .error (.ambiguousColumn column names)) :
    ∃ owners, db.schema.Lists home (fun id => db.hasColumn id column = true) owners
      ∧ names = owners.map db.schema.nameOf := by
  rcases cases_of_bindFilter_error h with h | ⟨r, -, h⟩
  · cases table_error h
  · exact candidates_of_bind hn hhome h

end Database

namespace Catalog

variable {c : Catalog} {home id : TableId} {rule : UnqualifiedRule} {column : String}
  {path : List Relation}

/-! ## What selects a table -/

/-- Behind the names of a path the name of a column selects one table, and a comparison of it is
joined along that path. -/
structure Selects (c : Catalog) (home : TableId) (rule : UnqualifiedRule) (id : TableId)
    (column : String) (path : List Relation) (position : ℕ) : Prop where
  bound : c.database.bind home rule ⟨.path (path.map Relation.name) column, position⟩
    = .ok ⟨⟨id, column⟩, path, false⟩
  planned : ∀ op literal, ∃ f p, (c.database.bindFilter home rule
      (.compare ⟨.path (path.map Relation.name) column, position⟩ op literal)).result = .ok f
    ∧ f = ⟨.compare ⟨id, column⟩ op literal, [⟨id, path⟩]⟩
    ∧ c.schema.plan home f = .ok p ∧ p.home = home ∧ p.relations = path
    ∧ p.steps = JoinPlan.along path

/-- **The nearest path selects a table** that has the column. -/
lemma selects_of_nearest (hc : c.Reachable) (hhome : home < c.size)
    (hpath : c.schema.Nearest home path id) (hne : id ≠ home)
    (hcolumn : c.database.hasColumn id column = true) (rule : UnqualifiedRule) (position : ℕ) :
    c.Selects home rule id column path position := by
  have hs : c.database.schema.Closed := hc.closed.schema
  have hsize : home < c.database.schema.size := hc.closed.lt_schema_size hhome
  have hpath' : path ≠ [] := by
    rintro rfl
    exact hne (hpath.1.unique .nil)
  have hbound := Database.bind_map_name hc.closed.names hsize hpath.1 hpath' hcolumn rule position
  refine ⟨hbound, fun op literal => ?_⟩
  have hfilter := Database.bindFilter_compare hhome hbound op literal
  rw [if_neg hpath'] at hfilter
  refine ⟨_, _, hfilter, rfl, JoinPlan.plan_eq_along hs hpath.1 hne (hpath.nodup hsize) rfl ?_,
    rfl, JoinPlan.map_toRelation_along, rfl⟩
  simp [BoundFilter.owners, distinct]

/-- **Every ambiguity can be cured.**  Behind the names of the nearest path each column of a table
in reach can be had, and so whenever a name is refused for its candidates, each of them can be
selected: the home table behind `self`, and any other one along its path. -/
theorem exists_selects (hc : c.Reachable) (hhome : home < c.size) (rule : UnqualifiedRule) :
    (∀ id path column position, c.schema.Nearest home path id → id ≠ home →
        c.database.hasColumn id column = true → c.Selects home rule id column path position)
      ∧ ∀ e column names,
        (c.database.bindFilter home rule e).result = .error (.ambiguousColumn column names) →
        ∀ name ∈ names, ∃ id, c.schema.tableId? name = some id
          ∧ (id = home → ∀ position, c.database.bind home rule ⟨.home column, position⟩
            = .ok ⟨⟨home, column⟩, [], false⟩)
          ∧ (id ≠ home → ∃ path, c.schema.Nearest home path id
            ∧ ∀ position, c.Selects home rule id column path position) := by
  have hsize : home < c.database.schema.size := hc.closed.lt_schema_size hhome
  refine ⟨fun id path column position hpath hne hcolumn =>
    selects_of_nearest hc hhome hpath hne hcolumn rule position, ?_⟩
  intro e column names herror name hname
  obtain ⟨owners, howners, rfl⟩ := Database.candidates_of_bindFilter hc.closed.names hsize herror
  obtain ⟨id, hid, rfl⟩ := List.mem_map.1 hname
  obtain ⟨hreach, hcolumn⟩ := (howners.mem_iff id).1 hid
  refine ⟨id, hc.consistent.tables.tableId?_eq (hc.tableName?_eq hhome hreach), ?_, ?_⟩
  · rintro rfl position
    exact if_pos hcolumn
  · intro hne
    obtain ⟨path, hpath⟩ := Schema.exists_nearest hsize hreach
    exact ⟨path, hpath, fun position =>
      selects_of_nearest hc hhome hpath hne hcolumn rule position⟩

/-- All tables have a column `k`.  Of the two ways to `o`, which is named last, the one over `a` is
written out. -/
theorem exists_selects_crossing :
    crossing.Reachable ∧ 0 < crossing.size
      ∧ (crossing.database.bindFilter 0 .strict (.compare ⟨.plain "k", 0⟩ .eq (.integer 1))).result
        = .error (.ambiguousColumn "k" ["h", "a", "c", "b", "o"])
      ∧ crossing.schema.tableId? "o" = some 4
      ∧ crossing.schema.Nearest 0
        [⟨0, "a", 1, "k", "k"⟩, ⟨1, "b", 3, "k", "k"⟩, ⟨3, "o", 4, "k", "k"⟩] 4
      ∧ crossing.Selects 0 .strict 4 "k"
        [⟨0, "a", 1, "k", "k"⟩, ⟨1, "b", 3, "k", "k"⟩, ⟨3, "o", 4, "k", "k"⟩] 0 := by
  have h : 0 < crossing.size ∧ 0 < crossing.schema.size
      ∧ (crossing.database.bindFilter 0 .strict
          (.compare ⟨.plain "k", 0⟩ .eq (.integer 1))).result
        = .error (.ambiguousColumn "k" ["h", "a", "c", "b", "o"])
      ∧ crossing.schema.tableId? "o" = some 4
      ∧ (⟨4, [⟨0, "a", 1, "k", "k"⟩, ⟨1, "b", 3, "k", "k"⟩, ⟨3, "o", 4, "k", "k"⟩]⟩ : Reached)
        ∈ crossing.schema.reachable 0 :=
    ⟨by cbv, by cbv, by cbv, by cbv, by decide +kernel⟩
  obtain ⟨hhome, hsize, herror, hid, hmem⟩ := h
  have hnearest := (Schema.nearest_iff_mem hsize).2 hmem
  obtain ⟨-, hcured⟩ := exists_selects reachable_crossing hhome .strict
  obtain ⟨id, hid', -, hselects⟩ := hcured _ _ _ herror "o" (by decide)
  obtain rfl : 4 = id := Option.some_injective _ (hid.symm.trans hid')
  obtain ⟨path, hpath, hall⟩ := hselects (by decide)
  cases hpath.unique hnearest
  exact ⟨reachable_crossing, hhome, herror, hid, hnearest, hall 0⟩

end Catalog

end LinkedTables
