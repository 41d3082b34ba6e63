import Mathlib
import LinkedTables.Proofs.Catalog.Reachable

/-!
# Catalogs stay consistent

A catalog keeps what it knows in two stores: the schema has the names of the tables and their
relations, and the database has the tables themselves.  They are written to by separate calls, and
a call checks only what it is about to add.  `Catalog.Consistent` says what is nevertheless true of
both after **any sequence of calls**, whatever their arguments are and whether or not they fail.

`Catalog.Closed` has the part of it that is about sizes, ends of relations and their names.  Two
more facts are carried through the calls here:

* **Names of tables.**  No two tables have one name, so a table is found again by its name.
* **Key columns.**  The columns that a relation joins are columns of the tables it joins.  They stay
  there because a table never changes once it is registered.
-/

namespace LinkedTables

namespace Schema

variable {s s' : Schema} {name : String} {id : TableId}

/-! ## Names of tables -/

/-- No two tables have one name. -/
def TablesOnce (s : Schema) : Prop := (s.entries.toList.map Entry.name).Nodup

lemma tablesOnce_empty : Schema.empty.TablesOnce := by
  simp [TablesOnce, Schema.empty]

lemma TablesOnce.addTable (hs : s.TablesOnce) (h : s.addTable name = .ok (s', id)) :
    s'.TablesOnce := by
  have hfresh : s.tableId? name = none := by
    simp only [Schema.addTable] at h
    split at h
    · cases h
    · assumption
  rw [tableId?, Array.findIdx?_eq_none_iff] at hfresh
  rw [addTable_eq_ok h, TablesOnce, Array.toList_push, List.map_append]
  refine List.Nodup.append hs (by simp) ?_
  intro name' hold hnew
  obtain ⟨entry, hentry, rfl⟩ := List.mem_map.1 hold
  rw [List.map_singleton, List.mem_singleton] at hnew
  simpa [hnew] using hfresh entry (Array.mem_toList_iff.1 hentry)

/-- A relation does not rename its source. -/
lemma TablesOnce.addRelation {r : Relation} (hs : s.TablesOnce) (h : s.addRelation r = .ok s') :
    s'.TablesOnce := by
  obtain ⟨-, -, -, entry, hentry, rfl⟩ := addRelation_eq_ok h
  obtain ⟨hlt, rfl⟩ := Array.getElem?_eq_some_iff.1 hentry
  have hlt' : r.source < (s.entries.toList.map Entry.name).length := by simpa using hlt
  have hname : s.entries[r.source].name = (s.entries.toList.map Entry.name)[r.source] := by simp
  rwa [TablesOnce, Array.toList_setIfInBounds, List.map_set, hname, List.set_getElem_self]

lemma nameOf_eq (h : s.tableName? id = some name) : s.nameOf id = name := by
  rw [nameOf, h]
  rfl

/-- **A table is found by its name.** -/
lemma TablesOnce.tableId?_eq (hs : s.TablesOnce) (h : s.tableName? id = some name) :
    s.tableId? name = some id := by
  obtain ⟨entry, hentry, rfl⟩ := Option.map_eq_some_iff.1 h
  obtain ⟨hlt, rfl⟩ := Array.getElem?_eq_some_iff.1 hentry
  refine Array.findIdx?_eq_some_iff_getElem.2 ⟨hlt, by simp, ?_⟩
  -- an earlier table of the name would be the same one
  intro j hj hname
  have hj' : j < s.entries.size := lt_trans hj hlt
  have hget : (s.entries.toList.map Entry.name)[j]? = (s.entries.toList.map Entry.name)[id]? := by
    simpa [hj', hlt] using hname
  exact hj.ne ((List.getElem?_inj (by simpa using hj') hs).1 hget)

end Schema

namespace Catalog

variable {c c' : Catalog}

/-! ## Key columns -/

/-- Every relation joins columns that its tables have. -/
def Keyed (c : Catalog) : Prop :=
  ∀ id, ∀ r ∈ c.schema.relationsOf id,
    c.database.hasColumn r.source r.onLeft = true ∧ c.database.hasColumn r.target r.onRight = true

lemma keyed_empty (settings : Settings) : (Catalog.empty settings).Keyed := by
  intro id r hr
  simp [Catalog.empty, Catalog.schema, Schema.empty, Schema.relationsOf] at hr

lemma requireColumn_eq_ok_iff {id : TableId} {column : String} :
    c.requireColumn id column = .ok () ↔ ∃ t, c.table? id = some t ∧ t.hasColumn column = true := by
  simp only [requireColumn, table?, Database.table]
  cases c.database.tables[id]? with
  | none =>
    refine iff_of_false ?_ (by simp)
    rintro ⟨⟩
  | some t =>
    show (if t.hasColumn column = true then _ else _) = _ ↔ _
    by_cases hcolumn : t.hasColumn column = true <;> simp [hcolumn, pure, Except.pure]

/-- The columns that were there are there when a table has been added. -/
lemma hasColumn_push {db : Database} {schema : Schema} {t : Table} {id : TableId} {column : String}
    (h : db.hasColumn id column = true) :
    Database.hasColumn ⟨schema, db.tables.push t⟩ id column = true := by
  simp only [Database.hasColumn] at h ⊢
  cases ht : db.tables[id]? with
  | none => simp [ht] at h
  | some t' =>
    have hlt : id < db.tables.size := (Array.getElem?_eq_some_iff.1 ht).1
    rwa [Array.getElem?_push_lt hlt, ← Array.getElem?_eq_getElem hlt]

lemma Keyed.addTable {name : String} {t : Table} {id : TableId} (hc : c.Keyed)
    (h : (c.addTable name t).result = .ok (c', id)) : c'.Keyed := by
  obtain ⟨schema, hschema, rfl⟩ := addTable_eq_ok h
  intro id r hr
  rw [Catalog.schema, Schema.addTable_eq_ok hschema, Schema.relationsOf_push] at hr
  obtain ⟨hleft, hright⟩ := hc id r hr
  exact ⟨hasColumn_push hleft, hasColumn_push hright⟩

lemma Keyed.relate {r : Relation} (hc : c.Keyed) (h : (c.relate r).result = .ok c') : c'.Keyed := by
  have hkeys : c.database.hasColumn r.source r.onLeft = true
      ∧ c.database.hasColumn r.target r.onRight = true := by
    rw [(relate_returns c r).result] at h
    obtain ⟨⟨⟩, hleft, h⟩ := eq_ok_of_bind h
    obtain ⟨⟨⟩, hright, -⟩ := eq_ok_of_bind h
    exact ⟨(Option.any_eq_true ..).2 (requireColumn_eq_ok_iff.1 hleft),
      (Option.any_eq_true ..).2 (requireColumn_eq_ok_iff.1 hright)⟩
  obtain ⟨schema, hschema, rfl⟩ := relate_eq_ok h
  intro id r' hr'
  rw [Catalog.schema, Schema.relationsOf_addRelation hschema, List.mem_append] at hr'
  rcases hr' with hr' | hr'
  · exact hc id r' hr'
  · split_ifs at hr'
    · rw [List.mem_singleton.1 hr']
      exact hkeys
    · simp at hr'

/-! ## Sequences of calls -/

/-- A call that changes a catalog. -/
inductive Call where
  | addTable (name : String) (t : Table)
  | relate (r : Relation)
  | withSettings (settings : Settings)

/-- The catalog after a call, which is the same one if the call fails. -/
def after (c : Catalog) : Call → Catalog
  | .addTable name t => c.withTable name t
  | .relate r => c.withRelation r
  | .withSettings settings => c.withSettings settings

lemma Reachable.after (h : c.Reachable) (call : Call) : (c.after call).Reachable := by
  cases call with
  | addTable name t => exact h.withTable name t
  | relate r => exact h.withRelation r
  | withSettings settings => exact h.withSettings settings

/-- **What is true of a catalog at any time.** -/
structure Consistent (c : Catalog) : Prop where
  /-- the schema has one entry for each table -/
  size_eq : c.schema.size = c.size
  tables : c.schema.TablesOnce
  /-- a registered table has a name, and is found by it -/
  found : ∀ id < c.size, ∃ name, c.schema.tableName? id = some name
    ∧ c.schema.tableId? name = some id
  /-- a relation is declared on its source, leads to another registered table, and joins columns
  that the two have -/
  relations : ∀ id, ∀ r ∈ c.schema.relationsOf id, r.source = id ∧ r.target < c.size
    ∧ r.target ≠ id ∧ c.database.hasColumn id r.onLeft = true
    ∧ c.database.hasColumn r.target r.onRight = true
  /-- no table declares two relations of one name -/
  names : c.schema.NamesOnce

/-- A catalog that calls lead to is consistent. -/
lemma Reachable.consistent (h : c.Reachable) : c.Consistent := by
  have hnames : c.schema.TablesOnce ∧ c.Keyed := by
    induction h with
    | empty settings => exact ⟨Schema.tablesOnce_empty, keyed_empty settings⟩
    | addTable name t _ hcall ih =>
      refine ⟨?_, ih.2.addTable hcall⟩
      obtain ⟨schema, hschema, rfl⟩ := addTable_eq_ok hcall
      exact ih.1.addTable hschema
    | relate r _ hcall ih =>
      refine ⟨?_, ih.2.relate hcall⟩
      obtain ⟨schema, hschema, rfl⟩ := relate_eq_ok hcall
      exact ih.1.addRelation hschema
    | withSettings settings _ ih => exact ih
  obtain ⟨htables, hkeyed⟩ := hnames
  refine ⟨h.closed.size_eq, htables, ?_, ?_, h.closed.names⟩
  · intro id hid
    have hlt : id < c.schema.entries.size := h.closed.lt_schema_size hid
    have hname : c.schema.tableName? id = some c.schema.entries[id].name := by
      simp [Schema.tableName?, hlt]
    exact ⟨_, hname, htables.tableId?_eq hname⟩
  · intro id r hr
    obtain ⟨hsource, hne, hlt⟩ := h.closed.schema id r hr
    obtain ⟨hleft, hright⟩ := hkeyed id r hr
    exact ⟨hsource, lt_of_lt_of_eq hlt h.closed.size_eq, hne, hsource ▸ hleft, hright⟩

/-- **Catalogs stay consistent**: so they are after any sequence of calls, with any arguments and
whether or not some of them fail. -/
theorem consistent_of_calls (settings : Settings) (calls : List Call) :
    (calls.foldl after (.empty settings)).Consistent := by
  suffices h : (calls.foldl after (.empty settings)).Reachable from h.consistent
  induction calls using List.reverseRecOn with
  | nil => exact .empty settings
  | append_singleton calls call ih =>
    rw [List.foldl_append]
    exact ih.after call

end Catalog

end LinkedTables
