import Mathlib
import LinkedTables.Catalog
import LinkedTables.Proofs.Traced

/-!
# Catalogs in use

`Catalog.Reachable` holds of the catalogs that a caller can have: an empty one, and what the calls
that register a table, declare a relation or replace the settings make of one.  A call that fails
leaves the caller with the catalog there was.

What they have in common is `Catalog.Closed`: the schema speaks of the tables that are there,
every relation stands with its source and leads to another table, and no table declares two
relations of one name.  One lemma for each call says that it keeps this, and `Reachable.closed`
follows by induction.
-/

namespace LinkedTables

namespace Schema

/-- Every relation is declared on its source and leads to a registered table, and to another one. -/
def Closed (s : Schema) : Prop :=
  ∀ id, ∀ r ∈ s.relationsOf id, r.source = id ∧ r.target ≠ id ∧ r.target < s.size

/-- No table declares two relations of one name. -/
def NamesOnce (s : Schema) : Prop := ∀ id, ((s.relationsOf id).map Relation.name).Nodup

lemma closed_empty : Schema.empty.Closed := by
  intro id r hr
  simp [relationsOf, Schema.empty] at hr

lemma namesOnce_empty : Schema.empty.NamesOnce := by
  intro id
  simp [relationsOf, Schema.empty]

/-- A relation is known by the table it is declared on and its name. -/
lemma NamesOnce.eq_of_name_eq {s : Schema} (hs : s.NamesOnce) {id : TableId} {q r : Relation}
    (hq : q ∈ s.relationsOf id) (hr : r ∈ s.relationsOf id) (h : q.name = r.name) : q = r :=
  List.inj_on_of_nodup_map (hs id) hq hr h

lemma addTable_eq_ok {s s' : Schema} {name : String} {id : TableId}
    (h : s.addTable name = .ok (s', id)) : s' = ⟨s.entries.push ⟨name, []⟩⟩ := by
  simp only [addTable] at h
  split at h
  · cases h
  · cases h
    rfl

/-- A new table has no relations, and the others keep theirs. -/
lemma relationsOf_push (s : Schema) (name : String) (id : TableId) :
    relationsOf ⟨s.entries.push ⟨name, []⟩⟩ id = s.relationsOf id := by
  simp only [relationsOf, Array.getElem?_push]
  split_ifs with hid
  · simp [hid]
  · rfl

lemma Closed.addTable {s s' : Schema} {name : String} {id : TableId} (hs : s.Closed)
    (h : s.addTable name = .ok (s', id)) : s'.Closed := by
  rw [addTable_eq_ok h]
  intro id r hr
  rw [relationsOf_push] at hr
  obtain ⟨hsource, hne, hlt⟩ := hs id r hr
  refine ⟨hsource, hne, ?_⟩
  rw [size, Array.size_push]
  exact Nat.lt_succ_of_lt hlt

lemma NamesOnce.addTable {s s' : Schema} {name : String} {id : TableId} (hs : s.NamesOnce)
    (h : s.addTable name = .ok (s', id)) : s'.NamesOnce := by
  rw [addTable_eq_ok h]
  intro id
  rw [relationsOf_push]
  exact hs id

lemma addRelation_eq_ok {s s' : Schema} {r : Relation} (h : s.addRelation r = .ok s') :
    r.target < s.size ∧ r.source ≠ r.target ∧ (∀ q ∈ s.relationsOf r.source, q.name ≠ r.name)
      ∧ ∃ entry, s.entries[r.source]? = some entry ∧
        s' = ⟨s.entries.setIfInBounds r.source
          { entry with relations := entry.relations ++ [r] }⟩ := by
  simp only [addRelation] at h
  split at h
  · cases h
  · cases h
  · rename_i target entry htarget hsource
    split_ifs at h with hself hname
    cases h
    refine ⟨(Array.getElem?_eq_some_iff.1 htarget).1, hself, ?_, entry, hsource, rfl⟩
    simpa [relationsOf, hsource] using hname

/-- The source gets one relation more, and the others keep theirs. -/
lemma relationsOf_addRelation {s s' : Schema} {r : Relation} (h : s.addRelation r = .ok s')
    (id : TableId) :
    s'.relationsOf id = s.relationsOf id ++ if id = r.source then [r] else [] := by
  obtain ⟨-, -, -, entry, hentry, rfl⟩ := addRelation_eq_ok h
  obtain ⟨hlt, hget⟩ := Array.getElem?_eq_some_iff.1 hentry
  simp only [relationsOf, Array.getElem?_setIfInBounds]
  by_cases hid : id = r.source
  · simp [hid, hlt, hget]
  · simp [hid, Ne.symm hid]

lemma Closed.addRelation {s s' : Schema} {r : Relation} (hs : s.Closed)
    (h : s.addRelation r = .ok s') : s'.Closed := by
  have hrelations := relationsOf_addRelation h
  obtain ⟨hlt, hself, -, entry, -, rfl⟩ := addRelation_eq_ok h
  intro id r' hr'
  have hsize : size ⟨s.entries.setIfInBounds r.source
      { entry with relations := entry.relations ++ [r] }⟩ = s.size := by
    simp [size]
  rw [hsize]
  rw [hrelations, List.mem_append] at hr'
  rcases hr' with hr' | hr'
  · exact hs id r' hr'
  · split_ifs at hr' with hid
    · rw [List.mem_singleton.1 hr', hid]
      exact ⟨rfl, Ne.symm hself, hlt⟩
    · simp at hr'

lemma NamesOnce.addRelation {s s' : Schema} {r : Relation} (hs : s.NamesOnce)
    (h : s.addRelation r = .ok s') : s'.NamesOnce := by
  intro id
  rw [relationsOf_addRelation h]
  split_ifs with hid
  · rw [List.map_append, List.nodup_append]
    refine ⟨hs id, by simp, ?_⟩
    intro name hname name' hname' heq
    rcases List.mem_map.1 hname with ⟨q, hq, rfl⟩
    rw [List.map_singleton, List.mem_singleton] at hname'
    exact (addRelation_eq_ok h).2.2.1 q (hid ▸ hq) (heq.trans hname')
  · rw [List.append_nil]
    exact hs id

end Schema

namespace Catalog

/-- The catalogs that calls can lead to. -/
inductive Reachable : Catalog → Prop
  | empty (settings : Settings) : Reachable (.empty settings)
  | addTable {c c' : Catalog} {id : TableId} (name : String) (t : Table) :
      Reachable c → (c.addTable name t).result = .ok (c', id) → Reachable c'
  | relate {c c' : Catalog} (r : Relation) :
      Reachable c → (c.relate r).result = .ok c' → Reachable c'
  | withSettings {c : Catalog} (settings : Settings) :
      Reachable c → Reachable (c.withSettings settings)

/-- The schema is about the tables of the catalog, and its relations join them and are known by
their names. -/
structure Closed (c : Catalog) : Prop where
  size_eq : c.schema.size = c.size
  schema : c.schema.Closed
  names : c.schema.NamesOnce

lemma Closed.lt_schema_size {c : Catalog} (hc : c.Closed) {id : TableId} (hid : id < c.size) :
    id < c.schema.size := lt_of_lt_of_eq hid hc.size_eq.symm

lemma closed_empty (settings : Settings) : (Catalog.empty settings).Closed :=
  ⟨rfl, Schema.closed_empty, Schema.namesOnce_empty⟩

lemma addTable_returns (c : Catalog) (name : String) (t : Table) :
    (c.addTable name t).Returns (do
      let x ← c.schema.addTable name
      pure ({ c with database := ⟨x.1, c.database.tables.push t⟩ }, x.2)) :=
  (Traced.returns_answer _).bind fun _ => Traced.Returns.after_emit _ (Traced.returns_pure _)

lemma addTable_eq_ok {c c' : Catalog} {name : String} {t : Table} {id : TableId}
    (h : (c.addTable name t).result = .ok (c', id)) :
    ∃ schema, c.schema.addTable name = .ok (schema, id)
      ∧ c' = { c with database := ⟨schema, c.database.tables.push t⟩ } := by
  rw [(addTable_returns c name t).result] at h
  obtain ⟨x, hschema, h⟩ := eq_ok_of_bind h
  cases h
  exact ⟨x.1, hschema, rfl⟩

lemma Closed.addTable {c c' : Catalog} {name : String} {t : Table} {id : TableId} (hc : c.Closed)
    (h : (c.addTable name t).result = .ok (c', id)) : c'.Closed := by
  obtain ⟨schema, hschema, rfl⟩ := addTable_eq_ok h
  refine ⟨?_, hc.schema.addTable hschema, hc.names.addTable hschema⟩
  have hsize := hc.size_eq
  rw [Schema.addTable_eq_ok hschema]
  simpa [Catalog.schema, Catalog.size, Schema.size] using hsize

lemma relate_returns (c : Catalog) (r : Relation) :
    (c.relate r).Returns (do
      c.requireColumn r.source r.onLeft
      c.requireColumn r.target r.onRight
      let schema ← c.schema.addRelation r
      pure { c with database := { c.database with schema := schema } }) :=
  (Traced.returns_answer _).bind fun _ => (Traced.returns_answer _).bind fun _ =>
    (Traced.returns_answer _).bind fun _ => Traced.Returns.after_emit _ (Traced.returns_pure _)

lemma relate_eq_ok {c c' : Catalog} {r : Relation} (h : (c.relate r).result = .ok c') :
    ∃ schema, c.schema.addRelation r = .ok schema
      ∧ c' = { c with database := { c.database with schema := schema } } := by
  rw [(relate_returns c r).result] at h
  obtain ⟨-, -, h⟩ := eq_ok_of_bind h
  obtain ⟨-, -, h⟩ := eq_ok_of_bind h
  obtain ⟨schema, hschema, h⟩ := eq_ok_of_bind h
  cases h
  exact ⟨schema, hschema, rfl⟩

lemma Closed.relate {c c' : Catalog} {r : Relation} (hc : c.Closed)
    (h : (c.relate r).result = .ok c') : c'.Closed := by
  obtain ⟨schema, hschema, rfl⟩ := relate_eq_ok h
  refine ⟨?_, hc.schema.addRelation hschema, hc.names.addRelation hschema⟩
  have hsize := hc.size_eq
  obtain ⟨-, -, -, entry, -, rfl⟩ := Schema.addRelation_eq_ok hschema
  simpa [Catalog.schema, Catalog.size, Schema.size] using hsize

/-- **In a catalog that calls lead to**, the relations join registered tables. -/
theorem Reachable.closed {c : Catalog} (h : c.Reachable) : c.Closed := by
  induction h with
  | empty settings => exact closed_empty settings
  | addTable name t _ hcall ih => exact ih.addTable hcall
  | relate r _ hcall ih => exact ih.relate hcall
  | withSettings settings _ ih => exact ⟨ih.size_eq, ih.schema, ih.names⟩

/-! ## Calls in a row -/

/-- The catalog after a call that registers a table, or after its failure. -/
def withTable (c : Catalog) (name : String) (t : Table) : Catalog :=
  match (c.addTable name t).result with
  | .ok (c', _) => c'
  | .error _ => c

/-- The catalog after a call that declares a relation, or after its failure. -/
def withRelation (c : Catalog) (r : Relation) : Catalog :=
  match (c.relate r).result with
  | .ok c' => c'
  | .error _ => c

lemma Reachable.withTable {c : Catalog} (h : c.Reachable) (name : String) (t : Table) :
    (c.withTable name t).Reachable := by
  simp only [Catalog.withTable]
  split
  · rename_i hcall
    exact h.addTable name t hcall
  · exact h

lemma Reachable.withRelation {c : Catalog} (h : c.Reachable) (r : Relation) :
    (c.withRelation r).Reachable := by
  simp only [Catalog.withRelation]
  split
  · rename_i hcall
    exact h.relate r hcall
  · exact h

end Catalog

end LinkedTables
