import Mathlib
import LinkedTables.Proofs.Catalog.Filter
import LinkedTables.Proofs.Catalog.Growth
import LinkedTables.Proofs.Schema.Nearest

/-!
# Declarations succeed or change nothing

What is declared in a catalog is checked twice, by the catalog, which has the tables, and by the
schema, which has the names and relations, and is then written to both.  From outside there is one
condition for each call, and one change.

* **A relation** is declared exactly if both of its ends are registered tables with the key columns,
  they are different, and the source has no relation of that name (`Catalog.Relatable`).  It comes
  last among the relations of its source, and nothing else is changed (`Catalog.Relates`).
* **A table** is registered exactly if no table has its name.  It gets the number of tables that
  there were for its identifier, and no table that was there is changed (`Catalog.Registers`).

A call that is not allowed fails and leaves the catalog as it is.  This is so as well if the two
stores are written to one after the other and nothing is taken back (`Catalog.InPlace`), because all
checks come before the first write.
-/

namespace LinkedTables

namespace Schema

variable {s : Schema} {r : Relation} {name : String}

/-- The schema takes a relation between two tables of its own that are different, if it is the first
one of its name. -/
lemma exists_addRelation_iff : (∃ s', s.addRelation r = .ok s') ↔
    r.target < s.size ∧ r.source < s.size ∧ r.source ≠ r.target
      ∧ ¬ s.Declares r.source r.name := by
  constructor
  · rintro ⟨s', h⟩
    obtain ⟨htarget, hself, hnames, entry, hentry, -⟩ := addRelation_eq_ok h
    exact ⟨htarget, (Array.getElem?_eq_some_iff.1 hentry).1, hself,
      fun ⟨q, hq, hname⟩ => hnames q hq hname⟩
  · rintro ⟨htarget, hsource, hself, hfresh⟩
    have htarget' : s.entries[r.target]? = some s.entries[r.target] :=
      Array.getElem?_eq_getElem htarget
    have hsource' : s.entries[r.source]? = some s.entries[r.source] :=
      Array.getElem?_eq_getElem hsource
    have hnone : s.entries[r.source].relations.any (·.name == r.name) = false := by
      simpa [Declares, relationsOf, hsource'] using hfresh
    simp [addRelation, htarget', hsource', hself, hnone]

/-- The schema takes a table under a name that is not given yet. -/
lemma exists_addTable_iff : (∃ x, s.addTable name = .ok x) ↔ ∀ id, s.tableName? id ≠ some name := by
  have hfind : s.tableId? name = none ↔ ∀ id, s.tableName? id ≠ some name := by
    simp [tableId?, tableName?, Array.findIdx?_eq_none_iff, Array.forall_mem_iff_forall_getElem,
      Array.getElem?_eq_some_iff]
  rw [← hfind, addTable]
  cases s.tableId? name <;> simp

end Schema

namespace Catalog

variable {c c' : Catalog} {r : Relation} {name : String} {t : Table} {id : TableId}

/-! ## Relations -/

/-- What is asked of a relation that is to be declared. -/
structure Relatable (c : Catalog) (r : Relation) : Prop where
  source : ∃ t, c.table? r.source = some t ∧ t.hasColumn r.onLeft = true
  target : ∃ t, c.table? r.target = some t ∧ t.hasColumn r.onRight = true
  different : r.source ≠ r.target
  fresh : ¬ c.schema.Declares r.source r.name

/-- One relation more is all that is changed. -/
structure Relates (c : Catalog) (r : Relation) (c' : Catalog) : Prop where
  settings : c'.settings = c.settings
  tables : c'.database.tables = c.database.tables
  size : c'.schema.size = c.schema.size
  names : ∀ id, c'.schema.tableName? id = c.schema.tableName? id
  last : c'.schema.relationsOf r.source = c.schema.relationsOf r.source ++ [r]
  others : ∀ id ≠ r.source, c'.schema.relationsOf id = c.schema.relationsOf id

lemma Reachable.lt_size_iff (hc : c.Reachable) :
    id < c.schema.size ↔ ∃ t, c.table? id = some t := by
  rw [hc.closed.size_eq]
  constructor
  · intro h
    exact ⟨_, Array.getElem?_eq_getElem h⟩
  · rintro ⟨t, ht⟩
    exact (Array.getElem?_eq_some_iff.1 ht).1

/-- **A relation is declared exactly if it may be.** -/
lemma Reachable.exists_relate_iff (hc : c.Reachable) :
    (∃ c', (c.relate r).result = .ok c') ↔ c.Relatable r := by
  rw [(relate_returns c r).result]
  constructor
  · rintro ⟨c', h⟩
    obtain ⟨⟨⟩, hleft, h⟩ := eq_ok_of_bind h
    obtain ⟨⟨⟩, hright, h⟩ := eq_ok_of_bind h
    obtain ⟨schema, hschema, -⟩ := eq_ok_of_bind h
    obtain ⟨-, -, hself, hfresh⟩ := Schema.exists_addRelation_iff.1 ⟨schema, hschema⟩
    exact ⟨requireColumn_eq_ok_iff.1 hleft, requireColumn_eq_ok_iff.1 hright, hself, hfresh⟩
  · rintro ⟨hsource, htarget, hself, hfresh⟩
    have hlt : r.target < c.schema.size ∧ r.source < c.schema.size := by
      rw [hc.lt_size_iff, hc.lt_size_iff]
      exact ⟨htarget.imp fun _ => And.left, hsource.imp fun _ => And.left⟩
    obtain ⟨schema, hschema⟩ := Schema.exists_addRelation_iff.2 ⟨hlt.1, hlt.2, hself, hfresh⟩
    rw [requireColumn_eq_ok_iff.2 hsource, requireColumn_eq_ok_iff.2 htarget, hschema]
    exact ⟨_, rfl⟩

lemma relates_of_relate (h : (c.relate r).result = .ok c') : c.Relates r c' := by
  obtain ⟨schema, hschema, rfl⟩ := relate_eq_ok h
  have hrelations := Schema.relationsOf_addRelation hschema
  have hsize : schema.size = c.schema.size := by
    obtain ⟨-, -, -, entry, -, rfl⟩ := Schema.addRelation_eq_ok hschema
    simp [Schema.size]
  refine ⟨rfl, rfl, hsize, Schema.tableName?_addRelation hschema, ?_, fun id hid => ?_⟩
  · exact (hrelations r.source).trans (by rw [if_pos rfl])
  · exact (hrelations id).trans (by rw [if_neg hid, List.append_nil])

/-! ## Tables -/

/-- One table more is all that is changed. -/
structure Registers (c : Catalog) (name : String) (t : Table) (c' : Catalog) (id : TableId) :
    Prop where
  id_eq : id = c.size
  settings : c'.settings = c.settings
  size : c'.size = c.size + 1 ∧ c'.schema.size = c.schema.size + 1
  new : c'.schema.tableName? id = some name ∧ c'.table? id = some t
    ∧ c'.schema.relationsOf id = []
  earlier : ∀ i < c.size, c'.schema.tableName? i = c.schema.tableName? i
    ∧ c'.table? i = c.table? i ∧ c'.schema.relationsOf i = c.schema.relationsOf i

/-- **A table is registered exactly if its name is not given yet.** -/
lemma exists_addTable_iff : (∃ x, (c.addTable name t).result = .ok x) ↔
    ∀ id, c.schema.tableName? id ≠ some name := by
  rw [← Schema.exists_addTable_iff, (addTable_returns c name t).result]
  constructor
  · rintro ⟨x, h⟩
    obtain ⟨y, hy, -⟩ := eq_ok_of_bind h
    exact ⟨y, hy⟩
  · rintro ⟨y, hy⟩
    rw [hy]
    exact ⟨_, rfl⟩

lemma Reachable.registers_of_addTable (hc : c.Reachable)
    (h : (c.addTable name t).result = .ok (c', id)) : c.Registers name t c' id := by
  obtain ⟨schema, hschema, rfl⟩ := addTable_eq_ok h
  have hsize : c.schema.size = c.size := hc.closed.size_eq
  obtain ⟨hid, hname⟩ := Schema.tableName?_of_addTable hschema
  obtain rfl : id = c.size := hid.trans hsize
  obtain rfl := Schema.addTable_eq_ok hschema
  have hrelations := Schema.relationsOf_push c.schema name
  have hnone : c.schema.relationsOf c.size = [] := Schema.relationsOf_eq_nil hsize.le
  refine ⟨rfl, rfl, ?_, ⟨hname, ?_, (hrelations _).trans hnone⟩, fun i hi => ⟨?_, ?_, hrelations i⟩⟩
  · simp [size, schema, Schema.size]
  · simp [size, table?]
  · exact Schema.tableName?_push (hsize ▸ hi)
  · exact (Array.getElem?_push_lt hi).trans (Array.getElem?_eq_getElem hi).symm

/-! ## Both stores change or neither -/

/-- Steps that write to one catalog.  What has been written when one of them fails stays there. -/
abbrev InPlace := ExceptT Failure (StateM Catalog)

/-- A step that reads the catalog only. -/
def InPlace.read {α : Type} (f : Catalog → Except Failure α) : InPlace α :=
  ExceptT.mk fun c => (f c, c)

/-- Register a table by two writes, the one to the schema first. -/
def addTableInPlace (name : String) (t : Table) : InPlace TableId := do
  let (schema, id) ← InPlace.read (·.schema.addTable name)
  modify fun c => { c with database.schema := schema }
  modify fun c => { c with database.tables := c.database.tables.push t }
  return id

/-- Declare a relation by a write to the schema, when both of the key columns are found. -/
def relateInPlace (r : Relation) : InPlace Unit := do
  InPlace.read (·.requireColumn r.source r.onLeft)
  InPlace.read (·.requireColumn r.target r.onRight)
  let schema ← InPlace.read (·.schema.addRelation r)
  modify fun c => { c with database.schema := schema }

lemma run_read_bind {α β : Type} (f : Catalog → Except Failure α) (g : α → InPlace β)
    (c : Catalog) : (InPlace.read f >>= g).run.run c = match f c with
      | .ok a => (g a).run.run c
      | .error x => (.error x, c) := by
  show (ExceptT.bindCont g (f c)).run c = _
  cases f c <;> rfl

/-- Only what cannot fail comes after the first write. -/
lemma run_addTableInPlace (c : Catalog) (name : String) (t : Table) :
    (addTableInPlace name t).run.run c
      = ((c.addTable name t).result.map Prod.snd, c.withTable name t) := by
  rw [addTableInPlace, run_read_bind]
  simp only [withTable, (addTable_returns c name t).result]
  cases c.schema.addTable name <;> rfl

lemma run_relateInPlace (c : Catalog) (r : Relation) :
    (relateInPlace r).run.run c = ((c.relate r).result.map fun _ => (), c.withRelation r) := by
  rw [relateInPlace]
  simp only [run_read_bind, withRelation, (relate_returns c r).result]
  cases c.requireColumn r.source r.onLeft with
  | error x => rfl
  | ok x =>
    cases c.requireColumn r.target r.onRight with
    | error x => rfl
    | ok x => cases c.schema.addRelation r <;> rfl

/-! ## At any time -/

/-- **A declaration is made exactly if it is allowed, and as a whole or not at all**: one that is
made changes what it is about and nothing else, and one that fails leaves the catalog as it was,
also if it is written to in place. -/
theorem declared_or_unchanged (hc : c.Reachable) :
    (∀ r, ((∃ c', (c.relate r).result = .ok c') ↔ c.Relatable r)
      ∧ (∀ c', (c.relate r).result = .ok c' →
        c.Relates r c' ∧ c.after (.relate r) = c' ∧ (relateInPlace r).run.run c = (.ok (), c'))
      ∧ ∀ x, (c.relate r).result = .error x →
        c.after (.relate r) = c ∧ (relateInPlace r).run.run c = (.error x, c))
    ∧ ∀ name t, ((∃ x, (c.addTable name t).result = .ok x) ↔
        ∀ id, c.schema.tableName? id ≠ some name)
      ∧ (∀ c' id, (c.addTable name t).result = .ok (c', id) →
        c.Registers name t c' id ∧ c.after (.addTable name t) = c'
          ∧ (addTableInPlace name t).run.run c = (.ok id, c'))
      ∧ ∀ x, (c.addTable name t).result = .error x →
        c.after (.addTable name t) = c ∧ (addTableInPlace name t).run.run c = (.error x, c) := by
  refine ⟨fun r => ⟨hc.exists_relate_iff, fun c' h => ?_, fun x h => ?_⟩,
    fun name t => ⟨exists_addTable_iff, fun c' id h => ?_, fun x h => ?_⟩⟩
  · have hafter : c.withRelation r = c' := by rw [withRelation, h]
    exact ⟨relates_of_relate h, hafter, by rw [run_relateInPlace, h, hafter]; rfl⟩
  · have hafter : c.withRelation r = c := by rw [withRelation, h]
    exact ⟨hafter, by rw [run_relateInPlace, h, hafter]; rfl⟩
  · have hafter : c.withTable name t = c' := by rw [withTable, h]
    exact ⟨hc.registers_of_addTable h, hafter, by rw [run_addTableInPlace, h, hafter]; rfl⟩
  · have hafter : c.withTable name t = c := by rw [withTable, h]
    exact ⟨hafter, by rw [run_addTableInPlace, h, hafter]; rfl⟩

/-- The second table can be related back to the first one.  The first one cannot declare another
relation of the name that it has, and no other table can get its name. -/
theorem declared_or_unchanged_partners :
    partners.Reachable
      ∧ (∃ c', (partners.relate ⟨1, "h", 0, "k", "k"⟩).result = .ok c'
        ∧ partners.Relates ⟨1, "h", 0, "k", "k"⟩ c')
      ∧ ¬ partners.Relatable ⟨0, "o", 1, "k", "y"⟩
      ∧ (relateInPlace ⟨0, "o", 1, "k", "y"⟩).run.run partners
        = (.error (.duplicateRelation "o" "h"), partners)
      ∧ (∃ c' id, (partners.addTable "z" ⟨[], #[]⟩).result = .ok (c', id)
        ∧ partners.Registers "z" ⟨[], #[]⟩ c' id)
      ∧ (addTableInPlace "h" ⟨[], #[]⟩).run.run partners
        = (.error (.duplicateTable "h"), partners) := by
  have h : (∃ c', (partners.relate ⟨1, "h", 0, "k", "k"⟩).result = .ok c')
      ∧ (partners.relate ⟨0, "o", 1, "k", "y"⟩).result = .error (.duplicateRelation "o" "h")
      ∧ (∃ x, (partners.addTable "z" ⟨[], #[]⟩).result = .ok x)
      ∧ (partners.addTable "h" ⟨[], #[]⟩).result = .error (.duplicateTable "h") :=
    ⟨⟨_, by cbv⟩, by cbv, ⟨_, by cbv⟩, by cbv⟩
  obtain ⟨⟨c', hback⟩, htwice, ⟨⟨c'', id⟩, hnew⟩, htaken⟩ := h
  obtain ⟨hrelate, haddTable⟩ := declared_or_unchanged reachable_partners
  obtain ⟨-, hrelates, -⟩ := hrelate ⟨1, "h", 0, "k", "k"⟩
  obtain ⟨hiff, -, hkept⟩ := hrelate ⟨0, "o", 1, "k", "y"⟩
  refine ⟨reachable_partners, ⟨c', hback, (hrelates c' hback).1⟩, fun hrelatable => ?_,
    (hkept _ htwice).2, ⟨c'', id, hnew, ((haddTable _ _).2.1 c'' id hnew).1⟩,
    ((haddTable _ _).2.2 _ htaken).2⟩
  obtain ⟨c', hok⟩ := hiff.2 hrelatable
  rw [htwice] at hok
  cases hok

end Catalog

end LinkedTables
