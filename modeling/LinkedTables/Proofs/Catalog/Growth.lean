import Mathlib
import LinkedTables.Proofs.Catalog.Consistency
import LinkedTables.Proofs.Catalog.Locality

/-!
# Catalogs that grow

Calls add to a catalog and take nothing away.  `Database.Extended` says what this means for someone
who has looked at a database before: a table that was there is still there, unchanged and under its
name, and its relations are still the first ones that it declares.

`Catalog.GrowsBy` relates a catalog to what it can become by registering tables and declaring
relations, where only relations of some kind are declared.  A call that fails is one of the calls,
and changes nothing.  In whatever a catalog has grown to, a plan with the steps of an old one is the
old one carried over (`carried_of_extended`).
-/

namespace LinkedTables

namespace Schema

variable {s s' : Schema} {name : String} {id : TableId}

lemma tableName?_push (h : id < s.size) :
    tableName? ⟨s.entries.push ⟨name, []⟩⟩ id = s.tableName? id := by
  simp only [tableName?]
  rw [Array.getElem?_push_lt h, ← Array.getElem?_eq_getElem h]

/-- A new table comes behind all others, and has the name that was asked for. -/
lemma tableName?_of_addTable (h : s.addTable name = .ok (s', id)) :
    id = s.size ∧ s'.tableName? id = some name := by
  obtain rfl := addTable_eq_ok h
  simp only [addTable] at h
  split at h
  · cases h
  · cases h
    exact ⟨rfl, by simp [tableName?, size]⟩

lemma lt_size_of_tableName? (h : s.tableName? id = some name) : id < s.size := by
  obtain ⟨entry, hentry, -⟩ := Option.map_eq_some_iff.1 h
  exact (Array.getElem?_eq_some_iff.1 hentry).1

/-- A relation does not rename a table. -/
lemma tableName?_addRelation {r : Relation} (h : s.addRelation r = .ok s') (id : TableId) :
    s'.tableName? id = s.tableName? id := by
  obtain ⟨-, -, -, entry, hentry, rfl⟩ := addRelation_eq_ok h
  obtain ⟨hlt, hget⟩ := Array.getElem?_eq_some_iff.1 hentry
  simp only [tableName?, Array.getElem?_setIfInBounds]
  by_cases hid : r.source = id
  · subst hid
    simp [hlt, hget]
  · simp [hid]

/-- A relation that is found by its name is found when others have been declared behind it. -/
lemma relation?_of_isPrefix (h : s.relationsOf id <+: s'.relationsOf id) {r : Relation}
    (hr : s.relation? id name = some r) : s'.relation? id name = some r := by
  obtain ⟨more, hmore⟩ := h
  simp only [relation?] at hr ⊢
  rw [← hmore, List.find?_append, hr]
  rfl

end Schema

namespace Database

variable {db db' db'' : Database} {id : TableId} {name : String}

/-- All that was in a database is in another one, under the same identifiers. -/
structure Extended (db db' : Database) : Prop where
  table : ∀ {id : TableId} {t : Table}, db.tables[id]? = some t → db'.tables[id]? = some t
  name : ∀ {id : TableId} {name : String}, db.schema.tableName? id = some name →
    db'.schema.tableName? id = some name
  relations : ∀ id, db.schema.relationsOf id <+: db'.schema.relationsOf id

lemma Extended.refl (db : Database) : db.Extended db :=
  ⟨fun h => h, fun h => h, fun _ => List.prefix_rfl⟩

lemma Extended.trans (h : db.Extended db') (h' : db'.Extended db'') : db.Extended db'' :=
  ⟨fun ht => h'.table (h.table ht), fun hn => h'.name (h.name hn),
    fun id => (h.relations id).trans (h'.relations id)⟩

lemma Extended.table_eq_ok (h : db.Extended db') {t : Table} (ht : db.table id = .ok t) :
    db'.table id = .ok t :=
  table_eq_ok_iff.2 (h.table (table_eq_ok_iff.1 ht))

lemma Extended.hasColumn (h : db.Extended db') (hcolumn : db.hasColumn id name = true) :
    db'.hasColumn id name = true := by
  simp only [Database.hasColumn] at hcolumn ⊢
  cases ht : db.tables[id]? with
  | none => simp [ht] at hcolumn
  | some t => rwa [h.table ht, ← ht]

lemma Extended.relation? (h : db.Extended db') {r : Relation}
    (hr : db.schema.relation? id name = some r) : db'.schema.relation? id name = some r :=
  Schema.relation?_of_isPrefix (h.relations id) hr

end Database

namespace Catalog

variable {c c' : Catalog} {home : TableId} {f : BoundFilter} {p p' : JoinPlan}

/-! ## One call -/

/-- A table is registered behind all others, or nothing is done. -/
lemma withTable_cases (c : Catalog) (name : String) (t : Table) :
    c.withTable name t = c ∨ c.withTable name t
      = { c with database := ⟨⟨c.schema.entries.push ⟨name, []⟩⟩, c.database.tables.push t⟩ } := by
  simp only [withTable]
  split
  · rename_i c' id hcall
    obtain ⟨schema, hschema, rfl⟩ := addTable_eq_ok hcall
    obtain rfl := Schema.addTable_eq_ok hschema
    exact Or.inr rfl
  · exact Or.inl rfl

/-- A relation is declared in the schema, or nothing is done. -/
lemma withRelation_cases (c : Catalog) (r : Relation) :
    c.withRelation r = c ∨ ∃ schema, c.schema.addRelation r = .ok schema
      ∧ c.withRelation r = { c with database := { c.database with schema := schema } } := by
  simp only [withRelation]
  split
  · rename_i c' hcall
    obtain ⟨schema, hschema, rfl⟩ := relate_eq_ok hcall
    exact Or.inr ⟨schema, hschema, rfl⟩
  · exact Or.inl rfl

/-- A new table has no relations, and the others keep theirs. -/
lemma relationsOf_withTable (c : Catalog) (name : String) (t : Table) (id : TableId) :
    (c.withTable name t).schema.relationsOf id = c.schema.relationsOf id := by
  rcases withTable_cases c name t with heq | heq
  · rw [heq]
  · rw [heq]
    exact Schema.relationsOf_push c.schema name id

/-- A relation is declared on its source, and on no other table. -/
lemma relationsOf_withRelation (c : Catalog) {r : Relation} {id : TableId} (h : id ≠ r.source) :
    (c.withRelation r).schema.relationsOf id = c.schema.relationsOf id := by
  rcases withRelation_cases c r with heq | ⟨schema, hschema, heq⟩
  · rw [heq]
  · rw [heq]
    exact (Schema.relationsOf_addRelation hschema id).trans (by rw [if_neg h, List.append_nil])

lemma extended_withTable (c : Catalog) (name : String) (t : Table) :
    c.database.Extended (c.withTable name t).database := by
  have hrelations := relationsOf_withTable c name t
  rcases withTable_cases c name t with heq | heq
  · rw [heq]
    exact .refl _
  · rw [heq] at hrelations ⊢
    refine ⟨fun {id t'} ht' => ?_, fun {id name'} hname => ?_,
      fun id => ⟨[], (List.append_nil _).trans (hrelations id).symm⟩⟩
    · obtain ⟨hlt, -⟩ := Array.getElem?_eq_some_iff.1 ht'
      rwa [Array.getElem?_push_lt hlt, ← Array.getElem?_eq_getElem hlt]
    · exact (Schema.tableName?_push (Schema.lt_size_of_tableName? hname)).trans hname

lemma extended_withRelation (c : Catalog) (r : Relation) :
    c.database.Extended (c.withRelation r).database := by
  rcases withRelation_cases c r with heq | ⟨schema, hschema, heq⟩
  · rw [heq]
    exact .refl _
  · rw [heq]
    refine ⟨fun ht => ht, fun {id name} hname => ?_, fun id => ?_⟩
    · rwa [Schema.tableName?_addRelation hschema]
    · rw [Schema.relationsOf_addRelation hschema]
      exact List.prefix_append ..

/-- **No call takes anything away.** -/
theorem extended_after (c : Catalog) (call : Call) :
    c.database.Extended (c.after call).database := by
  cases call with
  | addTable name t => exact extended_withTable c name t
  | relate r => exact extended_withRelation c r
  | withSettings settings => exact .refl _

lemma extended_foldl_after (c : Catalog) (calls : List Call) :
    c.database.Extended (calls.foldl after c).database := by
  induction calls generalizing c with
  | nil => exact .refl _
  | cons call rest ih => exact (extended_after c call).trans (ih (c.after call))

lemma Reachable.foldl_after (hc : c.Reachable) (calls : List Call) :
    (calls.foldl Catalog.after c).Reachable := by
  induction calls generalizing c with
  | nil => exact hc
  | cons call rest ih => exact ih (hc.after call)

/-! ## Growth -/

lemma settings_withTable (c : Catalog) (name : String) (t : Table) :
    (c.withTable name t).settings = c.settings := by
  rcases withTable_cases c name t with heq | heq <;> rw [heq]

lemma settings_withRelation (c : Catalog) (r : Relation) :
    (c.withRelation r).settings = c.settings := by
  rcases withRelation_cases c r with heq | ⟨schema, -, heq⟩ <;> rw [heq]

/-- What a catalog can become by calls that register tables and declare relations, as long as each
relation is allowed in the catalog in which it is declared. -/
inductive GrowsBy (allowed : Catalog → Relation → Prop) (c : Catalog) : Catalog → Prop
  | refl : GrowsBy allowed c c
  | withTable {c' : Catalog} (name : String) (t : Table) :
      GrowsBy allowed c c' → GrowsBy allowed c (c'.withTable name t)
  | withRelation {c' : Catalog} (r : Relation) :
      GrowsBy allowed c c' → allowed c' r → GrowsBy allowed c (c'.withRelation r)

/-- What a catalog can become by any calls that register tables and declare relations. -/
def Grows (c c' : Catalog) : Prop := c.GrowsBy (fun _ _ => True) c'

variable {allowed : Catalog → Relation → Prop}

lemma GrowsBy.reachable (h : c.GrowsBy allowed c') (hc : c.Reachable) : c'.Reachable := by
  induction h with
  | refl => exact hc
  | withTable name t _ ih => exact ih.withTable name t
  | withRelation r _ _ ih => exact ih.withRelation r

lemma GrowsBy.extended (h : c.GrowsBy allowed c') : c.database.Extended c'.database := by
  induction h with
  | refl => exact .refl _
  | withTable name t _ ih => exact ih.trans (extended_withTable _ name t)
  | withRelation r _ _ ih => exact ih.trans (extended_withRelation _ r)

lemma GrowsBy.settings_eq (h : c.GrowsBy allowed c') : c'.settings = c.settings := by
  induction h with
  | refl => rfl
  | withTable name t _ ih => rw [settings_withTable, ih]
  | withRelation r _ _ ih => rw [settings_withRelation, ih]

/-! ## Plans -/

/-- A plan with the same steps reads and writes the same in a catalog that has grown. -/
lemma carried_of_extended (hc : c.Reachable) (h : c.database.Extended c'.database)
    (hp : c.schema.plan home f = .ok p) (hp' : c'.schema.plan home f = .ok p')
    (hhome : p'.home = p.home) (hsteps : p'.steps = p.steps)
    (htables : ∀ id ∈ p.tables, ∃ t, c.table? id = some t) :
    JoinPlan.Carried c.database c'.database p p' := by
  refine ⟨hhome, hsteps, fun id hid => ?_, fun id hid => ?_⟩
  · obtain ⟨t, ht⟩ := htables id hid
    obtain ⟨name, hname, -⟩ := hc.consistent.found id (Array.getElem?_eq_some_iff.1 ht).1
    have hname' : c'.schema.tableName? id = some name := h.name hname
    rw [tableName_of_plan hp, tableName_of_plan hp', Schema.nameOf_eq hname,
      Schema.nameOf_eq hname']
  · obtain ⟨t, ht⟩ := htables id hid
    have ht' : c.database.table id = .ok t := Database.table_eq_ok_iff.2 ht
    rw [ht', h.table_eq_ok ht']

end Catalog

end LinkedTables
