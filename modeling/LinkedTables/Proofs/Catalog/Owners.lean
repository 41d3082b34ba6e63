import Mathlib
import LinkedTables.Proofs.Catalog.Anchored
import LinkedTables.Proofs.Catalog.Connectives
import LinkedTables.Proofs.Catalog.Unqualified

/-!
# Owners do not change

A catalog that grows can come to have a second table with a column of some name, and then the name
is ambiguous.  What cannot happen is that the name means the column of another table from then on:
a filter without explicit paths is bound to the same columns as before, or it is refused
(`owners_of_grows`).

**What is in reach stays in reach**, over the paths that there were, as relations are only ever
declared behind others (`Schema.Reaches.mono`).  Nearer tables and other shortest paths may come in,
but a search does not look at them: it succeeds if one table in reach has the column
(`search_eq_ok_iff`).  A table that has been the only one is still among those that have it, and so
it is the only one or the name is refused.

Where the home table goes first nothing is to be shown but that its columns are the same.
-/

namespace LinkedTables

namespace Schema

variable {s s' : Schema} {home id : TableId} {path : List Relation}

/-! ## More in reach -/

lemma Leads.mono (hgrown : ∀ id, s.relationsOf id <+: s'.relationsOf id)
    (h : s.Leads home path id) : s'.Leads home path id := by
  induction h with
  | nil => exact .nil
  | @snoc path id r _ hr ih => exact ih.snoc ((hgrown id).subset hr)

/-- **What is in reach stays in reach.** -/
lemma Reaches.mono (hgrown : ∀ id, s.relationsOf id <+: s'.relationsOf id)
    (h : s.Reaches home id) : s'.Reaches home id := by
  obtain ⟨path, hpath⟩ := h
  exact ⟨path, hpath.mono hgrown⟩

end Schema

namespace Database

variable {db db' : Database} {home : TableId} {rule : UnqualifiedRule} {name : String}
  {e : Expr Reference} {f : BoundFilter} {b : Binding}

lemma reaches_of_bind (hhome : home < db.schema.size) {r : Reference}
    (h : db.bind home rule r = .ok b) : db.schema.Reaches home b.column.table := by
  rcases (bind_sound h).2 with hleads | ⟨-, hmem⟩
  · exact ⟨b.path, hleads⟩
  · exact (Schema.mem_reachable_iff hhome).1 hmem

/-! ## One reference -/

/-- A name has several owners, one of which is known. -/
def Contested (db : Database) (home : TableId) (name : String) (owner : TableId)
    (names : List String) : Prop :=
  ∃ owners, db.schema.Lists home (fun id => db.hasColumn id name = true) owners
    ∧ owner ∈ owners ∧ 2 ≤ owners.length ∧ names = owners.map db.schema.nameOf

section

variable (h : db.Extended db') (hhome : home < db.schema.size) (hhome' : home < db'.schema.size)
include h hhome hhome'

/-- **A search finds the same owner again**, or others beside it. -/
lemma search_of_extended (hb : db.search home name = .ok b) : db'.search home name = .ok b
    ∨ ∃ names, db'.search home name = .error (.ambiguousColumn name names)
      ∧ db'.Contested home name b.column.table names := by
  have howners := Schema.lists_filter hhome (db.hasColumn · name)
  obtain ⟨id, hid, rfl⟩ := (search_eq_ok_iff hhome howners).1 hb
  obtain ⟨hreach, hcolumn⟩ := (howners.mem_iff id).1 (by simp [hid])
  obtain ⟨owners, howners'⟩ : ∃ owners,
      db'.schema.Lists home (fun id => db'.hasColumn id name = true) owners :=
    ⟨_, Schema.lists_filter hhome' (db'.hasColumn · name)⟩
  have hmem : id ∈ owners :=
    (howners'.mem_iff id).2 ⟨hreach.mono h.relations, h.hasColumn hcolumn⟩
  rcases Nat.lt_or_ge owners.length 2 with hlt | htwo
  · left
    have hpos := List.length_pos_of_mem hmem
    obtain ⟨id', rfl⟩ := List.length_eq_one_iff.1 (show owners.length = 1 by omega)
    rw [List.mem_singleton.1 hmem]
    exact (search_eq_ok_iff hhome' howners').2 ⟨id', rfl, rfl⟩
  · right
    exact ⟨_, search_of_two_le hhome' howners' htwo, _, howners', hmem, htwo, rfl⟩

/-- A reference that spells out no path is bound as before, or it has become ambiguous. -/
lemma bind_of_pathless {t : Table} (ht : db.table home = .ok t) {r : Reference} (hr : r.Pathless)
    (hb : db.bind home rule r = .ok b) : db'.bind home rule r = .ok b
    ∨ ∃ names, db'.bind home rule r = .error (.ambiguousColumn r.name names)
      ∧ db'.Contested home r.name b.column.table names := by
  have hcolumns : ∀ name, db'.hasColumn home name = db.hasColumn home name := by
    intro name
    rw [hasColumn, hasColumn, table_eq_ok_iff.1 ht, table_eq_ok_iff.1 (h.table_eq_ok ht)]
  cases hform : r.form with
  | home name =>
    simp only [bind, hform] at hb ⊢
    exact Or.inl (bindOn_of_extended h hb)
  | path segments name => exact absurd hform (hr segments name)
  | plain name =>
    simp only [bind, hform, hcolumns, Reference.name] at hb ⊢
    split_ifs at hb ⊢ with hfirst
    · exact Or.inl hb
    · exact search_of_extended h hhome hhome' hb

end

end Database

namespace Catalog

variable {c c' : Catalog} {home : TableId} {rule : UnqualifiedRule} {e : Expr Reference}
  {f : BoundFilter}

/-- **Names never move to another table.**  However a catalog grows, a filter that spells out no
path is bound to what it has been bound to, or one of its names has become ambiguous, and the table
that it had been bound to is one of the candidates. -/
theorem owners_of_grows (hc : c.Reachable) (hgrows : c.Grows c') (he : e.Pathless)
    (hf : (c.database.bindFilter home rule e).result = .ok f) :
    (∀ f', (c'.database.bindFilter home rule e).result = .ok f' → f' = f
        ∧ ∀ r ∈ e.columns, ∃ b, c.database.bind home rule r = .ok b
          ∧ c'.database.bind home rule r = .ok b)
      ∧ ∀ x, (c'.database.bindFilter home rule e).result = .error x →
        ∃ r ∈ e.columns, ∃ b names, c.database.bind home rule r = .ok b
          ∧ x = .ambiguousColumn r.name names ∧ 2 ≤ names.length
          ∧ c.schema.nameOf b.column.table ∈ names := by
  obtain ⟨⟨t, ht⟩, hbound, -⟩ := Database.bindFilter_eq_ok_iff.1 hf
  have hextended := hgrows.extended
  have ht' := hextended.table_eq_ok ht
  have hhome : home < c.size := Database.lt_size_of_table ht
  have hsize : home < c.database.schema.size := hc.closed.lt_schema_size hhome
  have hsize' : home < c'.database.schema.size :=
    (hgrows.reachable hc).closed.lt_schema_size (Database.lt_size_of_table ht')
  have hcases : ∀ r ∈ e.columns, ∃ b, c.database.bind home rule r = .ok b
      ∧ (c'.database.bind home rule r = .ok b
        ∨ ∃ names, c'.database.bind home rule r = .error (.ambiguousColumn r.name names)
          ∧ c'.database.Contested home r.name b.column.table names) := by
    intro r hr
    obtain ⟨b, hb⟩ := hbound r hr
    exact ⟨b, hb, Database.bind_of_pathless hextended hsize hsize' ht (he r hr) hb⟩
  constructor
  · intro f' hf'
    obtain ⟨-, hbound', -⟩ := Database.bindFilter_eq_ok_iff.1 hf'
    have hbind : ∀ r ∈ e.columns, ∃ b, c.database.bind home rule r = .ok b
        ∧ c'.database.bind home rule r = .ok b := by
      intro r hr
      obtain ⟨b, hb, hb' | ⟨names, herror, -⟩⟩ := hcases r hr
      · exact ⟨b, hb, hb'⟩
      · obtain ⟨b', hb'⟩ := hbound' r hr
        rw [herror] at hb'
        cases hb'
    refine ⟨?_, hbind⟩
    rw [Database.bindFilter_of_bind hextended hbind hf] at hf'
    exact (Except.ok.inj hf').symm
  · intro x hx
    rcases Database.cases_of_bindFilter_error hx with hx | ⟨r, hr, hx⟩
    · rw [ht'] at hx
      cases hx
    · obtain ⟨b, hb, hb' | ⟨names, herror, owners, howners, hmem, htwo, rfl⟩⟩ := hcases r hr
      · rw [hb'] at hx
        cases hx
      · rw [herror] at hx
        cases hx
        have hname := hc.tableName?_eq hhome (Database.reaches_of_bind hsize hb)
        refine ⟨r, hr, b, _, hb, rfl, by rwa [List.length_map], ?_⟩
        rw [← Schema.nameOf_eq (hextended.name hname)]
        exact List.mem_map_of_mem hmem

/-- `y == 5 & self.k == 1` -/
def ofBoth : Expr Reference :=
  .and [.compare ⟨.plain "y", 0⟩ .eq (.integer 5), .compare ⟨.home "k", 9⟩ .eq (.integer 1)]

/-- A second table with a column `y` does no harm as long as it is out of reach, and makes the name
ambiguous in reach. -/
theorem owners_of_grows_partners :
    ∃ f, partners.Reachable ∧ partners.Grows onlooking ∧ partners.Grows chained ∧ ofBoth.Pathless
      ∧ (partners.database.bindFilter 0 .strict ofBoth).result = .ok f
      ∧ (onlooking.database.bindFilter 0 .strict ofBoth).result = .ok f
      ∧ (∀ r ∈ ofBoth.columns, ∃ b, partners.database.bind 0 .strict r = .ok b
        ∧ onlooking.database.bind 0 .strict r = .ok b)
      ∧ (chained.database.bindFilter 0 .strict ofBoth).result
        = .error (.ambiguousColumn "y" ["o", "p"])
      ∧ ∃ r ∈ ofBoth.columns, ∃ b names, partners.database.bind 0 .strict r = .ok b
        ∧ Failure.ambiguousColumn "y" ["o", "p"] = .ambiguousColumn r.name names
        ∧ 2 ≤ names.length ∧ partners.schema.nameOf b.column.table ∈ names := by
  have h : (partners.database.bindFilter 0 .strict ofBoth).result
        = .ok ⟨.and [.compare ⟨1, "y"⟩ .eq (.integer 5), .compare ⟨0, "k"⟩ .eq (.integer 1)], []⟩
      ∧ (onlooking.database.bindFilter 0 .strict ofBoth).result
        = .ok ⟨.and [.compare ⟨1, "y"⟩ .eq (.integer 5), .compare ⟨0, "k"⟩ .eq (.integer 1)], []⟩
      ∧ (chained.database.bindFilter 0 .strict ofBoth).result
        = .error (.ambiguousColumn "y" ["o", "p"]) :=
    ⟨by cbv, by cbv, by cbv⟩
  obtain ⟨hbound, hsame, hambiguous⟩ := h
  have hpathless : ofBoth.Pathless := by simp [ofBoth, Expr.Pathless, Reference.Pathless]
  have hout : partners.Grows onlooking :=
    .withRelation _ (.withRelation _ (.withTable _ _ .refl) trivial) trivial
  have hin : partners.Grows chained := .withRelation _ (.withTable _ _ .refl) trivial
  obtain ⟨hkept, -⟩ := owners_of_grows reachable_partners hout hpathless hbound
  obtain ⟨-, hrefused⟩ := owners_of_grows reachable_partners hin hpathless hbound
  exact ⟨_, reachable_partners, hout, hin, hpathless, hbound, hsame, (hkept _ hsame).2, hambiguous,
    hrefused _ hambiguous⟩

end Catalog

end LinkedTables
