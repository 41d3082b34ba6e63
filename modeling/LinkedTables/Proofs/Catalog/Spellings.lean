import Mathlib
import LinkedTables.Proofs.Catalog.Qualified
import LinkedTables.Proofs.Catalog.Owners
import LinkedTables.Proofs.Catalog.Parsed
import LinkedTables.Proofs.Filter.Traversal

/-!
# Three ways to write a column of the home table

A column `c` of a home table named `h` can be written `c`, `self.c` and `h.c`.  Where the home table
goes first, **the first two are the same** in every filter and for everything that is done with it
(`bind_eq_of_viaSelf`): binding a filter looks at what its references are bound to,
and not at how they are written.

**The last one is a fallback.**  A qualifier is a relation before it is the name of the home table,
and the relation is looked for on all tables in reach.  So `h.c` is the same as `self.c` exactly if
no table in reach declares a relation `h`, however far away it may be; if one does, `h.c` is a
column at the end of that relation (`bindPath_of_begins`).  The two can then be told apart, as there
are columns to write: a home table from which relations lead has the columns that they join.
-/

namespace LinkedTables

variable {db : Database} {home : TableId} {name : String}

/-! ## Spellings -/

/-- A reference written as before, or a name alone that the home table has as a column and that is
written behind `self`. -/
inductive Reference.ViaSelf (db : Database) (home : TableId) : Reference → Reference → Prop
  | same (form : Reference.Form) (position position' : ℕ) :
      ViaSelf db home ⟨form, position⟩ ⟨form, position'⟩
  | plain {name : String} (position position' : ℕ) : db.hasColumn home name = true →
      ViaSelf db home ⟨.plain name, position⟩ ⟨.home name, position'⟩

/-- A reference written as before, or one behind `self` that is written behind the name of the home
table. -/
inductive Reference.ViaName (tableName : String) : Reference → Reference → Prop
  | same (form : Reference.Form) (position position' : ℕ) :
      ViaName tableName ⟨form, position⟩ ⟨form, position'⟩
  | home (name : String) (position position' : ℕ) :
      ViaName tableName ⟨.home name, position⟩ ⟨.path [tableName] name, position'⟩

namespace Database

lemma bind_eq_of_viaSelf {r r' : Reference} (h : r.ViaSelf db home r') :
    db.bind home .preferHome r' = db.bind home .preferHome r := by
  cases h with
  | same form _ _ => rfl
  | plain _ _ hcolumn => simp [bind, bindOn, hcolumn]

/-- A single segment stands for a path, behind which the column is looked up. -/
lemma bindPath_of_begins {segment : String} {path : List Relation} {id : TableId}
    (hn : db.schema.NamesOnce) (hhome : home < db.schema.size)
    (h : db.schema.Begins home segment path id) (name : String) :
    db.bindPath home [segment] name = db.bindOn id path name := by
  rw [bindPath, firstHops_of_begins hn hhome h]
  show db.bindOn (endOf home path) path name = _
  rw [endOf_eq h.leads]

lemma bind_eq_of_viaName {tableName : String} (hn : db.schema.NamesOnce)
    (hhome : home < db.schema.size) (h : db.schema.Begins home tableName [] home)
    {rule : UnqualifiedRule} {r r' : Reference} (hr : r.ViaName tableName r') :
    db.bind home rule r' = db.bind home rule r := by
  cases hr with
  | same form _ _ => rfl
  | home name _ _ => exact bindPath_of_begins hn hhome h name

/-! ## Filters -/

/-- Filters with references that are bound alike are bound alike, and log the same events. -/
lemma bindFilter_eq_of_parallel {rule : UnqualifiedRule} {R : Reference → Reference → Prop}
    (hR : ∀ r r', R r r' → db.bind home rule r' = db.bind home rule r) {e e' : Expr Reference}
    (h : e.Parallel R e') : db.bindFilter home rule e' = db.bindFilter home rule e := by
  have htraced : ∀ r r', R r r' → db.bindTraced home rule r = db.bindTraced home rule r' := by
    intro r r' hr
    rw [bindTraced, bindTraced, hR r r' hr]
  rw [bindFilter, bindFilter, h.mapColumnsM_eq htraced]

/-- A column behind a path of relations is not bound like a column of the home table. -/
lemma bindFilter_path_ne (hhome : home < db.tables.size) (hcolumn : db.hasColumn home name = true)
    {rule : UnqualifiedRule} {r : Reference} {id : TableId} {path : List Relation}
    (hr : db.bind home rule r = db.bindOn id path name) (hpath : path ≠ []) (op : Comparator)
    (literal : Cell) : (db.bindFilter home rule (.compare r op literal)).result
      ≠ (db.bindFilter home rule (.compare ⟨.home name, 0⟩ op literal)).result := by
  have hself : db.bind home rule ⟨.home name, 0⟩ = .ok ⟨⟨home, name⟩, [], false⟩ :=
    if_pos hcolumn
  rw [bindFilter_compare hhome hself]
  intro heq
  obtain ⟨-, hbound, -⟩ := bindFilter_eq_ok_iff.1 heq
  obtain ⟨b, hb⟩ := hbound r (by simp)
  obtain ⟨-, rfl⟩ := bindOn_eq_ok (hr.symm.trans hb)
  rw [bindFilter_compare hhome hb, if_neg hpath] at heq
  simp at heq

end Database

namespace Catalog

variable {c : Catalog} {tableName : String} {e e' : Expr Reference}

/-- Texts of filters that are bound alike are prepared alike. -/
lemma prepare_eq_of_bindFilter_eq {text text' : String} (hparse : parseFilter text = .ok e)
    (hparse' : parseFilter text' = .ok e')
    (hlength : text.utf8ByteSize ≤ c.settings.maxExpressionLength)
    (hlength' : text'.utf8ByteSize ≤ c.settings.maxExpressionLength)
    (h : c.database.bindFilter home c.settings.unqualified e'
      = c.database.bindFilter home c.settings.unqualified e) :
    c.prepare home text' = c.prepare home text := by
  simp only [prepare, if_neg (not_lt.2 hlength), if_neg (not_lt.2 hlength'), hparse, hparse']
  show (c.database.bindFilter home c.settings.unqualified e' >>= _)
    = (c.database.bindFilter home c.settings.unqualified e >>= _)
  rw [h]

/-- A table from which others are reached, or on which a relation is declared, has a column. -/
lemma Reachable.exists_hasColumn (hc : c.Reachable) {id : TableId} (hid : c.schema.Reaches home id)
    (hdeclares : c.schema.Declares id name) :
    ∃ column, c.database.hasColumn home column = true := by
  obtain ⟨path, hpath⟩ := hid
  obtain ⟨r, hr, -⟩ := hdeclares
  -- the first relation on the way is declared on the home table
  obtain ⟨q, rest, hq⟩ := List.exists_cons_of_ne_nil (List.append_ne_nil_of_right_ne_nil path
    (List.cons_ne_nil r []))
  have hwalk := (hpath.snoc hr).walk
  rw [hq] at hwalk
  exact ⟨q.onLeft, (hc.consistent.relations home q hwalk.of_cons.1).2.2.2.1⟩

/-- **The spellings of a column of the home table.**  Where the home table goes first, a name alone
may be written behind `self`; and what is written behind `self` may be written behind the name of
the home table exactly if no table in reach declares a relation of that name. -/
theorem spellings_of_home (hc : c.Reachable) (hrule : c.settings.unqualified = .preferHome)
    (hname : c.schema.tableName? home = some tableName) :
    (∀ e e', e.Parallel (Reference.ViaSelf c.database home) e' →
        c.database.bindFilter home c.settings.unqualified e'
            = c.database.bindFilter home c.settings.unqualified e
          ∧ ((c.database.bindFilter home c.settings.unqualified e').result >>= c.schema.plan home)
            = ((c.database.bindFilter home c.settings.unqualified e).result >>= c.schema.plan home)
          ∧ c.filterExpr home e' = c.filterExpr home e
          ∧ ∀ text text', parseFilter text = .ok e → parseFilter text' = .ok e' →
            text.utf8ByteSize ≤ c.settings.maxExpressionLength →
            text'.utf8ByteSize ≤ c.settings.maxExpressionLength →
            c.explain home text' = c.explain home text ∧ c.filter home text' = c.filter home text)
      ∧ ((∀ e e', e.Parallel (Reference.ViaName tableName) e' →
          (c.database.bindFilter home c.settings.unqualified e').result
            = (c.database.bindFilter home c.settings.unqualified e).result) ↔
        ∀ id, c.schema.Reaches home id → ¬ c.schema.Declares id tableName)
      ∧ ∀ id, c.schema.Reaches home id → c.schema.Declares id tableName →
        ∃ path r, c.schema.Begins home tableName (path ++ [r]) r.target
          ∧ ∀ name position, c.database.bind home c.settings.unqualified
            ⟨.path [tableName] name, position⟩ = c.database.bindOn r.target (path ++ [r]) name := by
  have hn : c.database.schema.NamesOnce := hc.closed.names
  have hsize : home < c.database.schema.size := Schema.lt_size_of_tableName? hname
  have hhome : home < c.database.tables.size := lt_of_lt_of_eq hsize hc.closed.size_eq
  have hfollows : ∀ id, c.schema.Reaches home id → c.schema.Declares id tableName →
      ∃ path r, c.schema.Begins home tableName (path ++ [r]) r.target
        ∧ ∀ name position, c.database.bind home c.settings.unqualified
          ⟨.path [tableName] name, position⟩ = c.database.bindOn r.target (path ++ [r]) name := by
    intro id hid hdeclares
    rcases Schema.begins_or_not hn hsize tableName with ⟨path, id', hbegins⟩ | ⟨hnone, -⟩
    · have hbind := Database.bindPath_of_begins hn hsize hbegins
      cases hbegins with
      | @relation path id' r hpath hr hrname hfirst =>
        exact ⟨path, r, .relation hpath hr hrname hfirst, fun name _ => hbind name⟩
      | home hnone _ => exact absurd hdeclares (hnone id hid)
    · exact absurd hdeclares (hnone id hid)
  refine ⟨fun e e' h => ?_, ⟨fun hsame id hid hdeclares => ?_, fun hnone e e' h => ?_⟩, hfollows⟩
  · have hbind : c.database.bindFilter home c.settings.unqualified e'
        = c.database.bindFilter home c.settings.unqualified e := by
      rw [hrule]
      exact Database.bindFilter_eq_of_parallel (fun _ _ => Database.bind_eq_of_viaSelf) h
    refine ⟨hbind, by rw [hbind], by rw [filterExpr, filterExpr, hbind], ?_⟩
    intro text text' hparse hparse' hlength hlength'
    have hprepare := prepare_eq_of_bindFilter_eq hparse hparse' hlength hlength' hbind
    rw [explain, explain, filter, filter, hprepare]
    exact ⟨rfl, rfl⟩
  · obtain ⟨path, r, -, hbind⟩ := hfollows id hid hdeclares
    obtain ⟨column, hcolumn⟩ := hc.exists_hasColumn hid hdeclares
    exact Database.bindFilter_path_ne hhome hcolumn (hbind column 0) (by simp) .eq .null
      (hsame _ _ (.compare .eq .null (.home column 0 0)))
  · have hbegins : c.database.schema.Begins home tableName [] home := .home hnone hname
    rw [Database.bindFilter_eq_of_parallel
      (fun _ _ => Database.bind_eq_of_viaName hn hsize hbegins) h]

/-- The tables of `partners`, with a way back that is called like the home table. -/
def returning : Catalog := partners |>.withRelation ⟨1, "h", 0, "k", "k"⟩

/-- `y == 5 & k == 1` -/
def byName : Expr Reference :=
  .and [.compare ⟨.plain "y", 0⟩ .eq (.integer 5), .compare ⟨.plain "k", 9⟩ .eq (.integer 1)]

/-- In `partners` all three spellings of `k` are the same.  In `returning` the name of the home
table is that of a relation declared on `o`, and `h.k` is the column that is reached over it. -/
theorem spellings_of_home_partners :
    partners.Reachable ∧ partners.settings.unqualified = .preferHome
      ∧ partners.schema.tableName? 0 = some "h" ∧ returning.Reachable
      ∧ byName.Parallel (Reference.ViaSelf partners.database 0) ofBoth
      ∧ partners.filterExpr 0 ofBoth = partners.filterExpr 0 byName
      ∧ partners.filter 0 "y == 5 & self.k == 1" = partners.filter 0 "y == 5 & k == 1"
      ∧ (∀ e e', e.Parallel (Reference.ViaName "h") e' →
        (partners.database.bindFilter 0 partners.settings.unqualified e').result
          = (partners.database.bindFilter 0 partners.settings.unqualified e).result)
      ∧ ¬ (∀ e e', e.Parallel (Reference.ViaName "h") e' →
        (returning.database.bindFilter 0 returning.settings.unqualified e').result
          = (returning.database.bindFilter 0 returning.settings.unqualified e).result)
      ∧ returning.database.bind 0 .preferHome ⟨.path ["h"] "k", 0⟩
        = .ok ⟨⟨0, "k"⟩, [⟨0, "o", 1, "k", "k"⟩, ⟨1, "h", 0, "k", "k"⟩], false⟩ := by
  have h : partners.settings.unqualified = .preferHome
      ∧ partners.schema.tableName? 0 = some "h" ∧ 0 < partners.schema.size
      ∧ partners.schema.findRelation? 0 "h" = none
      ∧ partners.database.hasColumn 0 "k" = true
      ∧ parseFilter "y == 5 & k == 1" = .ok byName
      ∧ parseFilter "y == 5 & self.k == 1" = .ok ofBoth
      ∧ "y == 5 & k == 1".utf8ByteSize ≤ partners.settings.maxExpressionLength
      ∧ "y == 5 & self.k == 1".utf8ByteSize ≤ partners.settings.maxExpressionLength
      ∧ returning.settings.unqualified = .preferHome
      ∧ returning.schema.tableName? 0 = some "h" ∧ 0 < returning.schema.size
      ∧ returning.schema.findRelation? 0 "h"
        = some [⟨0, "o", 1, "k", "k"⟩, ⟨1, "h", 0, "k", "k"⟩]
      ∧ returning.database.bind 0 .preferHome ⟨.path ["h"] "k", 0⟩
        = .ok ⟨⟨0, "k"⟩, [⟨0, "o", 1, "k", "k"⟩, ⟨1, "h", 0, "k", "k"⟩], false⟩ :=
    ⟨by cbv, by cbv, by cbv, by cbv, by cbv, by cbv, by cbv, by cbv, by cbv, by cbv, by cbv, by cbv,
      by cbv, by cbv⟩
  obtain ⟨hrule, hname, hsize, hnone, hcolumn, hparse, hparse', hlength, hlength', hrule', hname',
    hsize', hfound, hbind⟩ := h
  have hreachable : returning.Reachable := .withRelation reachable_partners _
  have hparallel : byName.Parallel (Reference.ViaSelf partners.database 0) ofBoth :=
    .and (.cons (.compare _ _ (.same _ _ _)) (.cons (.compare _ _ (.plain _ _ hcolumn)) .nil))
  obtain ⟨hself, hiff, -⟩ := spellings_of_home reachable_partners hrule hname
  obtain ⟨-, hiff', -⟩ := spellings_of_home hreachable hrule' hname'
  obtain ⟨-, -, hexpr, htext⟩ := hself _ _ hparallel
  refine ⟨reachable_partners, hrule, hname, hreachable, hparallel, hexpr,
    (htext _ _ hparse hparse' hlength hlength').2,
    hiff.2 ((Schema.findRelation?_eq_none_iff hsize).1 hnone), fun hsame => ?_, hbind⟩
  rw [(Schema.findRelation?_eq_none_iff hsize').2 (hiff'.1 hsame)] at hfound
  cases hfound

end Catalog

end LinkedTables
