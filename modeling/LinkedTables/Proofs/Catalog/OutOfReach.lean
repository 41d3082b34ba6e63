import Mathlib
import LinkedTables.Proofs.Catalog.Agreement
import LinkedTables.Proofs.Catalog.Growth
import LinkedTables.Proofs.Join.Relations
import LinkedTables.Proofs.Schema.Completeness

/-!
# Tables out of reach do not matter

A filter on a home table can come across the tables in reach of it, and a table out of reach has no
influence on it: not on what names refer to, not on which names are ambiguous or unknown, not on the
joins and the answer, and not on the text of any failure.

`Database.SameInReach` says that one database has in reach of a table what another one has.  All
that is done with a filter before it is evaluated stays inside of that part:

* **Binding.**  The search finds the same tables in the same order, since it reads the relations of
  no other tables, and names are looked up on tables that a path leads to (`SameInReach.bind_eq`).
* **Planning.**  Explicit paths and owners are in reach, so the messages name the same tables as
  well (`SameInReach.plan_eq`).

A catalog keeps this part when tables are registered, and when relations are declared on tables that
are out of reach by then (`sameInReach_of_growsBy`).
-/

namespace LinkedTables

namespace Schema

variable {s s' : Schema} {home id : TableId}

/-! ## Tables that are reached -/

lemma reaches_home (s : Schema) (home : TableId) : s.Reaches home home := ⟨[], .nil⟩

lemma Reaches.lt_size (hs : s.Closed) (hhome : home < s.size) (h : s.Reaches home id) :
    id < s.size := by
  obtain ⟨path, hpath⟩ := h
  cases hpath with
  | nil => exact hhome
  | snoc _ hr => exact (hs _ _ hr).2.2

/-- What a path leads over is reached. -/
lemma Leads.reaches_of_mem (hs : s.Closed) {path : List Relation} (h : s.Leads home path id)
    {r : Relation} (hr : r ∈ path) : s.Reaches home r.source ∧ s.Reaches home r.target := by
  obtain ⟨before, after, hpath⟩ := List.append_of_mem hr
  have hsource := h.source hs hpath
  have hdeclared := (JoinPlan.connected_of_leads hs h).2.1 r hr
  exact ⟨⟨before, hsource⟩, ⟨_, hsource.snoc hdeclared⟩⟩

/-- A table is still reached where the relations in reach are the same. -/
lemma Reaches.of_relations_eq
    (hsame : ∀ id, s.Reaches home id → s'.relationsOf id = s.relationsOf id)
    (h : s.Reaches home id) : s'.Reaches home id := by
  obtain ⟨path, hpath⟩ := h
  refine ⟨path, ?_⟩
  induction hpath with
  | nil => exact .nil
  | @snoc path id r hleads hr ih => exact .snoc ih (hsame id ⟨path, hleads⟩ ▸ hr)

end Schema

namespace Database

variable {db db' : Database} {home : TableId}

/-- One database has in reach of a table what another one has, and may have other tables besides. -/
structure SameInReach (db db' : Database) (home : TableId) : Prop where
  registered : home < db.schema.size
  registered' : home < db'.schema.size
  relations : ∀ id, db.schema.Reaches home id → db'.schema.relationsOf id = db.schema.relationsOf id
  name : ∀ id, db.schema.Reaches home id → db'.schema.tableName? id = db.schema.tableName? id
  table : ∀ id, db.schema.Reaches home id → db'.tables[id]? = db.tables[id]?

namespace SameInReach

variable (h : db.SameInReach db' home) {id : TableId}
include h

/-! ## Binding -/

lemma reachable_eq : db'.schema.reachable home = db.schema.reachable home :=
  Schema.reachable_congr h.registered h.registered' h.relations

lemma nameOf_eq (hid : db.schema.Reaches home id) : db'.schema.nameOf id = db.schema.nameOf id := by
  rw [Schema.nameOf, Schema.nameOf, h.name id hid]

lemma hasColumn_eq (hid : db.schema.Reaches home id) (name : String) :
    db'.hasColumn id name = db.hasColumn id name := by
  rw [Database.hasColumn, Database.hasColumn, h.table id hid]

lemma relation?_eq (hid : db.schema.Reaches home id) (name : String) :
    db'.schema.relation? id name = db.schema.relation? id name := by
  rw [Schema.relation?, Schema.relation?, h.relations id hid]

lemma bindOn_eq (hid : db.schema.Reaches home id) (path : List Relation) (name : String) :
    db'.bindOn id path name = db.bindOn id path name := by
  rw [bindOn, bindOn, h.hasColumn_eq hid, h.nameOf_eq hid]

lemma findRelation?_eq (name : String) :
    db'.schema.findRelation? home name = db.schema.findRelation? home name := by
  simp only [Schema.findRelation?, h.reachable_eq, ← List.head?_filterMap]
  refine congrArg List.head? (List.filterMap_congr fun x hx => ?_)
  rw [h.relation?_eq ⟨x.path, Schema.leads_of_mem_reachable hx⟩ name]

lemma firstHops_eq (segment : String) : db'.firstHops home segment = db.firstHops home segment := by
  have hhome := Schema.reaches_home db.schema home
  rw [firstHops, firstHops, h.findRelation?_eq, h.name home hhome, h.nameOf_eq hhome]

lemma followHops_eq {segments : List String} :
    ∀ {path : List Relation}, db.schema.Leads home path (endOf home path) →
      db'.followHops home path segments = db.followHops home path segments := by
  induction segments with
  | nil => exact fun _ => rfl
  | cons segment rest ih =>
    intro path hpath
    have hend : db.schema.Reaches home (endOf home path) := ⟨path, hpath⟩
    rw [followHops, followHops, h.relation?_eq hend, h.nameOf_eq hend]
    cases hr : db.schema.relation? (endOf home path) segment with
    | none => rfl
    | some r =>
      have hsnoc := hpath.snoc (mem_of_relation? hr)
      exact ih (by rwa [endOf_eq hsnoc])

lemma search_eq (name : String) : db'.search home name = db.search home name := by
  have hreached : ∀ id ∈ (db.schema.reachable home).map Reached.table, db.schema.Reaches home id :=
    fun id hid => (Schema.mem_reachable_iff h.registered).1 hid
  have hnames : ∀ ids : List TableId, (∀ id ∈ ids, db.schema.Reaches home id) →
      ids.map db'.schema.nameOf = ids.map db.schema.nameOf :=
    fun ids hids => List.map_congr_left fun id hid => h.nameOf_eq (hids id hid)
  have howners : ((db.schema.reachable home).map Reached.table).filter (db'.hasColumn · name)
      = ((db.schema.reachable home).map Reached.table).filter (db.hasColumn · name) :=
    List.filter_congr fun id hid => h.hasColumn_eq (hreached id hid) name
  simp only [search, h.reachable_eq, howners, hnames _ hreached]
  split
  · rfl
  · rfl
  · rw [hnames _ fun id hid => hreached id (List.mem_of_mem_filter hid)]

/-- **References are bound with tables in reach**, whichever way they are written. -/
theorem bind_eq (rule : UnqualifiedRule) (r : Reference) :
    db'.bind home rule r = db.bind home rule r := by
  have hhome := Schema.reaches_home db.schema home
  cases hform : r.form with
  | home name => simp only [Database.bind, hform, h.bindOn_eq hhome]
  | plain name => simp only [Database.bind, hform, h.hasColumn_eq hhome, h.search_eq]
  | path segments name =>
    simp only [Database.bind, hform]
    cases segments with
    | nil => exact h.bindOn_eq hhome [] name
    | cons first rest =>
      simp only [bindPath, h.firstHops_eq]
      cases hfirst : db.firstHops home first with
      | error x => rfl
      | ok path =>
        have hleads := leads_of_firstHops hfirst
        show (db'.followHops home path rest >>= _) = (db.followHops home path rest >>= _)
        rw [h.followHops_eq hleads]
        cases hfollow : db.followHops home path rest with
        | error x => rfl
        | ok path' => exact h.bindOn_eq ⟨path', leads_of_followHops hleads hfollow⟩ path' name

lemma bindFilter_eq (rule : UnqualifiedRule) (e : Expr Reference) :
    (db'.bindFilter home rule e).result = (db.bindFilter home rule e).result := by
  have htable : db'.table home = db.table home := by
    simp only [Database.table, h.table home (Schema.reaches_home db.schema home)]
  rw [(bindFilter_returns rule e).result, (bindFilter_returns rule e).result, htable,
    funext (h.bind_eq rule)]

/-! ## Planning -/

lemma addExplicit_eq {steps : List JoinStep} {r : Relation}
    (hr : db.schema.Reaches home r.source ∧ db.schema.Reaches home r.target)
    (hsteps : ∀ t ∈ steps, db.schema.Reaches home t.toRelation.source) :
    JoinPlan.addExplicit db'.schema home steps r = JoinPlan.addExplicit db.schema home steps r := by
  rw [JoinPlan.addExplicit, JoinPlan.addExplicit]
  cases hstep : JoinPlan.stepTo? steps r.target with
  | none => rfl
  | some t =>
    have ht : db.schema.Reaches home t.source := hsteps t (JoinPlan.stepTo?_eq_some hstep).1
    simp only [h.nameOf_eq hr.1, h.nameOf_eq hr.2, h.nameOf_eq ht]

lemma reach_eq {steps : List JoinStep} {owner : TableId} (howner : db.schema.Reaches home owner) :
    JoinPlan.reach db'.schema home steps owner = JoinPlan.reach db.schema home steps owner := by
  rw [JoinPlan.reach, JoinPlan.reach, h.reachable_eq, h.nameOf_eq howner]

/-- **Plans are made of tables in reach.**  They differ in the names of registered tables that a
plan has with it, and in nothing else. -/
theorem plan_eq (hs : db.schema.Closed) {f : BoundFilter} (hf : f.Sound db home) :
    db'.schema.plan home f = (db.schema.plan home f).map fun p =>
      ⟨p.home, p.steps, db'.schema.entries.map Schema.Entry.name⟩ := by
  have hhops : ∀ r ∈ f.hops, db.schema.Reaches home r.source ∧ db.schema.Reaches home r.target := by
    intro r hr
    obtain ⟨x, hx, hr⟩ := List.mem_flatMap.1 hr
    exact (hf.explicit x hx).2.reaches_of_mem hs hr
  have howners : ∀ o ∈ f.owners, db.schema.Reaches home o := by
    intro o ho
    rcases hf.located o ho with rfl | ⟨x, hx, rfl⟩ | hreached
    · exact Schema.reaches_home db.schema o
    · exact ⟨x.path, (hf.explicit x hx).2⟩
    · exact (Schema.mem_reachable_iff h.registered).1 hreached
  have hexplicit : f.hops.foldlM (JoinPlan.addExplicit db'.schema home) []
      = f.hops.foldlM (JoinPlan.addExplicit db.schema home) [] :=
    foldlM_congr_of_keeps
      (P := fun steps => ∀ t ∈ steps, db.schema.Reaches home t.toRelation.source)
      (fun hr hsteps hadd => JoinPlan.forall_of_addExplicit
        (Q := fun r => db.schema.Reaches home r.source) (hhops _ hr).1 hsteps hadd)
      (fun hr hsteps => h.addExplicit_eq (hhops _ hr) hsteps) (by simp)
  have hshortest : ∀ steps, f.owners.foldlM (JoinPlan.reach db'.schema home) steps
      = f.owners.foldlM (JoinPlan.reach db.schema home) steps :=
    foldlM_congr fun steps o ho => h.reach_eq (howners o ho)
  rw [Schema.plan, Schema.plan, show f.paths.flatMap ExplicitPath.path = f.hops from rfl, hexplicit]
  simp only [hshortest]
  cases f.hops.foldlM (JoinPlan.addExplicit db.schema home) [] with
  | error x => rfl
  | ok steps =>
    show (f.owners.foldlM (JoinPlan.reach db.schema home) steps >>= _)
      = ((f.owners.foldlM (JoinPlan.reach db.schema home) steps >>= _).map _)
    cases f.owners.foldlM (JoinPlan.reach db.schema home) steps with
    | error x => rfl
    | ok steps' => rfl

end SameInReach

end Database

/-! ## Catalogs -/

namespace Catalog

variable {c c' : Catalog} {home : TableId} {text : String}

/-- **A catalog keeps what is in reach** of a table while relations are declared elsewhere only. -/
lemma relationsOf_of_growsBy (h : c.GrowsBy (fun c r => ¬ c.schema.Reaches home r.source) c') :
    ∀ id, c.schema.Reaches home id → c'.schema.relationsOf id = c.schema.relationsOf id := by
  induction h with
  | refl => exact fun _ _ => rfl
  | withTable name t _ ih =>
    intro id hid
    rw [relationsOf_withTable, ih id hid]
  | withRelation r _ hr ih =>
    intro id hid
    -- a table in reach is still in reach, so it is not the source of the new relation
    have hne : id ≠ r.source := fun heq => hr (heq ▸ hid.of_relations_eq ih)
    rw [relationsOf_withRelation _ hne, ih id hid]

lemma sameInReach_of_growsBy (hc : c.Reachable) (hhome : home < c.size)
    (h : c.GrowsBy (fun c r => ¬ c.schema.Reaches home r.source) c') :
    c.database.SameInReach c'.database home := by
  have hextended := h.extended
  have hsize : home < c.schema.size := hc.closed.lt_schema_size hhome
  have hlt : ∀ id, c.schema.Reaches home id → id < c.database.tables.size := fun id hid =>
    lt_of_lt_of_eq (hid.lt_size hc.closed.schema hsize) hc.closed.size_eq
  refine ⟨hsize, ?_, relationsOf_of_growsBy h, fun id hid => ?_, fun id hid => ?_⟩
  · obtain ⟨name, hname, -⟩ := hc.consistent.found home hhome
    exact Schema.lt_size_of_tableName? (hextended.name hname)
  · obtain ⟨name, hname, -⟩ := hc.consistent.found id (hlt id hid)
    exact (hextended.name hname).trans hname.symm
  · have ht := Array.getElem?_eq_getElem (hlt id hid)
    exact (hextended.table ht).trans ht.symm

/-- A filter is prepared alike: it fails with the same failure, or is bound to the same columns and
planned with the same steps. -/
lemma prepare_of_sameInReach (hc : c.Reachable) (h : c.database.SameInReach c'.database home)
    (hsettings : c'.settings = c.settings) (text : String) :
    (c'.prepare home text).result = (c.prepare home text).result.map fun x =>
      (x.1, ⟨x.2.home, x.2.steps, c'.schema.entries.map Schema.Entry.name⟩) := by
  rw [(prepare_returns c' home text).result, (prepare_returns c home text).result, hsettings]
  split_ifs
  · rfl
  · cases parseFilter text with
    | error x => rfl
    | ok e =>
      show ((c'.database.bindFilter home c.settings.unqualified e).result >>= _)
        = ((c.database.bindFilter home c.settings.unqualified e).result >>= _).map _
      rw [h.bindFilter_eq]
      cases hf : (c.database.bindFilter home c.settings.unqualified e).result with
      | error x => rfl
      | ok f =>
        have hplan := h.plan_eq hc.closed.schema (Database.bindFilter_sound hf).2
        show (c'.database.schema.plan home f >>= _) = (c.database.schema.plan home f >>= _).map _
        rw [hplan]
        cases c.database.schema.plan home f with
        | error x => rfl
        | ok p => rfl

/-- **Tables out of reach have no influence on a filter**: whatever tables are registered, and
whatever relations are declared on tables out of reach of the home table by then, every filter has
the same answer or failure, and is explained with the same steps and text or refused with the same
failure. -/
theorem filter_of_growsBy (hc : c.Reachable) (hhome : home < c.size)
    (h : c.GrowsBy (fun c r => ¬ c.schema.Reaches home r.source) c') (text : String) :
    (c'.filter home text).result = (c.filter home text).result
      ∧ (c'.explain home text).result.map (fun p => (p.steps, p.text))
        = (c.explain home text).result.map (fun p => (p.steps, p.text)) := by
  have hprepare := prepare_of_sameInReach hc (sameInReach_of_growsBy hc hhome h) h.settings_eq text
  cases hresult : (c.prepare home text).result with
  | error x =>
    have hresult' : (c'.prepare home text).result = .error x := by rw [hprepare, hresult]; rfl
    rw [filter_eq_error hresult, filter_eq_error hresult', (explain_returns c home text).result,
      (explain_returns c' home text).result, hresult, hresult']
    exact ⟨rfl, rfl⟩
  | ok x =>
    obtain ⟨f, p⟩ := x
    have hresult' : (c'.prepare home text).result
        = .ok (f, ⟨p.home, p.steps, c'.schema.entries.map Schema.Entry.name⟩) := by
      rw [hprepare, hresult]
      rfl
    obtain ⟨-, hrunnable, htables, -⟩ := plan_of_prepare hc hresult
    obtain ⟨-, -, -, -, hplan⟩ := prepare_eq_ok_iff.1 hresult
    obtain ⟨-, -, -, -, hplan'⟩ := prepare_eq_ok_iff.1 hresult'
    have hcarried := carried_of_extended hc h.extended hplan hplan' rfl rfl htables
    refine ⟨filter_eq_of_carried hc hresult hresult' (by rw [h.settings_eq]) hcarried, ?_⟩
    rw [explain_of_prepare hresult, explain_of_prepare hresult']
    exact congrArg (fun text => Except.ok (p.steps, text)) (hcarried.text_eq hrunnable)

/-- The tables of `partners`, and one that leads to both but is out of reach of them. -/
def onlooking : Catalog :=
  partners
    |>.withTable "z" ⟨[⟨"k", #[.integer 1]⟩, ⟨"y", #[.integer 5]⟩], #[0]⟩
    |>.withRelation ⟨2, "h", 0, "k", "k"⟩
    |>.withRelation ⟨2, "o", 1, "y", "y"⟩

/-- A second table with a column `y` makes neither that name nor the relation `o` ambiguous. -/
theorem filter_of_growsBy_onlooking :
    partners.Reachable ∧ 0 < partners.size
      ∧ partners.GrowsBy (fun c r => ¬ c.schema.Reaches 0 r.source) onlooking
      ∧ (onlooking.filter 0 "y == 5 & o.k == 1").result
        = (partners.filter 0 "y == 5 & o.k == 1").result
      ∧ (onlooking.explain 0 "y == 5 & o.k == 1").result.map (fun p => (p.steps, p.text))
        = (partners.explain 0 "y == 5 & o.k == 1").result.map (fun p => (p.steps, p.text)) := by
  have hsize : 0 < partners.size := by cbv
  have hout : ∀ c : Catalog, 0 < c.schema.size → (c.schema.reachable 0).map Reached.table = [0, 1] →
      ¬ c.schema.Reaches 0 2 := by
    intro c hlt hreachable hreaches
    have hmem := (Schema.mem_reachable_iff hlt).2 hreaches
    rw [hreachable] at hmem
    simp at hmem
  have hgrows : partners.GrowsBy (fun c r => ¬ c.schema.Reaches 0 r.source) onlooking :=
    .withRelation _ (.withRelation _ (.withTable _ _ .refl)
      (hout _ (by cbv) (by cbv))) (hout _ (by cbv) (by cbv))
  exact ⟨reachable_partners, hsize, hgrows,
    filter_of_growsBy reachable_partners hsize hgrows "y == 5 & o.k == 1"⟩

/-- The rows that these filters agree on. -/
example : (onlooking.filter 0 "y == 5 & o.k == 1").result.map Table.rowIds = .ok #[0] := by
  cbv

end Catalog

end LinkedTables
