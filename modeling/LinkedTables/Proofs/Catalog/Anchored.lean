import Mathlib
import LinkedTables.Proofs.Catalog.Agreement
import LinkedTables.Proofs.Catalog.Growth
import LinkedTables.Proofs.Schema.Completeness

/-!
# Filters that survive growth

A new relation can make a name ambiguous, or lead to a table over a shorter path than before, so a
filter may mean something else once the catalog has grown.  It keeps its meaning if each of its
references is **anchored** at the home table: it is a column of the home table, or spells out a path
that begins with a relation declared on the home table (`Reference.Anchored`).

What protects such a filter, stage by stage:

* **Binding.**  The search meets the home table first, so no other relation of the name is found
  before the one that is declared there.  The other segments are looked up on one table each, where
  new relations stand behind the old ones and have other names (`bind_of_extended`).
* **Planning.**  Every table that is needed is the home table or the end of a path that is spelled
  out, so no shortest path is ever looked for (`plan_of_spelled`).
* **Evaluation.**  The tables of the plan are what they were (`carried_of_extended`).

The stages are put together in `explain_of_grows`.
-/

namespace LinkedTables

/-- A column of the home table, or one at the end of a path that is spelled out from the home table
on. -/
def Reference.Anchored (db : Database) (home : TableId) (r : Reference) : Prop :=
  match r.form with
  | .home _ => True
  | .plain name => db.hasColumn home name = true
  | .path segments _ => ∃ first ∈ segments.head?, (db.schema.relation? home first).isSome

/-! ## Binding -/

/-- A relation that is declared on the home table is the nearest one of its name. -/
lemma Schema.findRelation?_of_home {s : Schema} {home : TableId} {name : String} {r : Relation}
    (hhome : home < s.size) (h : s.relation? home name = some r) :
    s.findRelation? home name = some [r] := by
  obtain ⟨rest, hrest⟩ := exists_reachable_eq_cons hhome
  rw [findRelation?, hrest, List.findSome?_cons, h]
  rfl

namespace Database

variable {db db' : Database} {home : TableId} {f : BoundFilter} {p : JoinPlan}

lemma bindOn_of_extended (h : db.Extended db') {id : TableId} {path : List Relation}
    {name : String} {b : Binding} (hb : db.bindOn id path name = .ok b) :
    db'.bindOn id path name = .ok b := by
  obtain ⟨hcolumn, rfl⟩ := bindOn_eq_ok hb
  rw [bindOn, if_pos (h.hasColumn hcolumn)]

lemma followHops_of_extended (h : db.Extended db') {segments : List String} :
    ∀ {path path' : List Relation}, db.followHops home path segments = .ok path' →
      db'.followHops home path segments = .ok path' := by
  induction segments with
  | nil => exact fun hpath => hpath
  | cons segment rest ih =>
    intro path path' hpath
    simp only [followHops] at hpath ⊢
    split at hpath
    · rename_i r hr
      rw [h.relation? hr]
      exact ih hpath
    · cases hpath

/-- **An anchored reference is bound as before** when there is more to choose from. -/
lemma bind_of_extended (h : db.Extended db') (hhome : home < db.schema.size)
    (hhome' : home < db'.schema.size) {r : Reference} (hr : r.Anchored db home) {b : Binding}
    (hb : db.bind home .preferHome r = .ok b) :
    db'.bind home .preferHome r = .ok b ∧ (b.path = [] → b.column.table = home) := by
  simp only [Reference.Anchored] at hr
  cases hform : r.form with
  | home name =>
    simp only [bind, hform] at hb ⊢
    obtain ⟨-, rfl⟩ := bindOn_eq_ok hb
    exact ⟨bindOn_of_extended h hb, fun _ => rfl⟩
  | plain name =>
    have hcolumn : db.hasColumn home name = true := by simpa only [hform] using hr
    simp only [bind, hform, hcolumn, h.hasColumn hcolumn, and_self, if_true] at hb ⊢
    cases hb
    exact ⟨rfl, fun _ => rfl⟩
  | path segments name =>
    rw [hform] at hr
    obtain ⟨first, hfirst, hsome⟩ := hr
    obtain ⟨rest, rfl⟩ := List.head?_eq_some_iff.1 hfirst
    obtain ⟨q, hq⟩ := Option.isSome_iff_exists.1 hsome
    simp only [bind, hform, bindPath, firstHops, Schema.findRelation?_of_home hhome hq,
      Schema.findRelation?_of_home hhome' (h.relation? hq)] at hb ⊢
    obtain ⟨_, ⟨⟩, hb⟩ := eq_ok_of_bind hb
    obtain ⟨path, hpath, hb⟩ := eq_ok_of_bind hb
    have hon := bindOn_of_extended h hb
    obtain ⟨-, rfl⟩ := bindOn_eq_ok hb
    constructor
    · show (db'.followHops home [q] rest >>= _) = _
      rw [followHops_of_extended h hpath]
      exact hon
    · intro hnil
      obtain rfl : path = [] := hnil
      rfl

/-- A filter is bound as before if each of its references is. -/
lemma bindFilter_of_bind (h : db.Extended db') {rule : UnqualifiedRule} {e : Expr Reference}
    (hbind : ∀ r ∈ e.columns, ∃ b, db.bind home rule r = .ok b ∧ db'.bind home rule r = .ok b)
    (hf : (db.bindFilter home rule e).result = .ok f) :
    (db'.bindFilter home rule e).result = .ok f := by
  obtain ⟨⟨t, ht⟩, -, rfl⟩ := bindFilter_eq_ok_iff.1 hf
  have hbinding : ∀ r ∈ e.columns, db.bindingOf home rule r = db'.bindingOf home rule r := by
    intro r hr
    obtain ⟨b, hb, hb'⟩ := hbind r hr
    rw [bindingOf_eq hb, bindingOf_eq hb']
  refine bindFilter_eq_ok_iff.2 ⟨⟨t, h.table_eq_ok ht⟩, fun r hr => ?_, ?_⟩
  · obtain ⟨b, -, hb'⟩ := hbind r hr
    exact ⟨b, hb'⟩
  · rw [List.map_congr_left hbinding]
    exact congrArg (BoundFilter.mk · _) ((Expr.mapColumns_eq_mapColumns_iff e).2 fun r hr =>
      congrArg Binding.column (hbinding r hr))

/-- **A filter of anchored references is bound as before**, and has no columns but those of the home
table and of tables at the end of its explicit paths. -/
lemma bindFilter_of_extended (h : db.Extended db') (hhome : home < db.schema.size)
    (hhome' : home < db'.schema.size) {e : Expr Reference}
    (he : ∀ r ∈ e.columns, r.Anchored db home)
    (hf : (db.bindFilter home .preferHome e).result = .ok f) :
    (db'.bindFilter home .preferHome e).result = .ok f
      ∧ ∀ id ∈ f.owners, id = home ∨ ∃ x ∈ f.paths, x.table = id := by
  obtain ⟨-, hbound, rfl⟩ := bindFilter_eq_ok_iff.1 hf
  have hbind : ∀ r ∈ e.columns, ∃ b, db.bind home .preferHome r = .ok b
      ∧ db'.bind home .preferHome r = .ok b ∧ (b.path = [] → b.column.table = home) := by
    intro r hr
    obtain ⟨b, hb⟩ := hbound r hr
    exact ⟨b, hb, bind_of_extended h hhome hhome' (he r hr) hb⟩
  constructor
  · refine bindFilter_of_bind h (fun r hr => ?_) hf
    obtain ⟨b, hb, hb', -⟩ := hbind r hr
    exact ⟨b, hb, hb'⟩
  · intro id hid
    rw [BoundFilter.mem_owners, Expr.columns_mapColumns] at hid
    obtain ⟨c, hc, rfl⟩ := hid
    obtain ⟨r, hr, rfl⟩ := List.mem_map.1 hc
    obtain ⟨b, hb, -, hnil⟩ := hbind r hr
    rw [bindingOf_eq hb]
    by_cases hpath : b.path = []
    · exact Or.inl (hnil hpath)
    · refine Or.inr ⟨_, mem_explicitPaths.2 ⟨b, ?_, hpath, rfl⟩, rfl⟩
      exact List.mem_map.2 ⟨r, hr, bindingOf_eq hb⟩

end Database

/-! ## Planning -/

namespace JoinPlan

variable {s s' : Schema} {home : TableId} {steps steps' : List JoinStep}

/-- A schema is looked at by the first phase only to say what is wrong. -/
lemma addExplicit_of_ok {r : Relation} (h : addExplicit s home steps r = .ok steps') :
    addExplicit s' home steps r = .ok steps' := by
  simp only [addExplicit] at h ⊢
  split_ifs at h ⊢
  split at h
  · exact h
  · split_ifs at h ⊢
    exact h

/-- The second phase has nothing to do where all owners are joined. -/
lemma foldlM_reach_of_joined {owners : List TableId} (h : ∀ o ∈ owners, Joined home steps o) :
    owners.foldlM (JoinPlan.reach s home) steps = .ok steps := by
  induction owners with
  | nil => rfl
  | cons owner rest ih =>
    have howner := joins_eq_true_iff.2 (h owner (List.mem_cons_self ..))
    rw [List.foldlM_cons, JoinPlan.reach, if_pos howner]
    exact ih fun o ho => h o (List.mem_cons_of_mem _ ho)

end JoinPlan

open JoinPlan

/-- **A filter that spells out its paths** is planned with the same steps wherever it is bound. -/
lemma exists_plan_of_spelled (s' : Schema) {db : Database} {home : TableId} {f : BoundFilter}
    {p : JoinPlan} (hs : db.schema.Closed) (hf : f.Sound db home)
    (hspelled : ∀ id ∈ f.owners, id = home ∨ ∃ x ∈ f.paths, x.table = id)
    (hp : db.schema.plan home f = .ok p) :
    ∃ p', s'.plan home f = .ok p' ∧ p'.home = p.home ∧ p'.steps = p.steps := by
  obtain ⟨steps, steps', hexplicit, hshortest, rfl⟩ := plan_eq_ok hp
  have hcovers := covers_of_explicit hs hf.rooted hexplicit
  have hjoined : ∀ o ∈ f.owners, Joined home steps o := by
    intro o ho
    rcases hspelled o ho with rfl | ⟨x, hx, rfl⟩
    · exact Or.inl rfl
    · exact hcovers.joined_of_path hs hf hx
  rw [foldlM_reach_of_joined hjoined] at hshortest
  cases hshortest
  refine ⟨⟨home, byDepth steps, s'.entries.map Schema.Entry.name⟩, ?_, rfl, rfl⟩
  have hexplicit' : f.hops.foldlM (addExplicit s' home) [] = .ok steps :=
    foldlM_eq_ok_of_step addExplicit_of_ok hexplicit
  simp only [Schema.plan]
  show (f.hops.foldlM (addExplicit s' home) [] >>= _) = _
  rw [hexplicit']
  show (f.owners.foldlM (JoinPlan.reach s' home) steps >>= _) = _
  rw [foldlM_reach_of_joined hjoined]
  rfl

/-! ## The whole filter -/

namespace Catalog

variable {c c' : Catalog} {home : TableId} {text : String} {e : Expr Reference} {p : JoinPlan}

/-- **Anchored filters survive growth.**  If all references of a filter are anchored at the home
table and the filter can be explained, it is explained with the same steps and written the same way
in whatever the catalog grows to, and has the same outcome there: an answer, or too many joined
rows. -/
theorem explain_of_grows (hc : c.Reachable) (hrule : c.settings.unqualified = .preferHome)
    (hparse : parseFilter text = .ok e) (he : ∀ r ∈ e.columns, r.Anchored c.database home)
    (hp : (c.explain home text).result = .ok p) (hgrows : c.Grows c') :
    (∃ p', (c'.explain home text).result = .ok p' ∧ p'.steps = p.steps ∧ p'.text = p.text)
      ∧ (c'.filter home text).result = (c.filter home text).result
      ∧ ((∃ t, (c.filter home text).result = .ok t) ∨ ∃ rows limit,
        c.settings.maxFrameRows = some limit ∧ limit < rows
          ∧ (c.filter home text).result = .error (.frameTooLarge rows limit)) := by
  obtain ⟨f, hprepare⟩ := exists_prepare hp
  obtain ⟨-, hrunnable, htables, -⟩ := plan_of_prepare hc hprepare
  obtain ⟨hlength, e', hparse', hf, hplan⟩ := prepare_eq_ok_iff.1 hprepare
  obtain rfl : e' = e := Except.ok.inj (hparse'.symm.trans hparse)
  obtain ⟨⟨t, ht⟩, hsound⟩ := Database.bindFilter_sound hf
  have hextended := hgrows.extended
  have hsettings := hgrows.settings_eq
  have hhome : home < c.database.schema.size :=
    hc.closed.lt_schema_size (Database.lt_size_of_table ht)
  have hhome' : home < c'.database.schema.size :=
    (hgrows.reachable hc).closed.lt_schema_size
      (Database.lt_size_of_table (hextended.table_eq_ok ht))
  rw [hrule] at hf
  obtain ⟨hf', hspelled⟩ := Database.bindFilter_of_extended hextended hhome hhome' he hf
  obtain ⟨p', hplan', hhome, hsteps⟩ :=
    exists_plan_of_spelled c'.schema hc.closed.schema hsound hspelled hplan
  have hprepare' : (c'.prepare home text).result = .ok (f, p') :=
    prepare_eq_ok_iff.2 ⟨by rwa [hsettings], e', hparse, by rwa [hsettings, hrule], hplan'⟩
  have hcarried := carried_of_extended hc hextended hplan hplan' hhome hsteps htables
  refine ⟨⟨p', explain_of_prepare hprepare', hsteps, hcarried.text_eq hrunnable⟩, ?_,
    filter_of_prepare hc hprepare⟩
  exact filter_eq_of_carried hc hprepare hprepare' (by rw [hsettings]) hcarried

/-- The tables of `partners`, and one that is joined to `o`. -/
def chained : Catalog :=
  partners
    |>.withTable "p" ⟨[⟨"y", #[.integer 5, .integer 7]⟩, ⟨"z", #[.integer 1, .integer 0]⟩], #[0, 1]⟩
    |>.withRelation ⟨1, "p", 2, "y", "y"⟩

/-- The same with a shorter way to `p`, a way back from there that is called like the one to `o`,
and a table behind a second relation that is called like the one to `p`. -/
def entangled : Catalog :=
  chained
    |>.withRelation ⟨0, "p", 2, "k", "z"⟩
    |>.withRelation ⟨2, "o", 0, "z", "k"⟩
    |>.withTable "q" ⟨[⟨"z", #[.integer 1]⟩], #[0]⟩
    |>.withRelation ⟨2, "p", 3, "z", "z"⟩

/-- `o.p.z == 1 & k == 1` -/
def overChain : Expr Reference :=
  .and [.compare ⟨.path ["o", "p"] "z", 0⟩ .eq (.integer 1),
    .compare ⟨.plain "k", 13⟩ .eq (.integer 1)]

/-- A path that is spelled out is followed as before, for all that is declared around it. -/
theorem explain_of_grows_entangled :
    ∃ p, chained.Reachable ∧ chained.settings.unqualified = .preferHome
      ∧ parseFilter "o.p.z == 1 & k == 1" = .ok overChain
      ∧ (∀ r ∈ overChain.columns, r.Anchored chained.database 0)
      ∧ (chained.explain 0 "o.p.z == 1 & k == 1").result = .ok p
      ∧ chained.Grows entangled
      ∧ (∃ p', (entangled.explain 0 "o.p.z == 1 & k == 1").result = .ok p'
        ∧ p'.steps = p.steps ∧ p'.text = p.text)
      ∧ (entangled.filter 0 "o.p.z == 1 & k == 1").result
        = (chained.filter 0 "o.p.z == 1 & k == 1").result
      ∧ ((∃ t, (chained.filter 0 "o.p.z == 1 & k == 1").result = .ok t) ∨ ∃ rows limit,
        chained.settings.maxFrameRows = some limit ∧ limit < rows
          ∧ (chained.filter 0 "o.p.z == 1 & k == 1").result
            = .error (.frameTooLarge rows limit)) := by
  have hreachable : chained.Reachable := .withRelation (.withTable reachable_partners _ _) _
  have hgrows : chained.Grows entangled :=
    .withRelation _ (.withTable _ _ (.withRelation _ (.withRelation _ .refl trivial) trivial))
      trivial
  have h : chained.settings.unqualified = .preferHome
      ∧ parseFilter "o.p.z == 1 & k == 1" = .ok overChain
      ∧ chained.database.hasColumn 0 "k" = true
      ∧ (chained.database.schema.relation? 0 "o").isSome = true
      ∧ (chained.explain 0 "o.p.z == 1 & k == 1").result
        = .ok ⟨0, [⟨0, "o", 1, "k", "k", 1⟩, ⟨1, "p", 2, "y", "y", 2⟩], #["h", "o", "p"]⟩ :=
    ⟨by cbv, by cbv, by cbv, by cbv, by cbv⟩
  obtain ⟨hrule, hparse, hcolumn, hrelation, hexplain⟩ := h
  have hanchored : ∀ r ∈ overChain.columns, r.Anchored chained.database 0 := by
    simpa [overChain, Reference.Anchored] using And.intro hrelation hcolumn
  exact ⟨_, hreachable, hrule, hparse, hanchored, hexplain, hgrows,
    explain_of_grows hreachable hrule hparse hanchored hexplain hgrows⟩

/-- A path that does not begin at the home table is another one by then. -/
example : (chained.explain 0 "p.z == 1").result.map JoinPlan.tables = .ok [0, 1, 2]
    ∧ (entangled.explain 0 "p.z == 1").result.map JoinPlan.tables = .ok [0, 2] :=
  ⟨by cbv, by cbv⟩

end Catalog

end LinkedTables
