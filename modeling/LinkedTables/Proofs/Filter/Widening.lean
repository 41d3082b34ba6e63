import Mathlib
import LinkedTables.Proofs.Filter.Evaluation
import LinkedTables.Proofs.Join.Enumeration
import LinkedTables.Proofs.Join.Relations

/-!
# Joining more tables than needed

A left join takes no row away, and the row it adds hangs on rows that are there already.  So an
assignment that follows some relations can be carried on over the tables that further relations
bring, without a change to the tables it speaks of (`Runnable.exists_follows`).

What follows is that **a filter does not notice tables that it does not read**: it keeps the same
rows of the home table under every plan that brings the tables it reads over the same relations
(`keeps_iff_of_relations_subset`), and is answered with the same table
(`exists_evaluate_of_relations_subset`).  The order of the steps, in particular, is of no
importance.
-/

namespace LinkedTables

namespace Database

variable {db : Database} {s s' : Assignment} {t u : JoinStep}

/-! ## One step -/

/-- A step is followed or not by what an assignment says of its two tables. -/
lemma follows_congr (hsource : s t.source = s' t.source) (htarget : s t.target = s' t.target) :
    db.Follows s t ↔ db.Follows s' t := by
  simp only [Follows, Matches, cellAt, hsource, htarget]

/-- The place of a step in a plan does not matter. -/
lemma follows_iff_of_toRelation_eq (h : t.toRelation = u.toRelation) :
    db.Follows s t ↔ db.Follows s u := by
  simp only [JoinStep.toRelation, Relation.mk.injEq] at h
  obtain ⟨hsource, -, htarget, hleft, hright⟩ := h
  simp only [Follows, Matches, hsource, htarget, hleft, hright]

/-- A table can always be joined, if only as missing. -/
lemma exists_follows_update (db : Database) (s : Assignment) (h : t.source ≠ t.target) :
    ∃ o, db.Follows (Function.update s t.target o) t := by
  by_cases hmatch : ∃ j, db.Matches s t j
  · obtain ⟨j, hj⟩ := hmatch
    exact ⟨some j, Or.inl ⟨j, by simp, (matches_update h).2 hj⟩⟩
  · refine ⟨none, Or.inr ⟨by simp, fun j hj => hmatch ⟨j, ?_⟩⟩⟩
    exact (matches_update h).1 hj

/-- Where the relations of one plan are followed, so are those of a smaller one. -/
lemma follows_of_relations_subset {p p' : JoinPlan} (hsub : ∀ r ∈ p.relations, r ∈ p'.relations)
    (h : ∀ t ∈ p'.steps, db.Follows s t) : ∀ t ∈ p.steps, db.Follows s t := by
  intro t ht
  obtain ⟨u, hu, heq⟩ := List.mem_map.1 (hsub _ (List.mem_map_of_mem ht))
  exact (follows_iff_of_toRelation_eq heq).1 (h u hu)

end Database

/-! ## A whole plan -/

namespace JoinPlan

variable {db : Database} {p p' : JoinPlan}

/-- The tables of a step are there once it has been carried out. -/
lemma Runnable.mem_tables (hp : p.Runnable) {t : JoinStep} (ht : t ∈ p.steps) :
    t.source ∈ p.tables ∧ t.target ∈ p.tables := by
  obtain ⟨before, after, hsteps⟩ := List.append_of_mem ht
  refine ⟨?_, List.mem_cons_of_mem _ (List.mem_map_of_mem ht)⟩
  have hsource := hp.source before t after hsteps
  rw [JoinPlan.tables, hsteps, List.map_append, ← List.cons_append]
  exact List.mem_append_left _ hsource

/-- The table that a step brings is not there before. -/
lemma Runnable.target_notMem (hp : p.Runnable) {before after : List JoinStep} {t : JoinStep}
    (hsteps : p.steps = before ++ t :: after) :
    t.target ∉ p.home :: before.map JoinStep.target := by
  have hnodup := hp.nodup
  rw [JoinPlan.tables, hsteps, List.map_append, ← List.cons_append, List.nodup_append] at hnodup
  intro hmem
  exact hnodup.2.2 _ hmem _ (by simp) rfl

/-- A step that only the larger plan has brings a table that the smaller one does not have. -/
lemma Runnable.target_notMem_tables (hp' : p'.Runnable) (hhome : p.home = p'.home)
    (hsub : ∀ r ∈ p.relations, r ∈ p'.relations) {t : JoinStep} (ht : t ∈ p'.steps)
    (hnew : t.toRelation ∉ p.relations) : t.target ∉ p.tables := by
  have hnodup := List.nodup_cons.1 hp'.nodup
  intro hmem
  rcases List.mem_cons.1 hmem with heq | hmem
  · exact hnodup.1 (hhome ▸ heq ▸ List.mem_map_of_mem ht)
  · obtain ⟨u, hu, hut⟩ := List.mem_map.1 hmem
    obtain ⟨v, hv, hvu⟩ := List.mem_map.1 (hsub _ (List.mem_map_of_mem hu))
    have hvt : v.target = t.target := (congrArg Relation.target hvu).trans hut
    have heq : v = t := List.inj_on_of_nodup_map hnodup.2 hv ht hvt
    exact hnew (heq ▸ hvu ▸ List.mem_map_of_mem hu)

/-- **An assignment can be carried on** to the tables of a larger plan, and stays as it is on those
of the smaller one. -/
theorem Runnable.exists_follows (hp : p.Runnable) (hp' : p'.Runnable) (hhome : p.home = p'.home)
    (hsub : ∀ r ∈ p.relations, r ∈ p'.relations) {s : Assignment}
    (hs : ∀ t ∈ p.steps, db.Follows s t) :
    ∃ s' : Assignment, (∀ id ∈ p.tables, s' id = s id) ∧ ∀ t ∈ p'.steps, db.Follows s' t := by
  -- by induction on the steps carried out so far
  suffices h : ∀ before after : List JoinStep, p'.steps = before ++ after →
      ∃ s' : Assignment, (∀ id ∈ p.tables, s' id = s id) ∧ ∀ t ∈ before, db.Follows s' t from
    h p'.steps [] (by simp)
  intro before
  induction before using List.reverseRecOn with
  | nil => exact fun _ _ => ⟨s, fun _ _ => rfl, by simp⟩
  | append_singleton before t ih =>
    intro after hsteps
    rw [List.append_assoc, List.singleton_append] at hsteps
    obtain ⟨s', hkept, hfollows⟩ := ih (t :: after) hsteps
    have ht : t ∈ p'.steps := by simp [hsteps]
    have hearlier : ∀ u ∈ before, u.source ≠ t.target ∧ u.target ≠ t.target := by
      intro u hu
      have hnot := hp'.target_notMem hsteps
      obtain ⟨front, back, rfl⟩ := List.append_of_mem hu
      have hsource := hp'.source front u (back ++ t :: after) (by simp [hsteps])
      constructor
      · refine ne_of_mem_of_not_mem ?_ hnot
        rw [List.map_append, ← List.cons_append]
        exact List.mem_append_left _ hsource
      · exact ne_of_mem_of_not_mem (List.mem_cons_of_mem _ (List.mem_map_of_mem hu)) hnot
    by_cases hold : t.toRelation ∈ p.relations
    · -- the smaller plan has this relation, and the assignment follows it there
      refine ⟨s', hkept, ?_⟩
      intro u hu
      rcases List.mem_append.1 hu with hu | hu
      · exact hfollows u hu
      · rw [List.mem_singleton.1 hu]
        obtain ⟨v, hv, heq⟩ := List.mem_map.1 hold
        obtain ⟨hsource, htarget⟩ := hp.mem_tables hv
        rw [← Database.follows_iff_of_toRelation_eq heq,
          Database.follows_congr (hkept _ hsource) (hkept _ htarget)]
        exact hs v hv
    · have hne : t.source ≠ t.target :=
        ne_of_mem_of_not_mem (hp'.source before t after hsteps) (hp'.target_notMem hsteps)
      obtain ⟨o, ho⟩ := db.exists_follows_update s' hne
      refine ⟨Function.update s' t.target o, ?_, ?_⟩
      · intro id hid
        have hid' : id ≠ t.target :=
          ne_of_mem_of_not_mem hid (hp'.target_notMem_tables hhome hsub ht hold)
        rw [Function.update_of_ne hid', hkept id hid]
      · intro u hu
        rcases List.mem_append.1 hu with hu | hu
        · rw [Database.follows_update (hearlier u hu).1 (hearlier u hu).2]
          exact hfollows u hu
        · rwa [List.mem_singleton.1 hu]

/-- Every row of the home table stands in a joined row. -/
lemma Runnable.exists_assignment (hp : p.Runnable) (db : Database) (i : ℕ) :
    ∃ s : Assignment, s p.home = some i ∧ ∀ t ∈ p.steps, db.Follows s t := by
  have hempty : Runnable ⟨p.home, [], p.names⟩ :=
    ⟨List.nodup_singleton p.home, by simp⟩
  obtain ⟨s, hkept, hfollows⟩ := hempty.exists_follows (s := fun _ => some i) hp rfl
    (by simp [JoinPlan.relations]) (by simp)
  exact ⟨s, hkept p.home (List.mem_cons_self ..), hfollows⟩

/-- **A filter does not notice tables that it does not read.** -/
theorem Runnable.keeps_iff_of_relations_subset (hp : p.Runnable) (hp' : p'.Runnable)
    (hhome : p.home = p'.home) (hsub : ∀ r ∈ p.relations, r ∈ p'.relations)
    {e : Expr BoundColumn} (howners : ∀ c ∈ e.columns, c.table ∈ p.tables) {i : ℕ} :
    db.Keeps p.home p.steps e i ↔ db.Keeps p'.home p'.steps e i := by
  constructor
  · rintro ⟨s, hi, hfollows, htrue⟩
    obtain ⟨s', hkept, hfollows'⟩ := hp.exists_follows hp' hhome hsub hfollows
    refine ⟨s', ?_, hfollows', ?_⟩
    · rw [← hhome, hkept p.home (List.mem_cons_self ..), hi]
    · refine (Expr.holds_congr fun c hc => ?_).1 htrue
      simp only [Database.read, Database.cellAt, hkept c.table (howners c hc)]
  · rintro ⟨s, hi, hfollows, htrue⟩
    exact ⟨s, hhome ▸ hi, Database.follows_of_relations_subset hsub hfollows, htrue⟩

/-- **Joins that a filter does not need do not change its answer**, wherever they stand among the
others.  Two plans that can be carried out on the tables of a database are given, and the relations
that one follows are among those of the other. -/
theorem Runnable.exists_evaluate_of_relations_subset (hp : p.Runnable) (hp' : p'.Runnable)
    (hhome : p.home = p'.home) (hsub : ∀ r ∈ p.relations, r ∈ p'.relations)
    (hregistered : ∀ id ∈ p'.tables, ∃ t, db.tables[id]? = some t)
    {e : Expr BoundColumn} (howners : ∀ c ∈ e.columns, c.table ∈ p.tables) :
    ∃ t, (db.evaluate none p e).result = .ok t ∧ (db.evaluate none p' e).result = .ok t := by
  have hmem : ∀ id ∈ p.tables, id ∈ p'.tables := by
    intro id hid
    rw [mem_tables_iff, ← hhome]
    exact (mem_tables_iff.1 hid).imp_right fun ⟨r, hr, htarget⟩ => ⟨r, hsub r hr, htarget⟩
  obtain ⟨home, hhome'⟩ := hregistered p'.home List.mem_cons_self
  obtain ⟨rows, hsorted, hrows, heval⟩ := Database.exists_evaluate hp
    (fun id hid => hregistered id (hmem id hid)) (hhome ▸ hhome') howners
  obtain ⟨rows', hsorted', hrows', heval'⟩ := Database.exists_evaluate hp' hregistered hhome'
    fun c hc => hmem _ (howners c hc)
  have heq : rows = rows' := hsorted.eq_of_mem_iff hsorted' fun i => by
    rw [hrows, hrows', hp.keeps_iff_of_relations_subset hp' hhome hsub howners]
  exact ⟨_, heval.result, heq ▸ heval'.result⟩

/-- The chain, and a table `p` that is joined to its first table, with two rows to one row there. -/
def branched : Catalog :=
  chain
    |>.withTable "p" ⟨[⟨"k", #[.integer 1, .integer 1, .integer 2]⟩,
        ⟨"w", #[.integer 1, .integer 0, .integer 1]⟩], #[0, 1, 2]⟩
    |>.withRelation ⟨0, "p", 3, "k", "k"⟩

lemma reachable_branched : branched.Reachable :=
  .withRelation (.withTable reachable_chain _ _) _

/-- The filter `z == 1` on the last table of the chain is joined over `o` and `q`.  Under the plan
of `z == 1 & w == 1`, which joins `p` between the two, it leaves the same row of `h`. -/
theorem Runnable.exists_evaluate_of_relations_subset_branched :
    ∃ p p' : JoinPlan, p.Runnable ∧ p'.Runnable
      ∧ p.steps.map JoinStep.target = [1, 2] ∧ p'.steps.map JoinStep.target = [1, 3, 2]
      ∧ ∃ t, (branched.database.evaluate none p (.compare ⟨2, "z"⟩ .eq (.integer 1))).result = .ok t
        ∧ (branched.database.evaluate none p' (.compare ⟨2, "z"⟩ .eq (.integer 1))).result
          = .ok t := by
  have h : (branched.database.bindFilter 0 .strict
        (.compare ⟨.plain "z", 0⟩ .eq (.integer 1))).result
        = .ok ⟨.compare ⟨2, "z"⟩ .eq (.integer 1), []⟩
      ∧ branched.schema.plan 0 ⟨.compare ⟨2, "z"⟩ .eq (.integer 1), []⟩
        = .ok ⟨0, [⟨0, "o", 1, "k", "k", 1⟩, ⟨1, "q", 2, "m", "m", 2⟩], #["h", "o", "q", "p"]⟩
      ∧ (branched.database.bindFilter 0 .strict
        (.and [.compare ⟨.plain "z", 0⟩ .eq (.integer 1),
          .compare ⟨.plain "w", 9⟩ .eq (.integer 1)])).result
        = .ok ⟨.and [.compare ⟨2, "z"⟩ .eq (.integer 1), .compare ⟨3, "w"⟩ .eq (.integer 1)], []⟩
      ∧ branched.schema.plan 0
          ⟨.and [.compare ⟨2, "z"⟩ .eq (.integer 1), .compare ⟨3, "w"⟩ .eq (.integer 1)], []⟩
        = .ok ⟨0, [⟨0, "o", 1, "k", "k", 1⟩, ⟨0, "p", 3, "k", "k", 1⟩, ⟨1, "q", 2, "m", "m", 2⟩],
          #["h", "o", "q", "p"]⟩
      ∧ branched.database.tables.size = 4 :=
    ⟨by cbv, by cbv, by cbv, by cbv, by cbv⟩
  obtain ⟨hbound, hplan, hbound', hplan', hsize⟩ := h
  have hs : branched.database.schema.Closed := reachable_branched.closed.schema
  have hrunnable := runnable_of_plan hs (Database.bindFilter_sound hbound).2 hplan
  have hrunnable' := runnable_of_plan hs (Database.bindFilter_sound hbound').2 hplan'
  have hregistered : ∀ id ∈ [0, 1, 3, 2], ∃ t, branched.database.tables[id]? = some t := by
    intro id hid
    have hlt : id < branched.database.tables.size := by
      simp only [List.mem_cons, List.not_mem_nil, or_false] at hid
      omega
    exact ⟨_, Array.getElem?_eq_getElem hlt⟩
  exact ⟨_, _, hrunnable, hrunnable', rfl, rfl,
    hrunnable.exists_evaluate_of_relations_subset hrunnable' rfl
      (by simp [relations, JoinStep.toRelation]) hregistered (by simp [JoinPlan.tables])⟩

end JoinPlan

end LinkedTables
