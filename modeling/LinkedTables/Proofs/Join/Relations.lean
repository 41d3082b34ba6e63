import Mathlib
import LinkedTables.Proofs.Join.Refusals

/-!
# Which relations a plan follows

A plan is put together in the order in which a filter names its paths and owners, but what it
consists of does not depend on that order.

* **Whether there is a plan** depends on the explicit paths alone, taken together: none of them may
  lead back to the home table, and no two of them to one table over different relations
  (`BoundFilter.Unforked`).
* **Which relations it follows** is said by `BoundFilter.Asks`: those of the explicit paths, and
  those of the shortest paths to the other owners, but for tables that an explicit path leads to.

So filters that name the same paths and owners are planned alike (`BoundFilter.Alike.exists_plan`).

`mem_relations_iff` is the second statement.  It says more than `JoinPlan.Covers`, which has the
tables that a step joins and not the relation it follows: a step that no explicit path asks for was
made from a relation of some shortest path, and over shortest paths only one relation leads to each
table.
-/

namespace LinkedTables

open JoinPlan

/-- The relations that a plan follows. -/
def JoinPlan.relations (p : JoinPlan) : List Relation := p.steps.map JoinStep.toRelation

lemma JoinPlan.mem_tables_iff {p : JoinPlan} {id : TableId} :
    id ∈ p.tables ↔ id = p.home ∨ ∃ r ∈ p.relations, r.target = id := by
  simp [tables, relations, JoinStep.toRelation]

/-- Two plans begin at the same table and follow the same relations, each in its own order. -/
structure JoinPlan.Alike (p p' : JoinPlan) : Prop where
  home : p.home = p'.home
  mem_iff : ∀ r, r ∈ p.relations ↔ r ∈ p'.relations

namespace BoundFilter

/-- Explicit paths do not contradict each other. -/
structure Unforked (f : BoundFilter) (home : TableId) : Prop where
  target_ne : ∀ r ∈ f.hops, r.target ≠ home
  eq_of_target_eq : ∀ q ∈ f.hops, ∀ r ∈ f.hops, q.target = r.target → q = r

/-- A plan has to follow a relation. -/
def Asks (f : BoundFilter) (s : Schema) (home : TableId) (r : Relation) : Prop :=
  r ∈ f.hops ∨ r.target ∉ f.pinned ∧ ∃ owner ∈ f.owners, owner ∉ f.pinned
    ∧ ∃ path, ⟨owner, path⟩ ∈ s.reachable home ∧ r ∈ path

/-- Two filters spell out the same paths and have columns of the same tables, each in its own
order. -/
structure Alike (f f' : BoundFilter) : Prop where
  mem_paths_iff : ∀ x, x ∈ f.paths ↔ x ∈ f'.paths
  mem_owners_iff : ∀ id, id ∈ f.owners ↔ id ∈ f'.owners

variable {f f' : BoundFilter}

lemma Alike.symm (h : f.Alike f') : f'.Alike f :=
  ⟨fun x => (h.mem_paths_iff x).symm, fun id => (h.mem_owners_iff id).symm⟩

lemma Alike.mem_hops_iff (h : f.Alike f') {r : Relation} : r ∈ f.hops ↔ r ∈ f'.hops := by
  simp only [hops, List.mem_flatMap, h.mem_paths_iff]

lemma Alike.asks_iff (h : f.Alike f') {s : Schema} {home : TableId} {r : Relation} :
    f.Asks s home r ↔ f'.Asks s home r := by
  simp only [Asks, pinned, List.mem_map, h.mem_hops_iff, h.mem_owners_iff]

lemma Unforked.of_alike {home : TableId} (hu : f.Unforked home) (h : f.Alike f') :
    f'.Unforked home where
  target_ne r hr := hu.target_ne r (h.mem_hops_iff.2 hr)
  eq_of_target_eq q hq r hr := hu.eq_of_target_eq q (h.mem_hops_iff.2 hq) r (h.mem_hops_iff.2 hr)

lemma Unforked.not_conflict {s : Schema} {home : TableId} {fault : InputFault}
    (hu : f.Unforked home) : ¬ f.Conflict s home fault := by
  intro hc
  cases hc with
  | leadsHome hr hhome => exact hu.target_ne _ hr hhome
  | twoWays hq hr htarget hne =>
    rw [hu.eq_of_target_eq _ hq _ hr htarget] at hne
    simp at hne

end BoundFilter

namespace JoinPlan

variable {s : Schema} {home : TableId} {steps steps' : List JoinStep} {Q : Relation → Prop}

/-! ## What steps are made from -/

lemma forall_extend {path : List Relation} :
    ∀ {steps : List JoinStep}, (∀ r ∈ path, Q r) → (∀ t ∈ steps, Q t.toRelation) →
      ∀ t ∈ extend home steps path, Q t.toRelation := by
  induction path with
  | nil => exact fun _ h => h
  | cons r rest ih =>
    intro steps hpath h
    have hfirst : ∀ t ∈ if joins home steps r.target then steps else follow home steps r,
        Q t.toRelation := by
      split_ifs
      · exact h
      · exact forall_follow (hpath r (List.mem_cons_self ..)) h
    exact ih (fun r' hr' => hpath r' (List.mem_cons_of_mem r hr')) hfirst

lemma forall_of_reach {owner : TableId} (hpaths : ∀ x ∈ s.reachable home, ∀ r ∈ x.path, Q r)
    (h : ∀ t ∈ steps, Q t.toRelation) (hadd : JoinPlan.reach s home steps owner = .ok steps') :
    ∀ t ∈ steps', Q t.toRelation := by
  simp only [JoinPlan.reach] at hadd
  split_ifs at hadd
  · cases hadd
    exact h
  · split at hadd
    · rename_i x hfind
      cases hadd
      exact forall_extend (hpaths x (List.mem_of_find?_eq_some hfind)) h
    · cases hadd

end JoinPlan

variable {s : Schema} {db : Database} {home : TableId} {f : BoundFilter} {p : JoinPlan}
  {r : Relation}

/-- A step is made from a relation of an explicit path or of a shortest one. -/
lemma mem_hops_or_path (hp : s.plan home f = .ok p) {t : JoinStep} (ht : t ∈ p.steps) :
    t.toRelation ∈ f.hops ∨ ∃ x ∈ s.reachable home, t.toRelation ∈ x.path := by
  rcases plan_eq_ok hp with ⟨steps, steps', hexplicit, hshortest, rfl⟩
  let Q : Relation → Prop := fun r => r ∈ f.hops ∨ ∃ x ∈ s.reachable home, r ∈ x.path
  have hpaths : ∀ x ∈ s.reachable home, ∀ r ∈ x.path, Q r :=
    fun x hx r hr => Or.inr ⟨x, hx, hr⟩
  have hfirst : ∀ t ∈ steps, Q t.toRelation :=
    foldlM_keeps (P := fun steps => ∀ t ∈ steps, Q t.toRelation)
      (fun hr h hadd => forall_of_addExplicit (Or.inl hr) h hadd) (by simp) hexplicit
  have hsecond : ∀ t ∈ steps', Q t.toRelation :=
    foldlM_keeps (P := fun steps => ∀ t ∈ steps, Q t.toRelation)
      (fun _ h hadd => forall_of_reach hpaths h hadd) hfirst hshortest
  exact hsecond t ((byDepth_spec steps').1.mem_iff.1 ht)

/-- Only one step leads to a table. -/
lemma JoinPlan.Grown.eq_of_target_eq {s : Schema} {steps : List JoinStep}
    (h : Grown s home steps) {t u : JoinStep} (ht : t ∈ steps) (hu : u ∈ steps)
    (htarget : t.target = u.target) : t = u :=
  List.inj_on_of_nodup_map (List.nodup_cons.1 h.nodup).2 ht hu htarget

lemma JoinPlan.Grown.target_ne_home {s : Schema} {steps : List JoinStep} (h : Grown s home steps)
    {t : JoinStep} (ht : t ∈ steps) : t.target ≠ home := by
  rintro rfl
  exact (List.nodup_cons.1 h.nodup).1 (List.mem_map_of_mem ht)

/-! ## Its relations -/

/-- What a plan follows, if each relation of an explicit path has been given a step of its own. -/
lemma mem_relations_iff_of_explicit (hs : s.Closed) (hf : f.Rooted s home)
    (hp : s.plan home f = .ok p) (hexplicit : ∀ r ∈ f.hops, ∃ t ∈ p.steps, t.toRelation = r) :
    r ∈ p.relations ↔ f.Asks s home r := by
  rcases covers_of_rooted hs hf hp with ⟨-, hcovers, hjoined, -⟩
  constructor
  · intro hr
    rcases List.mem_map.1 hr with ⟨t, ht, rfl⟩
    rcases hcovers.shortest t.source t.target ⟨t, ht, rfl, rfl⟩ with
      ⟨r, hr, -, htarget⟩ | ⟨hpin, owner, howner, hopin, path, hpath, -, r, hr, -, htarget⟩
    · rcases hexplicit r hr with ⟨u, hu, rfl⟩
      rw [hcovers.grown.eq_of_target_eq ht hu htarget.symm]
      exact Or.inl hr
    · -- the step is not made from an explicit path, so it is the one relation of shortest paths
      rcases mem_hops_or_path hp ht with hhop | ⟨x, hx, htx⟩
      · exact absurd (List.mem_map_of_mem hhop) hpin
      · have heq : r = t.toRelation := Schema.relation_eq_of_target_eq hpath hx hr htx htarget
        exact Or.inr ⟨hpin, owner, howner, hopin, path, hpath, heq ▸ hr⟩
  · rintro (hr | ⟨hpin, owner, howner, hopin, path, hpath, hr⟩)
    · rcases hexplicit r hr with ⟨t, ht, rfl⟩
      exact List.mem_map_of_mem ht
    · rcases hcovers.edge_of_owner (hjoined owner howner) hopin hpath hr hpin with
        ⟨t, ht, -, htarget⟩
      rcases mem_hops_or_path hp ht with hhop | ⟨x, hx, htx⟩
      · exact absurd (htarget ▸ List.mem_map_of_mem hhop) hpin
      · have heq : r = t.toRelation :=
          Schema.relation_eq_of_target_eq hpath hx hr htx htarget.symm
        exact List.mem_map.2 ⟨t, ht, heq.symm⟩

/-- Without explicit paths, a plan has the relations of the shortest paths to the owners. -/
lemma mem_relations_iff_of_paths_eq_nil (hs : s.Closed) (hpaths : f.paths = [])
    (hp : s.plan home f = .ok p) : r ∈ p.relations ↔
      ∃ owner ∈ f.owners, ∃ path, ⟨owner, path⟩ ∈ s.reachable home ∧ r ∈ path := by
  have hnone := BoundFilter.hops_eq_nil hpaths
  rw [mem_relations_iff_of_explicit hs (BoundFilter.rooted_of_paths_eq_nil hpaths s home) hp
    (by simp [hnone])]
  simp [BoundFilter.Asks, BoundFilter.pinned, hnone]

/-! ## Whether there is a plan -/

section

variable (hs : db.schema.Closed) (hn : db.schema.NamesOnce) (hf : f.Sound db home)
include hs hf

/-- **Paths that do not contradict each other** can be planned. -/
theorem exists_plan (hu : f.Unforked home) : ∃ p, db.schema.plan home f = .ok p := by
  cases hplan : db.schema.plan home f with
  | ok p => exact ⟨p, rfl⟩
  | error x =>
    obtain ⟨fault, hconflict, -⟩ := conflict_of_plan_error hs hf hplan
    exact absurd hconflict hu.not_conflict

include hn

/-- Every relation of an explicit path is followed. -/
lemma exists_toRelation_of_plan (hp : db.schema.plan home f = .ok p) (hr : r ∈ f.hops) :
    ∃ t ∈ p.steps, t.toRelation = r := by
  rcases exists_step_of_plan hp hr with ⟨t, ht, hsource, hname⟩
  rcases List.mem_flatMap.1 hr with ⟨path, hpath, hrpath⟩
  have hr' := (connected_of_leads hs (hf.explicit path hpath).2).2.1 r hrpath
  have ht' := (covers_of_plan hs hf hp).2.1.grown.declared t ht
  rw [hsource] at ht'
  exact ⟨t, ht, hn.eq_of_name_eq ht' hr' hname⟩

/-- A filter that is planned has no paths that contradict each other. -/
lemma unforked_of_plan (hp : db.schema.plan home f = .ok p) : f.Unforked home := by
  have hgrown := (covers_of_plan hs hf hp).2.1.grown
  constructor
  · intro r hr
    rcases exists_toRelation_of_plan hs hn hf hp hr with ⟨t, ht, rfl⟩
    exact hgrown.target_ne_home ht
  · intro q hq r hr htarget
    rcases exists_toRelation_of_plan hs hn hf hp hq with ⟨t, ht, rfl⟩
    rcases exists_toRelation_of_plan hs hn hf hp hr with ⟨u, hu, rfl⟩
    rw [hgrown.eq_of_target_eq ht hu htarget]

/-- **A plan follows what its filter asks for**, and nothing else. -/
theorem mem_relations_iff (hp : db.schema.plan home f = .ok p) :
    r ∈ p.relations ↔ f.Asks db.schema home r :=
  mem_relations_iff_of_explicit hs hf.rooted hp fun _ => exists_toRelation_of_plan hs hn hf hp

/-- **The order of paths and owners is of no importance** for whether there is a plan and for the
relations that it follows. -/
theorem BoundFilter.Alike.exists_plan {f' : BoundFilter} (h : f.Alike f') (hf' : f'.Sound db home)
    (hp : db.schema.plan home f = .ok p) : ∃ p', db.schema.plan home f' = .ok p' ∧ p.Alike p' := by
  obtain ⟨p', hp'⟩ := LinkedTables.exists_plan hs hf' ((unforked_of_plan hs hn hf hp).of_alike h)
  have hhome := (covers_of_plan hs hf hp).1
  have hhome' := (covers_of_plan hs hf' hp').1
  refine ⟨p', hp', hhome.trans hhome'.symm, fun r => ?_⟩
  rw [mem_relations_iff hs hn hf hp, mem_relations_iff hs hn hf' hp', h.asks_iff]

end

end LinkedTables
