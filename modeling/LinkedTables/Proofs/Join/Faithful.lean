import Mathlib
import LinkedTables.Proofs.Join.Minimality

/-!
# Plans do what is written

A plan is faithful to a schema and a filter (`JoinPlan.Faithful`) if each of its steps is a declared
relation with the columns it was declared with, the steps stand in an order in which they can be
carried out, and nothing that the filter asks for is left out: every owner is joined, and every
relation of an explicit path is a step.

What `JoinPlan.Grown` does not say is that last part, as it forgets which relation a step was made
from.  Two facts bring it back.

* **Steps stay.**  Neither phase of planning takes a step away (`exists_step_of_addExplicit`,
  `subset_of_reach`), so the step that an explicit relation is given is there in the end.
* **Names tell relations apart.**  A relation that finds its table joined is not looked at beyond
  its source and its name; in a catalog that calls lead to, it is the same relation then.
-/

namespace LinkedTables

open JoinPlan

/-- The steps follow declared relations in an order in which they can be carried out, and bring all
that the filter asks for. -/
structure JoinPlan.Faithful (p : JoinPlan) (s : Schema) (f : BoundFilter) : Prop where
  declared : ∀ t ∈ p.steps, t.toRelation ∈ s.relationsOf t.source
  /-- a step starts at the home table, or where an earlier step one level less deep has led -/
  source : ∀ before t after, p.steps = before ++ t :: after →
    (t.source = p.home ∧ t.depth = 1) ∨
      ∃ u ∈ before, u.target = t.source ∧ t.depth = u.depth + 1
  nodup : p.tables.Nodup
  sorted : p.steps.Pairwise fun t u => t.depth ≤ u.depth
  owners : ∀ id ∈ f.owners, id ∈ p.tables
  explicit : ∀ path ∈ f.paths, ∀ r ∈ path.path, ∃ t ∈ p.steps, t.toRelation = r

namespace JoinPlan

variable {s : Schema} {home : TableId} {steps steps' : List JoinStep}

/-! ## Steps stay -/

/-- An explicit relation is given a step, or has one of its source and name already. -/
lemma exists_step_of_addExplicit {r : Relation} (h : addExplicit s home steps r = .ok steps') :
    steps ⊆ steps' ∧ ∃ t ∈ steps', t.source = r.source ∧ t.relation = r.name := by
  simp only [addExplicit] at h
  split_ifs at h
  split at h
  · cases h
    exact ⟨List.subset_append_left steps _, _, List.mem_append_right steps
      (List.mem_singleton_self _), rfl, rfl⟩
  · rename_i t hstep
    split_ifs at h with hsame
    cases h
    exact ⟨List.Subset.refl steps, t, (stepTo?_eq_some hstep).1, hsame⟩

lemma subset_extend (path : List Relation) : steps ⊆ extend home steps path := by
  induction path generalizing steps with
  | nil => exact List.Subset.refl steps
  | cons r rest ih =>
    have hfirst : steps ⊆ if joins home steps r.target then steps else follow home steps r := by
      split_ifs
      · exact List.Subset.refl steps
      · exact List.subset_append_left steps _
    exact List.Subset.trans hfirst ih

lemma subset_of_reach {owner : TableId} (h : JoinPlan.reach s home steps owner = .ok steps') :
    steps ⊆ steps' := by
  simp only [JoinPlan.reach] at h
  split_ifs at h
  · cases h
    exact List.Subset.refl steps
  · split at h
    · cases h
      exact subset_extend _
    · cases h

end JoinPlan

/-! ## The whole plan -/

/-- Every relation of an explicit path has a step of its source and name. -/
lemma exists_step_of_plan {s : Schema} {home : TableId} {f : BoundFilter} {p : JoinPlan}
    (h : s.plan home f = .ok p) {r : Relation} (hr : r ∈ f.hops) :
    ∃ t ∈ p.steps, t.source = r.source ∧ t.relation = r.name := by
  rcases plan_eq_ok h with ⟨steps, steps', hexplicit, hshortest, rfl⟩
  rcases exists_of_mem_foldlM hexplicit hr with ⟨before, after, rest, hadd, hrest⟩
  rcases (exists_step_of_addExplicit hadd).2 with ⟨t, ht, hsame⟩
  -- no step behind it takes it away
  have hfirst : t ∈ steps :=
    foldlM_keeps (fun _ ht hadd => (exists_step_of_addExplicit hadd).1 ht) ht hrest
  have hsecond : t ∈ steps' :=
    foldlM_keeps (fun _ ht hadd => subset_of_reach hadd ht) hfirst hshortest
  exact ⟨t, (byDepth_spec steps').1.mem_iff.2 hsecond, hsame⟩

variable {c : Catalog} {home : TableId} {rule : UnqualifiedRule} {e : Expr Reference}
  {f : BoundFilter} {p : JoinPlan}

/-- **A plan is faithful**: it starts from the home table of the filter, follows declared relations
in an order in which they can be carried out, and brings all that the filter asks for. -/
theorem faithful_of_plan (hc : c.Reachable)
    (hf : (c.database.bindFilter home rule e).result = .ok f)
    (hp : c.schema.plan home f = .ok p) : p.home = home ∧ p.Faithful c.schema f := by
  have hs : c.database.schema.Closed := hc.closed.schema
  have hsound := (Database.bindFilter_sound hf).2
  rcases covers_of_plan hs hsound hp with ⟨rfl, hcovers, hjoined, hsorted⟩
  refine ⟨rfl, hcovers.grown.declared, ?_, hcovers.grown.nodup, hsorted, ?_, ?_⟩
  · intro before t after hsteps
    exact hcovers.grown.source_of_append hsorted hsteps
  · intro id hid
    rcases hjoined id hid with hhome | ⟨t, ht, htarget⟩
    · exact List.mem_cons.2 (Or.inl hhome)
    · exact List.mem_cons_of_mem _ (List.mem_map.2 ⟨t, ht, htarget⟩)
  · intro path hpath r hr
    have hdeclared := (connected_of_leads hs (hsound.explicit path hpath).2).2.1 r hr
    rcases exists_step_of_plan hp (List.mem_flatMap.2 ⟨path, hpath, hr⟩) with
      ⟨t, ht, hsource, hname⟩
    have ht' : t.toRelation ∈ c.schema.relationsOf r.source :=
      hsource ▸ hcovers.grown.declared t ht
    exact ⟨t, ht, hc.closed.names.eq_of_name_eq ht' hdeclared hname⟩

/-- With `a.b.x == 1 | a.k == 2 | y == 3` the two explicit paths share the step to `a`, and the
shortest path to `o` adds the one step that is missing behind `b`. -/
theorem faithful_of_plan_crossing :
    ∃ f p, crossing.Reachable
      ∧ (crossing.database.bindFilter 0 .strict
        (.or [.compare ⟨.path ["a", "b"] "x", 0⟩ .eq (.integer 1),
          .compare ⟨.path ["a"] "k", 13⟩ .eq (.integer 2),
          .compare ⟨.plain "y", 24⟩ .eq (.integer 3)])).result = .ok f
      ∧ crossing.schema.plan 0 f = .ok p
      ∧ p.home = 0 ∧ p.Faithful crossing.schema f := by
  have hbound : (crossing.database.bindFilter 0 .strict
      (.or [.compare ⟨.path ["a", "b"] "x", 0⟩ .eq (.integer 1),
        .compare ⟨.path ["a"] "k", 13⟩ .eq (.integer 2),
        .compare ⟨.plain "y", 24⟩ .eq (.integer 3)])).result
      = .ok ⟨.or [.compare ⟨3, "x"⟩ .eq (.integer 1), .compare ⟨1, "k"⟩ .eq (.integer 2),
            .compare ⟨4, "y"⟩ .eq (.integer 3)],
          [⟨3, [⟨0, "a", 1, "k", "k"⟩, ⟨1, "b", 3, "k", "k"⟩]⟩, ⟨1, [⟨0, "a", 1, "k", "k"⟩]⟩]⟩ := by
    cbv
  have hplan : crossing.schema.plan 0
      ⟨.or [.compare ⟨3, "x"⟩ .eq (.integer 1), .compare ⟨1, "k"⟩ .eq (.integer 2),
          .compare ⟨4, "y"⟩ .eq (.integer 3)],
        [⟨3, [⟨0, "a", 1, "k", "k"⟩, ⟨1, "b", 3, "k", "k"⟩]⟩, ⟨1, [⟨0, "a", 1, "k", "k"⟩]⟩]⟩
      = .ok ⟨0, [⟨0, "a", 1, "k", "k", 1⟩, ⟨1, "b", 3, "k", "k", 2⟩, ⟨3, "o", 4, "k", "k", 3⟩],
          #["h", "a", "c", "b", "o"]⟩ := by
    cbv
  exact ⟨_, _, reachable_crossing, hbound, hplan,
    faithful_of_plan reachable_crossing hbound hplan⟩

end LinkedTables
