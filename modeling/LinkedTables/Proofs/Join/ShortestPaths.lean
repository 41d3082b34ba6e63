import Mathlib
import LinkedTables.Proofs.Join.Relations
import LinkedTables.Proofs.Schema.BreadthFirst

/-!
# Plans without explicit paths

A filter that spells out no path is joined over the paths that the search for tables in reach has
found its owners with (`JoinPlan.OverShortestPaths`).  The paths of several owners are added one
after the other, each without the tables that are there already, and still nothing depends on which
one comes first.

* **Which relations are followed** is `mem_relations_iff_of_paths_eq_nil`.
* **At which depth** is said here.  A step is one level deeper than the step that joins its source,
  whichever owner that one was made for.  As the search has found the source with the part of the
  path in front of the step (`Schema.source_mem_reachable`), the depth of a step is the length of
  the path to its target (`JoinPlan.Grown.length_eq_depth`).

`exists_plan_over_shortest_paths` holds in every schema whose relations are registered, and not only
for filters that have been bound.
-/

namespace LinkedTables

open JoinPlan

variable {s : Schema} {home : TableId} {f : BoundFilter} {p : JoinPlan}

/-! ## Depth -/

/-- A relation on one of the paths that the search has found. -/
def Schema.OnPath (s : Schema) (home : TableId) (r : Relation) : Prop :=
  ∃ x ∈ s.reachable home, r ∈ x.path

/-- **The depth of a step is the length of the path to its target**, if all steps are made from
relations on such paths. -/
lemma JoinPlan.Grown.length_eq_depth (hs : s.Closed) {steps : List JoinStep}
    (h : Grown s home steps) (hpaths : ∀ t ∈ steps, s.OnPath home t.toRelation) :
    ∀ t ∈ steps, ∃ path, ⟨t.target, path⟩ ∈ s.reachable home ∧ path.length = t.depth := by
  intro t ht
  -- the step that joins the source is less deep
  induction hn : t.depth using Nat.strong_induction_on generalizing t with
  | h n ih =>
    obtain ⟨x, hx, hr⟩ := hpaths t ht
    obtain ⟨before, after, hpath⟩ := List.append_of_mem hr
    have hsource : ⟨t.source, before⟩ ∈ s.reachable home := Schema.source_mem_reachable hs hx hpath
    refine ⟨before ++ [t.toRelation], Schema.mem_reachable_of_append hx hpath, ?_⟩
    rw [List.length_append, List.length_singleton]
    rcases h.source t ht with ⟨hhome, hdepth⟩ | ⟨u, hu, hut, hdepth⟩
    · have hbefore : before = [] := congrArg Reached.path
        (Schema.eq_of_mem_reachable hsource (Schema.home_mem_reachable hx) hhome)
      rw [hbefore, List.length_nil, ← hn, hdepth]
    · obtain ⟨path, hmem, hlength⟩ := ih u.depth (by omega) u hu rfl
      have hbefore : before = path := congrArg Reached.path
        (Schema.eq_of_mem_reachable hsource hmem hut.symm)
      rw [hbefore, hlength, ← hn, hdepth]

/-! ## The whole plan -/

/-- A plan brings some tables over the paths that the search has found them with, and brings nothing
else. -/
structure JoinPlan.OverShortestPaths (p : JoinPlan) (s : Schema) (owners : List TableId) :
    Prop where
  mem_iff : ∀ r, r ∈ p.relations ↔
    ∃ owner ∈ owners, ∃ path, ⟨owner, path⟩ ∈ s.reachable p.home ∧ r ∈ path
  once : p.relations.Nodup
  /-- the path that a step ends is as long as the step is deep, and no path is shorter -/
  depth : ∀ t ∈ p.steps, ∃ path, ⟨t.target, path⟩ ∈ s.reachable p.home ∧ path.length = t.depth
    ∧ ∀ path', s.Leads p.home path' t.target → t.depth ≤ path'.length
  sorted : p.steps.Pairwise fun t u => t.depth ≤ u.depth
  /-- every owner is there, joined over a path that is found and is a shortest one -/
  owners : ∀ owner ∈ owners, owner ∈ p.tables ∧ ∃ path, ⟨owner, path⟩ ∈ s.reachable p.home
    ∧ (∀ r ∈ path, r ∈ p.relations) ∧ ∀ path', s.Leads p.home path' owner →
      path.length ≤ path'.length
  nodup : p.tables.Nodup

/-- There is a plan if every owner is in reach. -/
lemma exists_plan_of_reached (hpaths : f.paths = [])
    (howners : ∀ owner ∈ f.owners, owner ∈ (s.reachable home).map Reached.table) :
    ∃ p, s.plan home f = .ok p := by
  have hreached : ∀ owner ∈ f.owners,
      Joined home [] owner ∨ owner ∈ (s.reachable home).map Reached.table :=
    fun owner howner => Or.inr (howners owner howner)
  obtain ⟨steps, hsteps⟩ := exists_foldlM_reach hreached
  refine ⟨⟨home, byDepth steps, s.entries.map Schema.Entry.name⟩, ?_⟩
  simp only [Schema.plan, hpaths, List.flatMap_nil, List.foldlM_nil]
  show (f.owners.foldlM (JoinPlan.reach s home) [] >>= _) = _
  rw [hsteps]
  rfl

/-- **Filters without explicit paths are joined over shortest paths.**  If all owners are in reach
there is a plan, which follows the relations on the paths to the owners, each of them once and as
deep as its target is far from the home table. -/
theorem exists_plan_over_shortest_paths (hs : s.Closed) (hpaths : f.paths = [])
    (howners : ∀ owner ∈ f.owners, owner ∈ (s.reachable home).map Reached.table) :
    ∃ p, s.plan home f = .ok p ∧ p.home = home ∧ p.OverShortestPaths s f.owners := by
  obtain ⟨p, hp⟩ := exists_plan_of_reached hpaths howners
  obtain ⟨rfl, hcovers, hjoined, hsorted⟩ :=
    covers_of_rooted hs (BoundFilter.rooted_of_paths_eq_nil hpaths s home) hp
  have hmem : ∀ r, r ∈ p.relations ↔
      ∃ owner ∈ f.owners, ∃ path, ⟨owner, path⟩ ∈ s.reachable p.home ∧ r ∈ path :=
    fun r => mem_relations_iff_of_paths_eq_nil hs hpaths hp
  have honPath : ∀ t ∈ p.steps, s.OnPath p.home t.toRelation := by
    intro t ht
    obtain ⟨owner, -, path, hpath, hr⟩ := (hmem _).1 (List.mem_map_of_mem ht)
    exact ⟨⟨owner, path⟩, hpath, hr⟩
  have htargets : p.relations.map Relation.target = p.steps.map JoinStep.target := by
    simp [JoinPlan.relations, JoinStep.toRelation]
  refine ⟨p, hp, rfl, hmem, ?_, ?_, hsorted, ?_, hcovers.grown.nodup⟩
  · refine List.Nodup.of_map Relation.target ?_
    rw [htargets]
    exact (List.nodup_cons.1 hcovers.grown.nodup).2
  · intro t ht
    obtain ⟨path, hpath, hlength⟩ := hcovers.grown.length_eq_depth hs honPath t ht
    refine ⟨path, hpath, hlength, fun path' hleads => ?_⟩
    rw [← hlength]
    exact Schema.length_le_of_leads hpath hleads
  · intro owner howner
    obtain ⟨x, hx, rfl⟩ := List.mem_map.1 (howners owner howner)
    exact ⟨joined_iff_mem.1 (hjoined _ howner), x.path, hx,
      fun r hr => (hmem r).2 ⟨_, howner, x.path, hx, hr⟩,
      fun path' => Schema.length_le_of_leads hx⟩

/-- With `y == 1 & x == 2` the path to `o` leads over `b`, and so nothing is added for `b`.  The
table `c` is not joined, although a path over it is as short. -/
theorem exists_plan_over_shortest_paths_crossing :
    ∃ f p, crossing.schema.Closed
      ∧ (crossing.database.bindFilter 0 .strict (.and [.compare ⟨.plain "y", 0⟩ .eq (.integer 1),
          .compare ⟨.plain "x", 9⟩ .eq (.integer 2)])).result = .ok f
      ∧ f.paths = [] ∧ f.owners = [4, 3]
      ∧ (∀ owner ∈ f.owners, owner ∈ (crossing.schema.reachable 0).map Reached.table)
      ∧ crossing.schema.plan 0 f = .ok p ∧ p.home = 0 ∧ p.tables = [0, 1, 3, 4]
      ∧ p.OverShortestPaths crossing.schema f.owners := by
  have h : (crossing.database.bindFilter 0 .strict
        (.and [.compare ⟨.plain "y", 0⟩ .eq (.integer 1),
          .compare ⟨.plain "x", 9⟩ .eq (.integer 2)])).result
        = .ok ⟨.and [.compare ⟨4, "y"⟩ .eq (.integer 1), .compare ⟨3, "x"⟩ .eq (.integer 2)], []⟩
      ∧ BoundFilter.owners
          ⟨.and [.compare ⟨4, "y"⟩ .eq (.integer 1), .compare ⟨3, "x"⟩ .eq (.integer 2)], []⟩
        = [4, 3]
      ∧ (crossing.schema.reachable 0).map Reached.table = [0, 1, 2, 3, 4]
      ∧ crossing.schema.plan 0
          ⟨.and [.compare ⟨4, "y"⟩ .eq (.integer 1), .compare ⟨3, "x"⟩ .eq (.integer 2)], []⟩
        = .ok ⟨0, [⟨0, "a", 1, "k", "k", 1⟩, ⟨1, "b", 3, "k", "k", 2⟩, ⟨3, "o", 4, "k", "k", 3⟩],
          #["h", "a", "c", "b", "o"]⟩ :=
    ⟨by cbv, by cbv, by cbv, by cbv⟩
  obtain ⟨hbound, howners, hreached, hplan⟩ := h
  have hs : crossing.schema.Closed := reachable_crossing.closed.schema
  have hin : ∀ owner ∈ BoundFilter.owners
      ⟨.and [.compare ⟨4, "y"⟩ .eq (.integer 1), .compare ⟨3, "x"⟩ .eq (.integer 2)], []⟩,
      owner ∈ (crossing.schema.reachable 0).map Reached.table := by
    rw [howners, hreached]
    decide
  obtain ⟨p, hp, hhome, hpaths⟩ := exists_plan_over_shortest_paths hs rfl hin
  rw [hplan] at hp
  cases hp
  exact ⟨_, _, hs, hbound, rfl, howners, hin, hplan, rfl, rfl, hpaths⟩

end LinkedTables
