import Mathlib
import LinkedTables.Proofs.Join.Planning

/-!
# Which joins are needed

A join is needed if the table it brings owns a column of the filter, or if a needed join starts from
that table (`Needed`).  Explicit paths only bring needed tables.  A shortest path is added without
the tables that are joined already, but with all others: if an explicit path leads to a table in
the middle of it, **the tables before that one are joined for nothing**, unless another owner
needs them.

`needed_steps_iff` is the exact condition: every table that a shortest path adds has to lie on the
shortest path to an owner, with no table of an explicit path behind it.  `exists_step_not_needed`
is a plan that fails it.
-/

namespace LinkedTables

open JoinPlan

namespace JoinPlan

variable {s : Schema} {home : TableId} {f : BoundFilter} {steps : List JoinStep}

/-- A table that owns a column, or from which a needed table is joined. -/
inductive Needed (steps : List JoinStep) (owners : List TableId) : TableId → Prop
  | owner {id : TableId} : id ∈ owners → Needed steps owners id
  | source {t : JoinStep} : t ∈ steps → Needed steps owners t.target → Needed steps owners t.source

/-! ## Needed tables -/

lemma Needed.owner_or_source {owners : List TableId} {id : TableId}
    (h : Needed steps owners id) : id ∈ owners ∨ ∃ t ∈ steps, t.source = id := by
  cases h with
  | owner howner => exact Or.inl howner
  | source ht _ => exact Or.inr ⟨_, ht, rfl⟩

/-- The tables on a path to an owner are needed if the rest of the path is joined. -/
lemma needed_of_leads (hs : s.Closed) {owner : TableId} (howner : owner ∈ f.owners)
    {after : List Relation} :
    ∀ {before : List Relation} {r : Relation}, s.Leads home (before ++ r :: after) owner →
      (∀ r' ∈ after, Edge steps r'.source r'.target) → Needed steps f.owners r.target := by
  induction after with
  | nil =>
    intro before r hleads _
    rw [← hleads.eq_target rfl]
    exact .owner howner
  | cons r' rest ih =>
    intro before r hleads hedges
    rw [List.append_cons] at hleads
    have hneeded : Needed steps f.owners r'.target :=
      ih hleads fun r'' hr'' => hedges r'' (List.mem_cons_of_mem r' hr'')
    have hsource : r'.source = r.target := (hleads.source hs rfl).eq_target rfl
    rcases hedges r' (by simp) with ⟨t, ht, hts, htt⟩
    rw [← hsource, ← hts]
    exact .source ht (htt ▸ hneeded)

/-- An explicit path ends at an owner, so its tables are needed. -/
lemma needed_of_explicit {db : Database} (hs : db.schema.Closed) (hf : f.Sound db home)
    (h : Covers db.schema home f steps) {r : Relation} (hr : r ∈ f.hops) :
    Needed steps f.owners r.target := by
  rcases List.mem_flatMap.1 hr with ⟨p, hp, hrp⟩
  rcases List.append_of_mem hrp with ⟨before, after, hpath⟩
  rcases hf.explicit p hp with ⟨howner, hleads⟩
  rw [hpath] at hleads
  refine needed_of_leads hs howner hleads ?_
  intro r' hr'
  exact h.explicit r' (List.mem_flatMap.2 ⟨p, hp, by simp [hpath, hr']⟩)

/-- A relation on the shortest path to an owner is on a path all of whose tables are joined. -/
lemma Covers.joined_of_owner (h : Covers s home f steps) {owner : TableId}
    (howner : Joined home steps owner) (hpin : owner ∉ f.pinned) {path : List Relation}
    (hpath : ⟨owner, path⟩ ∈ s.reachable home) {r : Relation} (hr : r ∈ path) :
    Joined home steps r.target := by
  rcases joined_iff.1 howner with rfl | ⟨source, hedge⟩
  · have heq := Schema.eq_of_mem_reachable hpath (Schema.home_mem_reachable hpath) rfl
    simp only [Reached.mk.injEq, true_and] at heq
    simp [heq] at hr
  · rcases h.shortest source owner hedge with
      ⟨r', hr', -, rfl⟩ | ⟨-, o, -, -, path', hpath', hall, r', hr', -, hend⟩
    · exact absurd (List.mem_map_of_mem hr') hpin
    · -- the path to the owner is the beginning of a path that was added as a whole
      rcases List.append_of_mem hr' with ⟨before, after, hsplit⟩
      have hsplit' := Schema.mem_reachable_of_append hpath' hsplit
      have heq := Schema.eq_of_mem_reachable hpath hsplit' hend.symm
      simp only [Reached.mk.injEq] at heq
      refine hall r ?_
      rw [hsplit, List.append_cons, ← heq.2]
      exact List.mem_append_left _ hr

/-- The shortest path to an owner is joined, but for what explicit paths lead to. -/
lemma Covers.edge_of_owner (h : Covers s home f steps) {owner : TableId}
    (howner : Joined home steps owner) (hpin : owner ∉ f.pinned) {path : List Relation}
    (hpath : ⟨owner, path⟩ ∈ s.reachable home) {r : Relation} (hr : r ∈ path)
    (hrpin : r.target ∉ f.pinned) : Edge steps r.source r.target := by
  have hne : r.target ≠ home := Schema.target_ne_home hpath hr
  rcases joined_iff.1 (h.joined_of_owner howner hpin hpath hr) with hhome | ⟨source, hedge⟩
  · exact absurd hhome hne
  · rcases h.shortest source r.target hedge with
      ⟨r', hr', -, heq⟩ | ⟨-, o, -, -, path', hpath', -, r', hr', rfl, heq⟩
    · exact absurd (heq ▸ List.mem_map_of_mem hr') hrpin
    · rw [Schema.relation_eq_of_target_eq hpath hpath' hr hr' heq.symm, heq]
      exact hedge

/-! ## The exact condition -/

/-- Every table that a shortest path adds is on the shortest path to an owner, and no explicit path
leads to a table behind it there. -/
def Straight (s : Schema) (home : TableId) (f : BoundFilter) : Prop :=
  ∀ owner ∈ f.owners, owner ∉ f.pinned → ∀ path, ⟨owner, path⟩ ∈ s.reachable home →
    ∀ r ∈ path, r.target ∉ f.pinned →
      ∃ owner' ∈ f.owners, ∃ before after, ⟨owner', before ++ r :: after⟩ ∈ s.reachable home
        ∧ ∀ r' ∈ after, r'.target ∉ f.pinned

/-- A relation of an explicit path starts at the home table or where an explicit path leads. -/
lemma source_of_explicit {db : Database} (hs : db.schema.Closed) (hf : f.Sound db home)
    {r : Relation} (hr : r ∈ f.hops) : r.source = home ∨ r.source ∈ f.pinned := by
  rcases List.mem_flatMap.1 hr with ⟨p, hp, hrp⟩
  rcases List.append_of_mem hrp with ⟨before, after, hpath⟩
  have hleads := (hf.explicit p hp).2.source hs hpath
  rcases (connected_of_leads hs hleads).2.2 with hhome | ⟨r', hr', heq⟩
  · exact Or.inl hhome
  · refine Or.inr (List.mem_map.2 ⟨r', List.mem_flatMap.2 ⟨p, hp, ?_⟩, heq⟩)
    rw [hpath]
    exact List.mem_append_left _ hr'

/-- A needed table that a shortest path adds is on the way to an owner that no explicit path cuts
short. -/
lemma straight_of_needed {db : Database} (hs : db.schema.Closed) (hf : f.Sound db home)
    (h : Covers db.schema home f steps) {id : TableId} (hneeded : Needed steps f.owners id) :
    id ∉ f.pinned → ∀ {owner : TableId} {path : List Relation},
      ⟨owner, path⟩ ∈ db.schema.reachable home → ∀ r ∈ path, r.target = id →
        ∃ owner' ∈ f.owners, ∃ before after,
          ⟨owner', before ++ r :: after⟩ ∈ db.schema.reachable home
            ∧ ∀ r' ∈ after, r'.target ∉ f.pinned := by
  induction hneeded with
  | owner howner =>
    rintro - owner path hpath r hr rfl
    rcases List.append_of_mem hr with ⟨before, after, hsplit⟩
    exact ⟨r.target, howner, before, [], Schema.mem_reachable_of_append hpath hsplit, by simp⟩
  | @source t ht _ ih =>
    rintro hpin owner path hpath r hr hrt
    have hne : r.target ≠ home := Schema.target_ne_home hpath hr
    rcases h.shortest t.source t.target ⟨t, ht, rfl, rfl⟩ with
      ⟨r', hr', hsource, -⟩ | ⟨htpin, o, -, -, path', hpath', -, r', hr', hsource, htarget⟩
    · -- an explicit step does not start at a table that a shortest path adds
      rcases source_of_explicit hs hf hr' with hhome | hrpin
      · exact absurd (hrt.trans (hsource.symm.trans hhome)) hne
      · exact absurd (hsource ▸ hrpin) hpin
    · rcases ih htpin hpath' r' hr' htarget with ⟨owner', howner', before, after, hway, hafter⟩
      have hleads := (Schema.leads_of_mem_reachable hway).source hs rfl
      rw [hsource, ← hrt] at hleads
      rcases List.eq_nil_or_concat before with rfl | ⟨before', last, rfl⟩
      · exact absurd (Database.endOf_eq hleads).symm hne
      · rw [List.concat_eq_append] at hleads hway
        have hlast : last = r :=
          Schema.relation_eq_of_target_eq hway hpath (by simp) hr (hleads.eq_target rfl).symm
        rw [List.append_assoc, List.singleton_append, hlast] at hway
        refine ⟨owner', howner', before', r' :: after, hway, ?_⟩
        intro r'' hr''
        rcases List.mem_cons.1 hr'' with rfl | hr''
        · rwa [htarget]
        · exact hafter r'' hr''

end JoinPlan

variable {c : Catalog} {home : TableId} {rule : UnqualifiedRule} {e : Expr Reference}
  {f : BoundFilter} {p : JoinPlan}

/-- **All joins of a plan are needed** exactly if every table that a shortest path adds leads on to
an owner that no explicit path cuts short. -/
theorem needed_steps_iff (hc : c.Reachable)
    (hf : (c.database.bindFilter home rule e).result = .ok f)
    (hp : c.schema.plan home f = .ok p) :
    (∀ t ∈ p.steps, Needed p.steps f.owners t.target) ↔ Straight c.schema home f := by
  have hs : c.database.schema.Closed := hc.closed.schema
  have hsound := (Database.bindFilter_sound hf).2
  rcases covers_of_plan hs hsound hp with ⟨-, hcovers, hjoined, -⟩
  constructor
  · intro hneeded owner howner hpin path hpath r hr hrpin
    rcases hcovers.edge_of_owner (hjoined owner howner) hpin hpath hr hrpin with ⟨t, ht, -, htr⟩
    have hr' : Needed p.steps f.owners r.target := htr ▸ hneeded t ht
    exact straight_of_needed hs hsound hcovers hr' hrpin hpath r hr rfl
  · intro hstraight t ht
    rcases hcovers.shortest t.source t.target ⟨t, ht, rfl, rfl⟩ with
      ⟨r, hr, -, htarget⟩ | ⟨hpin, owner, howner, hopin, path, hpath, -, r, hr, -, htarget⟩
    · rw [← htarget]
      exact needed_of_explicit hs hsound hcovers hr
    · rw [← htarget] at hpin ⊢
      rcases hstraight owner howner hopin path hpath r hr hpin with
        ⟨owner', howner', before, after, hway, hafter⟩
      have hleads : c.schema.Leads home (before ++ r :: after) owner' :=
        Schema.leads_of_mem_reachable hway
      -- no explicit path leads to the owner at the end, as it leads to nothing behind `r`
      have hopin' : owner' ∉ f.pinned := by
        rcases List.eq_nil_or_concat after with rfl | ⟨after', last, rfl⟩
        · rwa [hleads.eq_target rfl]
        · have hend : owner' = last.target := hleads.eq_target
            (show before ++ r :: after'.concat last = (before ++ r :: after') ++ [last] by simp)
          rw [hend]
          exact hafter last (by simp)
      refine needed_of_leads hs howner' hleads ?_
      intro r' hr'
      exact hcovers.edge_of_owner (hjoined owner' howner') hopin' hway (by simp [hr'])
        (hafter r' hr')

/-! ## A join for nothing -/

/-- A table without rows whose key column is `k`. -/
def keyed (columns : List String) : Table := ⟨("k" :: columns).map fun name => ⟨name, #[]⟩, #[]⟩

/-- Two ways of the same length lead from `h` to `b`, over `a` and over `c`, and `o` lies behind
`b`. -/
def crossing : Catalog :=
  Catalog.empty .standard
    |>.withTable "h" (keyed [])
    |>.withTable "a" (keyed [])
    |>.withTable "c" (keyed [])
    |>.withTable "b" (keyed ["x"])
    |>.withTable "o" (keyed ["y"])
    |>.withRelation ⟨0, "a", 1, "k", "k"⟩
    |>.withRelation ⟨0, "c", 2, "k", "k"⟩
    |>.withRelation ⟨1, "b", 3, "k", "k"⟩
    |>.withRelation ⟨2, "b", 3, "k", "k"⟩
    |>.withRelation ⟨3, "o", 4, "k", "k"⟩

lemma reachable_crossing : crossing.Reachable := by
  refine .withRelation (.withRelation (.withRelation (.withRelation (.withRelation ?_ _) _) _) _) _
  refine .withTable (.withTable (.withTable (.withTable (.withTable ?_ _ _) _ _) _ _) _ _) _ _
  exact .empty _

/-- A filter on `o` alone is joined over `a`, and all joins are needed. -/
theorem needed_steps_iff_crossing :
    ∃ f p, crossing.Reachable
      ∧ (crossing.database.bindFilter 0 .preferHome
        (.compare ⟨.plain "y", 0⟩ .eq (.integer 1))).result = .ok f
      ∧ crossing.schema.plan 0 f = .ok p
      ∧ ((∀ t ∈ p.steps, Needed p.steps f.owners t.target) ↔ Straight crossing.schema 0 f) := by
  have h : (crossing.database.bindFilter 0 .preferHome
        (.compare ⟨.plain "y", 0⟩ .eq (.integer 1))).result
        = .ok ⟨.compare ⟨4, "y"⟩ .eq (.integer 1), []⟩
      ∧ crossing.schema.plan 0 ⟨.compare ⟨4, "y"⟩ .eq (.integer 1), []⟩
        = .ok ⟨0, [⟨0, "a", 1, "k", "k", 1⟩, ⟨1, "b", 3, "k", "k", 2⟩, ⟨3, "o", 4, "k", "k", 3⟩],
          #["h", "a", "c", "b", "o"]⟩ :=
    ⟨by cbv, by cbv⟩
  exact ⟨_, _, reachable_crossing, h.1, h.2, needed_steps_iff reachable_crossing h.1 h.2⟩

/-- With `c.b.x == 1 & y == 1` the table `b` is joined over `c`, as it is written, and `o` from
there; but the shortest path to `o` leads over `a`, and `a` is joined as well. -/
theorem exists_step_not_needed :
    ∃ (c : Catalog) (e : Expr Reference) (f : BoundFilter) (p : JoinPlan), c.Reachable
      ∧ (c.database.bindFilter 0 c.settings.unqualified e).result = .ok f
      ∧ c.schema.plan 0 f = .ok p
      ∧ ∃ t ∈ p.steps, ¬ Needed p.steps f.owners t.target := by
  have h : (crossing.database.bindFilter 0 crossing.settings.unqualified
        (.and [.compare ⟨.path ["c", "b"] "x", 0⟩ .eq (.integer 1),
          .compare ⟨.plain "y", 13⟩ .eq (.integer 1)])).result
        = .ok ⟨.and [.compare ⟨3, "x"⟩ .eq (.integer 1), .compare ⟨4, "y"⟩ .eq (.integer 1)],
          [⟨3, [⟨0, "c", 2, "k", "k"⟩, ⟨2, "b", 3, "k", "k"⟩]⟩]⟩
      ∧ crossing.schema.plan 0
          ⟨.and [.compare ⟨3, "x"⟩ .eq (.integer 1), .compare ⟨4, "y"⟩ .eq (.integer 1)],
            [⟨3, [⟨0, "c", 2, "k", "k"⟩, ⟨2, "b", 3, "k", "k"⟩]⟩]⟩
        = .ok ⟨0, [⟨0, "c", 2, "k", "k", 1⟩, ⟨0, "a", 1, "k", "k", 1⟩, ⟨2, "b", 3, "k", "k", 2⟩,
            ⟨3, "o", 4, "k", "k", 3⟩], #["h", "a", "c", "b", "o"]⟩ :=
    ⟨by cbv, by cbv⟩
  refine ⟨_, _, _, _, reachable_crossing, h.1, h.2, ⟨0, "a", 1, "k", "k", 1⟩, by simp, ?_⟩
  -- the table `a` owns no column, and nothing is joined from it
  intro hneeded
  rcases hneeded.owner_or_source with howner | hsource
  · simp [BoundFilter.mem_owners] at howner
  · simp at hsource

end LinkedTables
