import Mathlib
import LinkedTables.Join.Planning
import LinkedTables.Proofs.Filter.Binding

/-!
# Plans can be carried out

A plan is put together in two phases, explicit paths first and shortest paths behind them, and is
sorted in the end.  Three things are carried along.

**Growth.**  `Grown` is the invariant of the steps gathered so far: no table is joined twice, the
home table not at all, every step follows a declared relation, and it starts at the home table or
at a table joined one level less deep.  It does not speak of the order of the steps, so sorting
keeps it, and sorted by depth the steps can be carried out one after the other
(`JoinPlan.Runnable`).

**Edges.**  `Edge` forgets of a step all but the tables that it joins.  Each phase says exactly
which edges it adds.

**Connection.**  `Connected` holds of relations each of which starts where one before it ends, or
at a table known before.  All that is added to a plan is connected to it.
-/

namespace LinkedTables

/-- The relations of the explicit paths. -/
def BoundFilter.hops (f : BoundFilter) : List Relation := f.paths.flatMap ExplicitPath.path

/-- The tables that explicit paths lead to or over. -/
def BoundFilter.pinned (f : BoundFilter) : List TableId := f.hops.map Relation.target

lemma BoundFilter.hops_eq_nil {f : BoundFilter} (hf : f.paths = []) : f.hops = [] := by
  rw [hops, hf, List.flatMap_nil]

/-- The explicit paths start at the home table and follow declared relations, as those of a filter
do that has been bound. -/
def BoundFilter.Rooted (f : BoundFilter) (s : Schema) (home : TableId) : Prop :=
  ∀ x ∈ f.paths, s.Leads home x.path x.table

lemma BoundFilter.rooted_of_paths_eq_nil {f : BoundFilter} (hf : f.paths = []) (s : Schema)
    (home : TableId) : f.Rooted s home := by
  simp [Rooted, hf]

lemma BoundFilter.Sound.rooted {db : Database} {home : TableId} {f : BoundFilter}
    (hf : f.Sound db home) : f.Rooted db.schema home := fun x hx => (hf.explicit x hx).2

lemma Database.rooted_of_bindFilter {db : Database} {home : TableId} {rule : UnqualifiedRule}
    {e : Expr Reference} {f : BoundFilter} (h : (db.bindFilter home rule e).result = .ok f) :
    f.Rooted db.schema home := (bindFilter_sound h).2.rooted

/-- The relation that a step follows. -/
def JoinStep.toRelation (t : JoinStep) : Relation :=
  ⟨t.source, t.relation, t.target, t.onLeft, t.onRight⟩

namespace JoinPlan

variable {s : Schema} {home : TableId} {steps steps' : List JoinStep}

/-! ## Steps gathered so far -/

/-- A table is the home table or joined by one of the steps. -/
def Joined (home : TableId) (steps : List JoinStep) (id : TableId) : Prop :=
  id = home ∨ ∃ t ∈ steps, t.target = id

/-- One of the steps joins a table to another. -/
def Edge (steps : List JoinStep) (source target : TableId) : Prop :=
  ∃ t ∈ steps, t.source = source ∧ t.target = target

lemma joined_iff_mem {id : TableId} :
    Joined home steps id ↔ id ∈ home :: steps.map JoinStep.target := by
  simp [Joined]

lemma stepTo?_eq_none {id : TableId} : stepTo? steps id = none ↔ ∀ t ∈ steps, t.target ≠ id := by
  simp [stepTo?]

lemma stepTo?_eq_some {id : TableId} {t : JoinStep} (h : stepTo? steps id = some t) :
    t ∈ steps ∧ t.target = id := by
  simp only [stepTo?] at h
  exact ⟨List.mem_of_find?_eq_some h, by simpa using List.find?_some h⟩

lemma not_joined {id : TableId} (hhome : id ≠ home) (hstep : stepTo? steps id = none) :
    ¬ Joined home steps id := by
  rintro (heq | ⟨t, ht, heq⟩)
  · exact hhome heq
  · exact stepTo?_eq_none.1 hstep t ht heq

lemma joins_eq_true_iff {id : TableId} : joins home steps id = true ↔ Joined home steps id := by
  simp [joins, Joined, stepTo?]

/-- What holds of the steps while a plan is put together. -/
structure Grown (s : Schema) (home : TableId) (steps : List JoinStep) : Prop where
  nodup : (home :: steps.map JoinStep.target).Nodup
  source : ∀ t ∈ steps, (t.source = home ∧ t.depth = 1) ∨
    ∃ u ∈ steps, u.target = t.source ∧ t.depth = u.depth + 1
  declared : ∀ t ∈ steps, t.toRelation ∈ s.relationsOf t.source

lemma grown_nil : Grown s home [] := by
  constructor <;> simp

/-- A step to a table that is not joined yet joins no table twice. -/
lemma nodup_follow (h : (home :: steps.map JoinStep.target).Nodup) {r : Relation}
    (htarget : ¬ Joined home steps r.target) :
    (home :: (JoinPlan.follow home steps r).map JoinStep.target).Nodup := by
  simp only [Joined, not_or, not_exists, not_and] at htarget
  simp only [JoinPlan.follow, List.map_append, List.map_cons, List.map_nil]
  rw [← List.cons_append, List.nodup_append]
  refine ⟨h, by simp, ?_⟩
  intro id hid id' hid' heq
  rw [List.mem_singleton.1 hid'] at heq
  rcases List.mem_cons.1 hid with rfl | hid
  · exact htarget.1 heq.symm
  · rcases List.mem_map.1 hid with ⟨t, ht, rfl⟩
    exact htarget.2 t ht heq

/-- A step to a table that is not joined yet, from one that is. -/
lemma Grown.follow (h : Grown s home steps) {r : Relation} (hsource : Joined home steps r.source)
    (htarget : ¬ Joined home steps r.target) (hr : r ∈ s.relationsOf r.source) :
    Grown s home (JoinPlan.follow home steps r) := by
  constructor
  · exact nodup_follow h.nodup htarget
  · intro t ht
    rcases List.mem_append.1 ht with ht | ht
    · rcases h.source t ht with hhome | ⟨u, hu, hut⟩
      · exact Or.inl hhome
      · exact Or.inr ⟨u, List.mem_append_left _ hu, hut⟩
    · rw [List.mem_singleton.1 ht]
      by_cases hhome : r.source = home
      · exact Or.inl ⟨hhome, by simp [depthOf, hhome]⟩
      · rcases hsource.resolve_left hhome with ⟨u, hu, hur⟩
        -- the depth is counted from the step that the look-up finds
        cases hstep : stepTo? steps r.source with
        | none => exact absurd hur (stepTo?_eq_none.1 hstep u hu)
        | some v =>
          rcases stepTo?_eq_some hstep with ⟨hv, hvr⟩
          refine Or.inr ⟨v, List.mem_append_left _ hv, hvr, ?_⟩
          simp [depthOf, hhome, hstep]
  · intro t ht
    rcases List.mem_append.1 ht with ht | ht
    · exact h.declared t ht
    · rw [List.mem_singleton.1 ht]
      exact hr

lemma edge_follow {r : Relation} {source target : TableId} :
    Edge (follow home steps r) source target
      ↔ Edge steps source target ∨ (r.source = source ∧ r.target = target) := by
  simp [Edge, follow, or_and_right, exists_or]

lemma Edge.joined {source target : TableId} (h : Edge steps source target) :
    Joined home steps target := by
  rcases h with ⟨t, ht, -, htarget⟩
  exact Or.inr ⟨t, ht, htarget⟩

lemma joined_iff {id : TableId} :
    Joined home steps id ↔ id = home ∨ ∃ source, Edge steps source id := by
  simp only [Joined, Edge]
  constructor
  · rintro (h | ⟨t, ht, rfl⟩)
    · exact Or.inl h
    · exact Or.inr ⟨t.source, t, ht, rfl, rfl⟩
  · rintro (h | ⟨source, t, ht, -, htarget⟩)
    · exact Or.inl h
    · exact Or.inr ⟨t, ht, htarget⟩

/-! ## Connection -/

/-- Each of the relations starts at a known table or where one before it ends. -/
def Connected (known : TableId → Prop) : List Relation → Prop
  | [] => True
  | r :: rest => known r.source ∧ Connected (fun id => known id ∨ id = r.target) rest

lemma Connected.mono {hops : List Relation} :
    ∀ {known known' : TableId → Prop}, (∀ id, known id → known' id) → Connected known hops →
      Connected known' hops := by
  induction hops with
  | nil =>
    intro known known' _ _
    trivial
  | cons r rest ih =>
    rintro known known' hknown ⟨hsource, hrest⟩
    exact ⟨hknown _ hsource, ih (fun id => Or.imp_left (hknown id)) hrest⟩

lemma Connected.append {hops hops' : List Relation} :
    ∀ {known : TableId → Prop}, Connected known hops →
      Connected (fun id => known id ∨ ∃ r ∈ hops, r.target = id) hops' →
      Connected known (hops ++ hops') := by
  induction hops with
  | nil =>
    intro known _ h'
    exact h'.mono (by simp)
  | cons r rest ih =>
    rintro known ⟨hsource, hrest⟩ h'
    refine ⟨hsource, ih hrest (h'.mono ?_)⟩
    rintro id (h | ⟨r', hr', rfl⟩)
    · exact Or.inl (Or.inl h)
    · rcases List.mem_cons.1 hr' with rfl | hr'
      · exact Or.inl (Or.inr rfl)
      · exact Or.inr ⟨r', hr', rfl⟩

lemma Connected.flatMap {α : Type} {hops : α → List Relation} {as : List α} :
    ∀ {known : TableId → Prop}, (∀ a ∈ as, Connected known (hops a)) →
      Connected known (as.flatMap hops) := by
  induction as with
  | nil =>
    intro known _
    trivial
  | cons a as ih =>
    intro known h
    rw [List.flatMap_cons]
    refine (h a (by simp)).append (ih ?_)
    intro b hb
    exact (h b (List.mem_cons_of_mem a hb)).mono fun id => Or.inl

/-- A path is connected to the home table, is declared, and joins the table it leads to. -/
lemma connected_of_leads (hs : s.Closed) {path : List Relation} {id : TableId}
    (h : s.Leads home path id) :
    Connected (fun id => id = home) path ∧ (∀ r ∈ path, r ∈ s.relationsOf r.source)
      ∧ (id = home ∨ ∃ r ∈ path, r.target = id) := by
  induction h with
  | nil => exact ⟨trivial, by simp, Or.inl rfl⟩
  | @snoc path id r _ hr ih =>
    rcases ih with ⟨hconnected, hdeclared, hend⟩
    have hsource := (hs id r hr).1
    refine ⟨hconnected.append ⟨?_, trivial⟩, ?_, Or.inr ⟨r, by simp, rfl⟩⟩
    · rwa [hsource]
    · intro r' hr'
      rcases List.mem_append.1 hr' with hr' | hr'
      · exact hdeclared r' hr'
      · rw [List.mem_singleton.1 hr', hsource]
        exact hr

/-! ## Explicit paths -/

/-- One relation of an explicit path adds its edge. -/
lemma Grown.addExplicit (h : Grown s home steps) {r : Relation}
    (hsource : Joined home steps r.source) (hr : r ∈ s.relationsOf r.source)
    (hadd : JoinPlan.addExplicit s home steps r = .ok steps') :
    Grown s home steps' ∧ ∀ source target, Edge steps' source target
      ↔ Edge steps source target ∨ (r.source = source ∧ r.target = target) := by
  simp only [JoinPlan.addExplicit] at hadd
  split_ifs at hadd with hhome
  split at hadd
  · rename_i hstep
    cases hadd
    exact ⟨h.follow hsource (not_joined hhome hstep) hr, fun source target => edge_follow⟩
  · rename_i t hstep
    split_ifs at hadd with hsame
    cases hadd
    rcases stepTo?_eq_some hstep with ⟨ht, htarget⟩
    refine ⟨h, fun source target => ⟨Or.inl, ?_⟩⟩
    rintro (hedge | ⟨rfl, rfl⟩)
    · exact hedge
    · exact ⟨t, ht, hsame.1, htarget⟩

/-- **The first phase** adds the edges of the explicit paths. -/
lemma Grown.foldlM_addExplicit {hops : List Relation} :
    ∀ {steps steps' : List JoinStep}, Grown s home steps →
      Connected (Joined home steps) hops → (∀ r ∈ hops, r ∈ s.relationsOf r.source) →
      hops.foldlM (JoinPlan.addExplicit s home) steps = .ok steps' →
      Grown s home steps' ∧ ∀ source target, Edge steps' source target
        ↔ Edge steps source target ∨ ∃ r ∈ hops, r.source = source ∧ r.target = target := by
  induction hops with
  | nil =>
    intro steps steps' h _ _ hfold
    cases hfold
    exact ⟨h, by simp⟩
  | cons r rest ih =>
    rintro steps steps' h ⟨hsource, hrest⟩ hdeclared hfold
    rw [List.foldlM_cons] at hfold
    rcases eq_ok_of_bind hfold with ⟨steps₁, hadd, hfold⟩
    rcases h.addExplicit hsource (hdeclared r (by simp)) hadd with ⟨h₁, hedge₁⟩
    have hjoined : ∀ id, Joined home steps id ∨ id = r.target → Joined home steps₁ id := by
      intro id hid
      rw [joined_iff] at hid ⊢
      simp only [hedge₁]
      rcases hid with (hid | ⟨source, hid⟩) | rfl
      · exact Or.inl hid
      · exact Or.inr ⟨source, Or.inl hid⟩
      · exact Or.inr ⟨r.source, Or.inr ⟨rfl, rfl⟩⟩
    rcases ih h₁ (hrest.mono hjoined) (fun r' hr' => hdeclared r' (List.mem_cons_of_mem r hr'))
      hfold with ⟨h', hedge'⟩
    refine ⟨h', fun source target => ?_⟩
    rw [hedge', hedge₁, or_assoc]
    simp

/-! ## Shortest paths -/

/-- What becomes of the steps when a path is added without the tables that are joined already. -/
structure Adds (s : Schema) (home : TableId) (path : List Relation)
    (steps steps' : List JoinStep) : Prop where
  grown : Grown s home steps'
  kept : ∀ source target, Edge steps source target → Edge steps' source target
  joined : ∀ r ∈ path, Joined home steps' r.target
  new : ∀ source target, Edge steps' source target → Edge steps source target ∨
    (¬ Joined home steps target ∧ ∃ r ∈ path, r.source = source ∧ r.target = target)

lemma joined_of_kept (h : ∀ source target, Edge steps source target → Edge steps' source target)
    {id : TableId} (hid : Joined home steps id) : Joined home steps' id := by
  rw [joined_iff] at hid ⊢
  exact hid.imp_right fun ⟨source, hedge⟩ => ⟨source, h source id hedge⟩

lemma Adds.trans {path path' : List Relation} {steps'' : List JoinStep}
    (h : Adds s home path steps steps') (h' : Adds s home path' steps' steps'') :
    Adds s home (path ++ path') steps steps'' := by
  constructor
  · exact h'.grown
  · intro source target hedge
    exact h'.kept source target (h.kept source target hedge)
  · intro r hr
    rcases List.mem_append.1 hr with hr | hr
    · exact joined_of_kept h'.kept (h.joined r hr)
    · exact h'.joined r hr
  · intro source target hedge
    rcases h'.new source target hedge with hedge | ⟨hnot, r, hr, hrt⟩
    · rcases h.new source target hedge with hedge | ⟨hnot, r, hr, hrt⟩
      · exact Or.inl hedge
      · exact Or.inr ⟨hnot, r, List.mem_append_left _ hr, hrt⟩
    · exact Or.inr ⟨fun hjoined => hnot (joined_of_kept h.kept hjoined), r,
        List.mem_append_right _ hr, hrt⟩

lemma Grown.adds_single (h : Grown s home steps) {r : Relation}
    (hsource : Joined home steps r.source) (hr : r ∈ s.relationsOf r.source) :
    Adds s home [r] steps
      (if joins home steps r.target then steps else JoinPlan.follow home steps r) := by
  split_ifs with htarget
  · rw [joins_eq_true_iff] at htarget
    exact ⟨h, fun _ _ => id, by simpa using htarget, fun _ _ => Or.inl⟩
  · rw [joins_eq_true_iff] at htarget
    have hedge : Edge (JoinPlan.follow home steps r) r.source r.target :=
      edge_follow.2 (Or.inr ⟨rfl, rfl⟩)
    refine ⟨h.follow hsource htarget hr, ?_, by simpa using hedge.joined, ?_⟩
    · intro source target hedge
      exact edge_follow.2 (Or.inl hedge)
    · intro source target hedge
      rcases edge_follow.1 hedge with hedge | ⟨rfl, rfl⟩
      · exact Or.inl hedge
      · exact Or.inr ⟨htarget, r, by simp, rfl, rfl⟩

lemma Grown.adds_extend {path : List Relation} :
    ∀ {steps : List JoinStep}, Grown s home steps → Connected (Joined home steps) path →
      (∀ r ∈ path, r ∈ s.relationsOf r.source) →
      Adds s home path steps (JoinPlan.extend home steps path) := by
  induction path with
  | nil =>
    intro steps h _ _
    exact ⟨h, fun _ _ => id, by simp, fun _ _ => Or.inl⟩
  | cons r rest ih =>
    rintro steps h ⟨hsource, hrest⟩ hdeclared
    have hsingle := h.adds_single hsource (hdeclared r (by simp))
    refine hsingle.trans (ih hsingle.grown (hrest.mono ?_) ?_)
    · rintro id (hid | rfl)
      · exact joined_of_kept hsingle.kept hid
      · exact hsingle.joined r (by simp)
    · intro r' hr'
      exact hdeclared r' (List.mem_cons_of_mem r hr')

/-- To join an owner, nothing is added or the shortest path to it. -/
lemma Grown.reach (hs : s.Closed) (h : Grown s home steps) {owner : TableId}
    (hadd : JoinPlan.reach s home steps owner = .ok steps') :
    Joined home steps' owner ∧ (steps' = steps ∨ (¬ Joined home steps owner
      ∧ ∃ path, ⟨owner, path⟩ ∈ s.reachable home ∧ Adds s home path steps steps')) := by
  simp only [JoinPlan.reach] at hadd
  split_ifs at hadd with hjoined
  · cases hadd
    exact ⟨joins_eq_true_iff.1 hjoined, Or.inl rfl⟩
  · split at hadd
    · rename_i x hfind
      cases hadd
      have hx := List.mem_of_find?_eq_some hfind
      have howner : x.table = owner := by simpa using List.find?_some hfind
      rcases connected_of_leads hs (Schema.leads_of_mem_reachable hx) with
        ⟨hconnected, hdeclared, hend⟩
      have hadds := h.adds_extend (hconnected.mono fun id => Or.inl) hdeclared
      refine ⟨?_, Or.inr ⟨fun hj => hjoined (joins_eq_true_iff.2 hj), x.path, ?_, hadds⟩⟩
      · rcases hend with hend | ⟨r, hr, hend⟩
        · exact Or.inl (howner ▸ hend)
        · rw [← howner, ← hend]
          exact hadds.joined r hr
      · rwa [← howner]
    · cases hadd

lemma Grown.of_reach (hs : s.Closed) (h : Grown s home steps) {owner : TableId}
    (hadd : JoinPlan.reach s home steps owner = .ok steps') : Grown s home steps' := by
  rcases (h.reach hs hadd).2 with rfl | ⟨-, path, -, hadds⟩
  · exact h
  · exact hadds.grown

/-! ## No table twice -/

lemma nodup_of_addExplicit (h : (home :: steps.map JoinStep.target).Nodup) {r : Relation}
    (hadd : JoinPlan.addExplicit s home steps r = .ok steps') :
    (home :: steps'.map JoinStep.target).Nodup := by
  simp only [JoinPlan.addExplicit] at hadd
  split_ifs at hadd with hhome
  split at hadd
  · rename_i hstep
    cases hadd
    exact nodup_follow h (not_joined hhome hstep)
  · split_ifs at hadd
    cases hadd
    exact h

lemma nodup_extend (path : List Relation) :
    ∀ {steps : List JoinStep}, (home :: steps.map JoinStep.target).Nodup →
      (home :: (JoinPlan.extend home steps path).map JoinStep.target).Nodup := by
  induction path with
  | nil => exact id
  | cons r rest ih =>
    intro steps h
    have hfirst : (home :: (if joins home steps r.target then steps else follow home steps r).map
        JoinStep.target).Nodup := by
      split_ifs with htarget
      · exact h
      · exact nodup_follow h (mt joins_eq_true_iff.2 htarget)
    exact ih hfirst

lemma nodup_of_reach (h : (home :: steps.map JoinStep.target).Nodup) {owner : TableId}
    (hadd : JoinPlan.reach s home steps owner = .ok steps') :
    (home :: steps'.map JoinStep.target).Nodup := by
  simp only [JoinPlan.reach] at hadd
  split_ifs at hadd
  · cases hadd
    exact h
  · split at hadd
    · cases hadd
      exact nodup_extend _ h
    · cases hadd

/-! ## Both phases -/

/-- The steps between the two phases and in the second one: the explicit paths are there, and every
other step is part of the shortest path to an owner, all of whose tables are joined. -/
structure Covers (s : Schema) (home : TableId) (f : BoundFilter) (steps : List JoinStep) :
    Prop where
  grown : Grown s home steps
  explicit : ∀ r ∈ f.hops, Edge steps r.source r.target
  shortest : ∀ source target, Edge steps source target →
    (∃ r ∈ f.hops, r.source = source ∧ r.target = target) ∨
    (target ∉ f.pinned ∧ ∃ owner ∈ f.owners, owner ∉ f.pinned ∧
      ∃ path, ⟨owner, path⟩ ∈ s.reachable home ∧ (∀ r ∈ path, Joined home steps r.target) ∧
        ∃ r ∈ path, r.source = source ∧ r.target = target)

lemma Covers.joined_of_pinned {f : BoundFilter} (h : Covers s home f steps) {id : TableId}
    (hid : id ∈ f.pinned) : Joined home steps id := by
  rcases List.mem_map.1 hid with ⟨r, hr, rfl⟩
  exact (h.explicit r hr).joined

/-- The first phase has the edges of the explicit paths. -/
lemma grown_of_explicit {f : BoundFilter} (hs : s.Closed) (hf : f.Rooted s home)
    (hfold : f.hops.foldlM (addExplicit s home) [] = .ok steps) :
    Grown s home steps ∧ ∀ source target, Edge steps source target
      ↔ ∃ r ∈ f.hops, r.source = source ∧ r.target = target := by
  have hpaths : ∀ p ∈ f.paths, Connected (Joined home []) p.path
      ∧ ∀ r ∈ p.path, r ∈ s.relationsOf r.source := by
    intro p hp
    rcases connected_of_leads hs (hf p hp) with ⟨hconnected, hdeclared, -⟩
    exact ⟨hconnected.mono fun id => Or.inl, hdeclared⟩
  have hconnected : Connected (Joined home []) f.hops :=
    Connected.flatMap fun p hp => (hpaths p hp).1
  have hdeclared : ∀ r ∈ f.hops, r ∈ s.relationsOf r.source := by
    intro r hr
    rcases List.mem_flatMap.1 hr with ⟨p, hp, hr⟩
    exact (hpaths p hp).2 r hr
  rcases grown_nil.foldlM_addExplicit hconnected hdeclared hfold with ⟨hgrown, hedge⟩
  refine ⟨hgrown, fun source target => ?_⟩
  rw [hedge]
  simp [Edge]

/-- The first phase. -/
lemma covers_of_explicit {f : BoundFilter} (hs : s.Closed) (hf : f.Rooted s home)
    (hfold : f.hops.foldlM (addExplicit s home) [] = .ok steps) : Covers s home f steps := by
  rcases grown_of_explicit hs hf hfold with ⟨hgrown, hedge⟩
  exact ⟨hgrown, fun r hr => (hedge _ _).2 ⟨r, hr, rfl, rfl⟩,
    fun source target h => Or.inl ((hedge _ _).1 h)⟩

/-- One owner of the second phase. -/
lemma Covers.reach {f : BoundFilter} (hs : s.Closed) (h : Covers s home f steps)
    {owner : TableId} (howner : owner ∈ f.owners)
    (hadd : JoinPlan.reach s home steps owner = .ok steps') :
    Covers s home f steps' ∧ Joined home steps' owner
      ∧ ∀ source target, Edge steps source target → Edge steps' source target := by
  rcases h.grown.reach hs hadd with ⟨hjoined, rfl | ⟨hnot, path, hpath, hadds⟩⟩
  · exact ⟨h, hjoined, fun _ _ => id⟩
  · refine ⟨⟨hadds.grown, fun r hr => hadds.kept _ _ (h.explicit r hr), ?_⟩, hjoined, hadds.kept⟩
    intro source target hedge
    rcases hadds.new source target hedge with hedge | ⟨htarget, r, hr, hrt⟩
    · rcases h.shortest source target hedge with
        hexplicit | ⟨hpin, o, ho, hopin, way, hway, hall, hr⟩
      · exact Or.inl hexplicit
      · exact Or.inr ⟨hpin, o, ho, hopin, way, hway,
          fun r hr => joined_of_kept hadds.kept (hall r hr), hr⟩
    · exact Or.inr ⟨fun hpin => htarget (h.joined_of_pinned hpin), owner, howner,
        fun hpin => hnot (h.joined_of_pinned hpin), path, hpath, hadds.joined, r, hr, hrt⟩

/-- **The second phase** joins every owner. -/
lemma Covers.foldlM_reach {f : BoundFilter} (hs : s.Closed) {owners : List TableId} :
    ∀ {steps steps' : List JoinStep}, (∀ o ∈ owners, o ∈ f.owners) → Covers s home f steps →
      owners.foldlM (JoinPlan.reach s home) steps = .ok steps' →
      Covers s home f steps' ∧ (∀ o ∈ owners, Joined home steps' o)
        ∧ ∀ source target, Edge steps source target → Edge steps' source target := by
  induction owners with
  | nil =>
    intro steps steps' _ h hfold
    cases hfold
    exact ⟨h, by simp, fun _ _ => id⟩
  | cons owner rest ih =>
    intro steps steps' howners h hfold
    rw [List.foldlM_cons] at hfold
    rcases eq_ok_of_bind hfold with ⟨steps₁, hadd, hfold⟩
    rcases h.reach hs (howners owner (by simp)) hadd with ⟨h₁, hjoined₁, hkept₁⟩
    rcases ih (fun o ho => howners o (List.mem_cons_of_mem owner ho)) h₁ hfold with
      ⟨h', hjoined', hkept'⟩
    refine ⟨h', ?_, fun source target hedge => hkept' _ _ (hkept₁ _ _ hedge)⟩
    intro o ho
    rcases List.mem_cons.1 ho with rfl | ho
    · exact joined_of_kept hkept' hjoined₁
    · exact hjoined' o ho

/-! ## Order of the steps -/

lemma perm_insertByDepth (sorted : List JoinStep) (t : JoinStep) :
    (insertByDepth sorted t).Perm (t :: sorted) := by
  induction sorted with
  | nil => simp [insertByDepth]
  | cons u rest ih =>
    simp only [insertByDepth]
    split_ifs
    · exact (ih.cons u).trans (List.Perm.swap t u rest)
    · exact List.Perm.refl _

lemma pairwise_insertByDepth {sorted : List JoinStep} (t : JoinStep)
    (h : sorted.Pairwise fun u v => u.depth ≤ v.depth) :
    (insertByDepth sorted t).Pairwise fun u v => u.depth ≤ v.depth := by
  induction sorted with
  | nil => simp [insertByDepth]
  | cons u rest ih =>
    rcases List.pairwise_cons.1 h with ⟨hu, hrest⟩
    simp only [insertByDepth]
    split_ifs with hut
    · refine List.pairwise_cons.2 ⟨?_, ih hrest⟩
      intro v hv
      rcases List.mem_cons.1 ((perm_insertByDepth rest t).mem_iff.1 hv) with rfl | hv
      · exact hut
      · exact hu v hv
    · refine List.pairwise_cons.2 ⟨?_, h⟩
      intro v hv
      rcases List.mem_cons.1 hv with rfl | hv
      · omega
      · have := hu v hv
        omega

lemma byDepth_spec (steps : List JoinStep) :
    (byDepth steps).Perm steps ∧ (byDepth steps).Pairwise fun u v => u.depth ≤ v.depth := by
  have key : ∀ steps sorted : List JoinStep, (sorted.Pairwise fun u v => u.depth ≤ v.depth) →
      (steps.foldl insertByDepth sorted).Perm (steps ++ sorted)
        ∧ (steps.foldl insertByDepth sorted).Pairwise fun u v => u.depth ≤ v.depth := by
    intro steps
    induction steps with
    | nil =>
      intro sorted h
      exact ⟨List.Perm.refl _, h⟩
    | cons t rest ih =>
      intro sorted h
      rcases ih (insertByDepth sorted t) (pairwise_insertByDepth t h) with ⟨hperm, hsorted⟩
      refine ⟨?_, hsorted⟩
      exact hperm.trans (((perm_insertByDepth sorted t).append_left rest).trans
        List.perm_middle)
  simpa [byDepth] using key steps [] List.Pairwise.nil

lemma Grown.perm (h : Grown s home steps) (hperm : steps'.Perm steps) : Grown s home steps' := by
  constructor
  · exact (((hperm.map JoinStep.target).cons home).nodup_iff).2 h.nodup
  · intro t ht
    rcases h.source t (hperm.mem_iff.1 ht) with hhome | ⟨u, hu, hut⟩
    · exact Or.inl hhome
    · exact Or.inr ⟨u, hperm.mem_iff.2 hu, hut⟩
  · intro t ht
    exact h.declared t (hperm.mem_iff.1 ht)

lemma Edge.perm (hperm : steps'.Perm steps) {source target : TableId} :
    Edge steps' source target ↔ Edge steps source target := by
  simp [Edge, hperm.mem_iff]

lemma Joined.perm (hperm : steps'.Perm steps) {id : TableId} :
    Joined home steps' id ↔ Joined home steps id := by
  simp [Joined, hperm.mem_iff]

lemma Covers.perm {f : BoundFilter} (h : Covers s home f steps) (hperm : steps'.Perm steps) :
    Covers s home f steps' := by
  constructor
  · exact h.grown.perm hperm
  · intro r hr
    exact (Edge.perm hperm).2 (h.explicit r hr)
  · intro source target hedge
    rcases h.shortest source target ((Edge.perm hperm).1 hedge) with
      hexplicit | ⟨hpin, o, ho, hopin, path, hpath, hall, hr⟩
    · exact Or.inl hexplicit
    · exact Or.inr ⟨hpin, o, ho, hopin, path, hpath,
        fun r hr => (Joined.perm hperm).2 (hall r hr), hr⟩

/-- Sorted by depth, a step stands behind the one that joins its source. -/
lemma Grown.source_of_append (h : Grown s home steps)
    (hsorted : steps.Pairwise fun u v => u.depth ≤ v.depth) {before after : List JoinStep}
    {t : JoinStep} (hsteps : steps = before ++ t :: after) :
    (t.source = home ∧ t.depth = 1) ∨
      ∃ u ∈ before, u.target = t.source ∧ t.depth = u.depth + 1 := by
  have ht : t ∈ steps := by simp [hsteps]
  rcases h.source t ht with hhome | ⟨u, hu, hut, hdepth⟩
  · exact Or.inl hhome
  · -- a step that is less deep stands in front
    rw [hsteps] at hu hsorted
    rcases List.mem_append.1 hu with hu | hu
    · exact Or.inr ⟨u, hu, hut, hdepth⟩
    · have hle : t.depth ≤ u.depth := by
        rcases List.mem_cons.1 hu with rfl | hu
        · exact le_rfl
        · have hafter := (List.pairwise_append.1 hsorted).2.1
          exact (List.pairwise_cons.1 hafter).1 u hu
      omega

/-- The steps of a plan can be carried out in order: each starts at a table that is there by then,
and brings a new one. -/
structure Runnable (p : JoinPlan) : Prop where
  nodup : p.tables.Nodup
  source : ∀ before t after, p.steps = before ++ t :: after →
    t.source ∈ p.home :: before.map JoinStep.target

end JoinPlan

open JoinPlan

variable {db : Database} {home : TableId} {f : BoundFilter} {p : JoinPlan}

/-- A plan is made of the steps of both phases, sorted by depth. -/
lemma plan_eq_ok {s : Schema} (h : s.plan home f = .ok p) :
    ∃ steps steps', f.hops.foldlM (addExplicit s home) [] = .ok steps
      ∧ f.owners.foldlM (JoinPlan.reach s home) steps = .ok steps'
      ∧ p = ⟨home, byDepth steps', s.entries.map Schema.Entry.name⟩ := by
  simp only [Schema.plan] at h
  rcases eq_ok_of_bind h with ⟨steps, hexplicit, h⟩
  rcases eq_ok_of_bind h with ⟨steps', hshortest, h⟩
  cases h
  exact ⟨steps, steps', hexplicit, hshortest, rfl⟩

lemma home_of_plan {s : Schema} (h : s.plan home f = .ok p) : p.home = home := by
  rcases plan_eq_ok h with ⟨steps, steps', -, -, rfl⟩
  rfl

/-- **No plan joins a table twice**, whatever the filter is. -/
theorem nodup_of_plan {s : Schema} (h : s.plan home f = .ok p) : p.tables.Nodup := by
  rcases plan_eq_ok h with ⟨steps, steps', hexplicit, hshortest, rfl⟩
  have hfirst : (home :: steps.map JoinStep.target).Nodup :=
    foldlM_keeps (P := fun steps => (home :: steps.map JoinStep.target).Nodup)
      (fun _ h hadd => nodup_of_addExplicit h hadd) (List.nodup_singleton home) hexplicit
  have hsecond : (home :: steps'.map JoinStep.target).Nodup :=
    foldlM_keeps (P := fun steps => (home :: steps.map JoinStep.target).Nodup)
      (fun _ h hadd => nodup_of_reach h hadd) hfirst hshortest
  exact ((((byDepth_spec steps').1.map JoinStep.target).cons home).nodup_iff).2 hsecond

/-- **What a plan consists of**: the explicit paths, shortest paths for the owners they leave out,
and every owner in the end. -/
theorem covers_of_rooted {s : Schema} (hs : s.Closed) (hf : f.Rooted s home)
    (h : s.plan home f = .ok p) :
    p.home = home ∧ Covers s home f p.steps
      ∧ (∀ o ∈ f.owners, Joined home p.steps o)
      ∧ p.steps.Pairwise fun u v => u.depth ≤ v.depth := by
  rcases plan_eq_ok h with ⟨steps, steps', hexplicit, hshortest, rfl⟩
  rcases byDepth_spec steps' with ⟨hperm, hsorted⟩
  rcases (covers_of_explicit hs hf hexplicit).foldlM_reach hs (fun o => id) hshortest with
    ⟨hcovers, hjoined, -⟩
  exact ⟨rfl, hcovers.perm hperm, fun o ho => (Joined.perm hperm).2 (hjoined o ho), hsorted⟩

/-- The plan of a filter that has been bound. -/
theorem covers_of_plan (hs : db.schema.Closed) (hf : f.Sound db home)
    (h : db.schema.plan home f = .ok p) :
    p.home = home ∧ Covers db.schema home f p.steps
      ∧ (∀ o ∈ f.owners, Joined home p.steps o)
      ∧ p.steps.Pairwise fun u v => u.depth ≤ v.depth :=
  covers_of_rooted hs hf.rooted h

/-- **A plan can be carried out**, step by step, if the explicit paths start at the home table. -/
theorem runnable_of_rooted {s : Schema} (hs : s.Closed) (hf : f.Rooted s home)
    (h : s.plan home f = .ok p) :
    p.Runnable ∧ ∀ t ∈ p.steps, t.toRelation ∈ s.relationsOf t.source := by
  rcases plan_eq_ok h with ⟨steps, steps', hexplicit, hshortest, rfl⟩
  rcases byDepth_spec steps' with ⟨hperm, hsorted⟩
  have hfirst := (grown_of_explicit hs hf hexplicit).1
  have hgrown : Grown s home steps' :=
    foldlM_keeps (fun _ h hadd => h.of_reach hs hadd) hfirst hshortest
  have hgrown' := hgrown.perm hperm
  refine ⟨⟨hgrown'.nodup, ?_⟩, hgrown'.declared⟩
  intro before t after hsteps
  rcases hgrown'.source_of_append hsorted hsteps with ⟨hhome, -⟩ | ⟨u, hu, hut, -⟩
  · exact List.mem_cons.2 (Or.inl hhome)
  · exact List.mem_cons_of_mem _ (List.mem_map.2 ⟨u, hu, hut⟩)

/-- The plan of a filter that has been bound can be carried out. -/
theorem runnable_of_plan (hs : db.schema.Closed) (hf : f.Sound db home)
    (h : db.schema.plan home f = .ok p) : p.Runnable := (runnable_of_rooted hs hf.rooted h).1

/-- The columns of a filter belong to tables of its plan. -/
lemma owner_mem_tables (hs : db.schema.Closed) (hf : f.Sound db home)
    (h : db.schema.plan home f = .ok p) {c : BoundColumn} (hc : c ∈ f.expr.columns) :
    c.table ∈ p.tables := by
  rcases covers_of_plan hs hf h with ⟨rfl, -, hjoined, -⟩
  exact joined_iff_mem.1 (hjoined c.table (BoundFilter.mem_owners.2 ⟨c, hc, rfl⟩))

end LinkedTables
