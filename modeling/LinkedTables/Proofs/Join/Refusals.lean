import Mathlib
import LinkedTables.Proofs.Join.Faithful

/-!
# Filters that cannot be planned

A bound filter is planned unless the paths that it spells out contradict each other or lead back to
the home table, and the failure says where they do (`BoundFilter.Conflict`).  The other failure of
planning, a table that cannot be reached, does not arise: an owner is the home table, or the end of
a path that is spelled out and so joined in the first phase, or it was found by the very search that
the second phase looks it up in.
-/

namespace LinkedTables

/-- What is wrong with explicit paths, in the words of the failure that it leads to. -/
inductive BoundFilter.Conflict (f : BoundFilter) (s : Schema) (home : TableId) : InputFault → Prop
  /-- a relation leads back to the home table -/
  | leadsHome {r : Relation} : r ∈ f.hops → r.target = home → Conflict f s home (.leadsHome r.name)
  /-- two relations, declared on two tables or under two names, lead to one table -/
  | twoWays {q r : Relation} : q ∈ f.hops → r ∈ f.hops → q.target = r.target →
      (q.source ≠ r.source ∨ q.name ≠ r.name) →
      Conflict f s home (.twoWays (s.nameOf r.target) (s.nameOf q.source, q.name)
        (s.nameOf r.source, r.name))

namespace JoinPlan

variable {s : Schema} {home : TableId} {f : BoundFilter} {steps steps' : List JoinStep}
  {x : Failure} {Q : Relation → Prop}

/-! ## The first phase -/

lemma forall_follow {r : Relation} (hr : Q r) (h : ∀ t ∈ steps, Q t.toRelation) :
    ∀ t ∈ follow home steps r, Q t.toRelation := by
  intro t ht
  rcases List.mem_append.1 ht with ht | ht
  · exact h t ht
  · rw [List.mem_singleton.1 ht]
    exact hr

lemma forall_of_addExplicit {r : Relation} (hr : Q r) (h : ∀ t ∈ steps, Q t.toRelation)
    (hadd : addExplicit s home steps r = .ok steps') : ∀ t ∈ steps', Q t.toRelation := by
  simp only [addExplicit] at hadd
  split_ifs at hadd
  split at hadd
  · cases hadd
    exact forall_follow hr h
  · split_ifs at hadd
    cases hadd
    exact h

/-- **A relation of an explicit path is refused** if it leads home, or to a table that an earlier
one leads to. -/
lemma addExplicit_error {r : Relation} (hr : r ∈ f.hops)
    (hsteps : ∀ t ∈ steps, t.toRelation ∈ f.hops)
    (h : addExplicit s home steps r = .error x) :
    ∃ fault, f.Conflict s home fault ∧ x = .invalidInput fault := by
  simp only [addExplicit] at h
  split_ifs at h with hhome
  · cases h
    exact ⟨_, .leadsHome hr hhome, rfl⟩
  · split at h
    · cases h
    · rename_i t hstep
      split_ifs at h with hsame
      cases h
      obtain ⟨ht, htarget⟩ := stepTo?_eq_some hstep
      exact ⟨_, .twoWays (hsteps t ht) hr htarget (not_and_or.1 hsame), rfl⟩

/-! ## The second phase -/

/-- An owner can be joined if it is joined already or was found in reach. -/
lemma exists_reach {owner : TableId}
    (h : Joined home steps owner ∨ owner ∈ (s.reachable home).map Reached.table) :
    ∃ steps', JoinPlan.reach s home steps owner = .ok steps' := by
  simp only [JoinPlan.reach]
  split_ifs with hjoined
  · exact ⟨steps, rfl⟩
  · have howner := h.resolve_left fun hj => hjoined (joins_eq_true_iff.2 hj)
    cases hfind : (s.reachable home).find? (·.table == owner) with
    | some x => exact ⟨_, rfl⟩
    | none =>
      rcases List.mem_map.1 howner with ⟨x, hx, rfl⟩
      simpa using List.find?_eq_none.1 hfind x hx

/-- What is joined stays joined. -/
lemma joined_of_reach {owner id : TableId} (hadd : JoinPlan.reach s home steps owner = .ok steps')
    (hid : Joined home steps id) : Joined home steps' id :=
  hid.imp_right fun ⟨t, ht, htarget⟩ => ⟨t, subset_of_reach hadd ht, htarget⟩

/-- **The second phase does not fail** if every owner is joined or in reach when it begins. -/
lemma exists_foldlM_reach {owners : List TableId} :
    ∀ {steps : List JoinStep}, (∀ owner ∈ owners,
      Joined home steps owner ∨ owner ∈ (s.reachable home).map Reached.table) →
      ∃ steps', owners.foldlM (JoinPlan.reach s home) steps = .ok steps' := by
  induction owners with
  | nil => exact fun _ => ⟨_, rfl⟩
  | cons owner rest ih =>
    intro steps h
    obtain ⟨steps₁, hadd⟩ := exists_reach (h owner List.mem_cons_self)
    obtain ⟨steps', hrest⟩ := ih fun other hother =>
      (h other (List.mem_cons_of_mem owner hother)).imp_left (joined_of_reach hadd)
    exact ⟨steps', by rw [List.foldlM_cons, hadd]; exact hrest⟩

/-- From the end of the first phase on, the tables at the ends of explicit paths are joined. -/
lemma Covers.joined_of_path {db : Database} {f : BoundFilter} (hs : db.schema.Closed)
    (hf : f.Sound db home) (h : Covers db.schema home f steps) {p : ExplicitPath}
    (hp : p ∈ f.paths) : Joined home steps p.table := by
  rcases (connected_of_leads hs (hf.explicit p hp).2).2.2 with hhome | ⟨r, hr, hend⟩
  · exact Or.inl hhome
  · rw [← hend]
    exact (h.explicit r (List.mem_flatMap.2 ⟨p, hp, hr⟩)).joined

/-- From the end of the first phase on, every owner is joined or in reach. -/
lemma Covers.joined_or_reached {db : Database} {f : BoundFilter} (hs : db.schema.Closed)
    (hf : f.Sound db home) (h : Covers db.schema home f steps) {owner : TableId}
    (howner : owner ∈ f.owners) :
    Joined home steps owner ∨ owner ∈ (db.schema.reachable home).map Reached.table := by
  rcases hf.located owner howner with hhome | ⟨p, hp, rfl⟩ | hreached
  · exact Or.inl (Or.inl hhome)
  · exact Or.inl (h.joined_of_path hs hf hp)
  · exact Or.inr hreached

end JoinPlan

open JoinPlan

/-- **A filter is planned** unless the paths that it spells out contradict each other. -/
theorem conflict_of_plan_error {db : Database} {home : TableId} {f : BoundFilter} {x : Failure}
    (hs : db.schema.Closed) (hf : f.Sound db home) (h : db.schema.plan home f = .error x) :
    ∃ fault, f.Conflict db.schema home fault ∧ x = .invalidInput fault := by
  simp only [Schema.plan] at h
  rcases eq_error_of_bind h with h | ⟨steps, hexplicit, h⟩
  · rcases exists_of_foldlM_error (P := fun steps => ∀ t ∈ steps, t.toRelation ∈ f.hops)
      (fun hr h hadd => forall_of_addExplicit hr h hadd) (by simp) h with
      ⟨steps, r, hsteps, hr, hadd⟩
    exact addExplicit_error hr hsteps hadd
  · have hcovers := covers_of_explicit hs hf.rooted hexplicit
    obtain ⟨steps', hshortest⟩ := exists_foldlM_reach fun _ => hcovers.joined_or_reached hs hf
    rw [hshortest] at h
    cases h

end LinkedTables
