import Mathlib
import LinkedTables.Proofs.Join.Planning
import LinkedTables.Proofs.Schema.Nearest

/-!
# A single explicit path

A filter that has columns of one table only, and spells out the path to it, is joined along that
path and over nothing else (`plan_eq_along`).  All that the path has to meet is that it comes to no
table twice, and so does not come back to the home table: then no relation of it finds its target
joined already, and each is one level deeper than the one in front of it.

The nearest path to a table is such a path (`Schema.Nearest.nodup`).
-/

namespace LinkedTables

/-! ## Paths that come to no table twice -/

lemma Schema.nodup_of_mem_reachable {s : Schema} {home : TableId} {x : Reached}
    (hx : x ∈ s.reachable home) : (home :: x.path.map Relation.target).Nodup := by
  induction hn : x.path.length using Nat.strong_induction_on generalizing x with
  | h n ih =>
    rcases reachable_cases hx with rfl | ⟨y, hy, r, -, rfl, hlt⟩
    · simp
    · rw [List.map_append, List.map_singleton, ← List.cons_append, ← List.concat_eq_append]
      refine (ih _ (hn ▸ hlt) hy rfl).concat fun hmem => ?_
      rcases List.mem_cons.1 hmem with htarget | hmem
      · exact target_ne_home hx (List.mem_append_right _ List.mem_cons_self) htarget
      · -- the path to the target would be a part of the one to its source
        obtain ⟨q, hq, htarget⟩ := List.mem_map.1 hmem
        obtain ⟨before, after, hpath⟩ := List.append_of_mem hq
        have heq := congrArg Reached.path
          (eq_of_mem_reachable (mem_reachable_of_append hy hpath) hx htarget)
        have hlength := congrArg List.length heq
        simp [hpath] at hlength

/-- **The nearest path** comes to no table twice. -/
lemma Schema.Nearest.nodup {s : Schema} {home id : TableId} {path : List Relation}
    (h : s.Nearest home path id) (hhome : home < s.size) :
    (home :: path.map Relation.target).Nodup :=
  nodup_of_mem_reachable ((nearest_iff_mem hhome).1 h)

namespace JoinPlan

variable {s : Schema} {home id : TableId} {path : List Relation}

/-! ## The steps -/

/-- The steps along a path, each one level deeper than the one in front of it. -/
def along (path : List Relation) : List JoinStep :=
  path.mapIdx fun i r => ⟨r.source, r.name, r.target, r.onLeft, r.onRight, i + 1⟩

lemma along_append_singleton (path : List Relation) (r : Relation) : along (path ++ [r]) =
    along path ++ [⟨r.source, r.name, r.target, r.onLeft, r.onRight, path.length + 1⟩] :=
  List.mapIdx_concat

@[simp] lemma map_toRelation_along : (along path).map JoinStep.toRelation = path := by
  induction path using List.reverseRecOn with
  | nil => rfl
  | append_singleton path r ih =>
    rw [along_append_singleton, List.map_append, ih]
    rfl

@[simp] lemma map_target_along : (along path).map JoinStep.target = path.map Relation.target := by
  have h : ((along path).map JoinStep.toRelation).map Relation.target
      = path.map Relation.target := by rw [map_toRelation_along]
  rwa [List.map_map] at h

/-- The last relation of a path that comes to no table twice leads to a table that the others do
not join. -/
lemma not_joined_of_nodup {r : Relation}
    (h : (home :: (path ++ [r]).map Relation.target).Nodup) :
    (home :: path.map Relation.target).Nodup ∧ r.target ≠ home
      ∧ stepTo? (along path) r.target = none := by
  rw [List.map_append, List.map_singleton, ← List.cons_append, ← List.concat_eq_append,
    List.nodup_concat] at h
  obtain ⟨hnew, hnodup⟩ := h
  refine ⟨hnodup, fun hhome => hnew (hhome ▸ List.mem_cons_self), ?_⟩
  rw [stepTo?_eq_none]
  intro t ht htarget
  rw [← map_target_along] at hnew
  exact hnew (List.mem_cons_of_mem _ (htarget ▸ List.mem_map_of_mem ht))

lemma depth_le_of_mem_along {t : JoinStep} (ht : t ∈ along path) : t.depth ≤ path.length := by
  obtain ⟨i, hi, rfl⟩ := List.mem_mapIdx.1 ht
  exact hi

/-- The table that a path leads to is as deep as the path is long. -/
lemma depthOf_along (h : s.Leads home path id) (hnodup : (home :: path.map Relation.target).Nodup) :
    depthOf home (along path) id = path.length := by
  cases h with
  | nil => simp [depthOf]
  | @snoc path id r _ _ =>
    obtain ⟨-, hhome, hnone⟩ := not_joined_of_nodup hnodup
    rw [stepTo?] at hnone
    simp [depthOf, hhome, along_append_singleton, stepTo?, List.find?_append, hnone]

/-! ## The plan -/

/-- **The first phase** makes the steps along the path. -/
lemma foldlM_addExplicit_eq_along (hs : s.Closed) (h : s.Leads home path id)
    (hnodup : (home :: path.map Relation.target).Nodup) :
    path.foldlM (addExplicit s home) [] = .ok (along path) := by
  induction h with
  | nil => rfl
  | @snoc path id r hleads hr ih =>
    obtain ⟨hnodup, hhome, hnone⟩ := not_joined_of_nodup hnodup
    have hstep : addExplicit s home (along path) r = .ok (along (path ++ [r])) := by
      simp only [addExplicit, hhome, if_false, hnone, follow, along_append_singleton]
      rw [(hs id r hr).1, depthOf_along hleads hnodup]
    rw [List.foldlM_append, ih hnodup]
    show (addExplicit s home (along path) r >>= pure) = _
    rw [hstep]
    rfl

lemma insertByDepth_of_forall_le {sorted : List JoinStep} {t : JoinStep}
    (h : ∀ u ∈ sorted, u.depth ≤ t.depth) : insertByDepth sorted t = sorted ++ [t] := by
  induction sorted with
  | nil => rfl
  | cons u rest ih =>
    rw [insertByDepth, if_pos (h u List.mem_cons_self),
      ih fun v hv => h v (List.mem_cons_of_mem u hv), List.cons_append]

/-- These steps are in order. -/
lemma byDepth_along (path : List Relation) : byDepth (along path) = along path := by
  induction path using List.reverseRecOn with
  | nil => rfl
  | append_singleton path r ih =>
    rw [along_append_singleton, byDepth, List.foldl_append]
    show insertByDepth (byDepth (along path)) _ = _
    rw [ih]
    exact insertByDepth_of_forall_le fun u hu => (depth_le_of_mem_along hu).trans (Nat.le_succ _)

/-- **A single explicit path is planned as it is written.** -/
theorem plan_eq_along (hs : s.Closed) (h : s.Leads home path id) (hne : id ≠ home)
    (hnodup : (home :: path.map Relation.target).Nodup) {f : BoundFilter}
    (hpaths : f.paths = [⟨id, path⟩]) (howners : f.owners = [id]) :
    s.plan home f = .ok ⟨home, along path, s.entries.map Schema.Entry.name⟩ := by
  have hjoins : joins home (along path) id = true := by
    rw [joins_eq_true_iff, joined_iff_mem, map_target_along]
    cases h with
    | nil => exact absurd rfl hne
    | snoc _ _ => simp
  have hreach : reach s home (along path) id = .ok (along path) := by
    rw [reach, if_pos hjoins]
  have hexplicit : f.paths.flatMap ExplicitPath.path = path := by simp [hpaths]
  rw [Schema.plan, hexplicit, foldlM_addExplicit_eq_along hs h hnodup, howners]
  show (reach s home (along path) id >>= pure) >>= _ = _
  rw [hreach]
  show Except.ok (JoinPlan.mk home (byDepth (along path)) _) = _
  rw [byDepth_along]

end JoinPlan

end LinkedTables
