import Mathlib
import LinkedTables.Proofs.Filter.Widening
import LinkedTables.Proofs.Join.Enumeration

/-!
# How many rows a plan joins

The rows of a frame are the assignments that follow its steps, written down in the order in which
the tables were joined.  No assignment is written down twice (`Frame.Ordered.nodup`), so a frame has
as many rows as there are such assignments, and that does not depend on the order of the joins.

The comparison is made in one direction (`Represents.size_le`): the assignment behind each row of
one frame is behind a row of the other frame too, and different rows have different assignments.
For plans that follow the same relations (`JoinPlan.Alike`) it can be made in both, so that the
limit on joined rows is met by both or by neither.
-/

namespace LinkedTables

/-! ## Frames of the same assignments -/

/-- A frame has no more rows than another if the assignments behind its rows follow the steps of the
other, and fill all of its tables. -/
lemma Frame.Represents.size_le {db : Database} {home : TableId} {size : ℕ}
    {steps steps' : List JoinStep} {f f' : Frame} (h : Represents db home size steps f)
    (h' : Represents db home size steps' f') (hnodup : f.rows.toList.Nodup)
    (htables : ∀ id ∈ f.tables, id ∈ f'.tables)
    (hsteps : ∀ s : Assignment, (∀ t ∈ steps, db.Follows s t) → ∀ t ∈ steps', db.Follows s t) :
    f.size ≤ f'.size := by
  choose! s hhome hfollows hrow using fun row hrow => (h.rows row).1 hrow
  have hnew : (f.rows.toList.map fun row => f'.tables.map (s row)).Nodup := by
    refine hnodup.map_on ?_
    intro row hmem row' hmem' heq
    rw [hrow row (Array.mem_toList_iff.1 hmem), hrow row' (Array.mem_toList_iff.1 hmem')]
    refine List.map_congr_left fun id hid => ?_
    exact List.map_inj_left.1 heq id (htables id hid)
  have hsub : (f.rows.toList.map fun row => f'.tables.map (s row)) ⊆ f'.rows.toList := by
    intro new hnew
    obtain ⟨row, hmem, rfl⟩ := List.mem_map.1 hnew
    have hmem' := Array.mem_toList_iff.1 hmem
    exact Array.mem_toList_iff.2 ((h'.rows _).2
      ⟨s row, hhome row hmem', hsteps _ (hfollows row hmem'), rfl⟩)
  simpa [Frame.size] using (hnew.subperm hsub).length_le

namespace JoinPlan

variable {p p' : JoinPlan}

lemma Alike.mem_tables_iff (h : p.Alike p') {id : TableId} : id ∈ p.tables ↔ id ∈ p'.tables := by
  simp only [JoinPlan.mem_tables_iff, h.home, h.mem_iff]

lemma Alike.steps_ne_nil (h : p.Alike p') (hsteps : p'.steps ≠ []) : p.steps ≠ [] := by
  obtain ⟨t, ht⟩ := List.exists_mem_of_ne_nil _ hsteps
  obtain ⟨u, hu, -⟩ := List.mem_map.1 ((h.mem_iff _).2 (List.mem_map_of_mem ht))
  exact List.ne_nil_of_mem hu

/-- **The order of the joins does not matter for the number of joined rows.** -/
theorem Alike.exists_buildFrame (h : p.Alike p') (hp : p.Runnable) (hp' : p'.Runnable)
    {db : Database} (hregistered : ∀ id ∈ p.tables, ∃ t, db.tables[id]? = some t) {f : Frame}
    (hf : (db.buildFrame none p).result = .ok f) :
    ∃ f', (db.buildFrame none p').result = .ok f' ∧ f'.size = f.size := by
  obtain ⟨home, hhome⟩ := hregistered p.home (List.mem_cons_self ..)
  obtain ⟨f₁, hf₁, hrep⟩ := hp.exists_buildFrame hregistered hhome
  obtain ⟨f', hf', hrep'⟩ := hp'.exists_buildFrame
    (fun id hid => hregistered id (h.mem_tables_iff.2 hid)) (h.home ▸ hhome)
  rw [hf₁.result] at hf
  cases hf
  rw [← h.home] at hrep'
  refine ⟨f', hf'.result, le_antisymm ?_ ?_⟩
  · refine hrep'.size_le hrep ((Database.ordered_of_buildFrame hf'.result).nodup) ?_ fun s hs =>
      Database.follows_of_relations_subset (fun r => (h.mem_iff r).1) hs
    intro id hid
    rw [hrep'.tables, h.home] at hid
    rw [hrep.tables]
    exact h.mem_tables_iff.2 hid
  · refine hrep.size_le hrep' ((Database.ordered_of_buildFrame hf₁.result).nodup) ?_ fun s hs =>
      Database.follows_of_relations_subset (fun r => (h.mem_iff r).2) hs
    intro id hid
    rw [hrep.tables] at hid
    rw [hrep'.tables, h.home]
    exact h.mem_tables_iff.1 hid

end JoinPlan

end LinkedTables
