import Mathlib
import LinkedTables.Proofs.Schema.Reach

/-!
# No table in reach is missed

The rounds of the search for tables in reach come to an end.  What follows from this, in two groups.

**Completeness.**  What a relation leads to from a table that has been found has been found as well
(`target_mem_roundsFrom`).  So a table is found exactly if a path leads to it (`mem_reachable_iff`),
and the home table is found first.

**Locality.**  The search reads the relations of the tables that it finds and no others, so two
schemas that agree on those give the same list, however many other tables they have
(`reachable_congr`).
-/

namespace LinkedTables

namespace Schema

variable {s s' : Schema} {home id : TableId} {rounds : ℕ} {seen : List TableId}
  {round : List Reached}

/-! ## Completeness -/

lemma target_mem_discover {path rs : List Relation} {r : Relation} (hr : r ∈ rs)
    (seen : List TableId) :
    r.target ∈ seen ∨ r.target ∈ (discover seen path rs).map Reached.table := by
  induction rs generalizing seen with
  | nil => simp at hr
  | cons q rest ih =>
    simp only [discover]
    split_ifs with hq
    · rcases List.mem_cons.1 hr with rfl | hr
      · exact Or.inl hq
      · exact ih hr seen
    · rcases List.mem_cons.1 hr with rfl | hr
      · exact Or.inr (by simp)
      · have hrest := ih hr (q.target :: seen)
        simp only [List.map_cons, List.mem_cons] at hrest ⊢
        tauto

lemma target_mem_nextRound {y : Reached} {r : Relation} (hy : y ∈ round)
    (hr : r ∈ s.relationsOf y.table) (seen : List TableId) :
    r.target ∈ seen ∨ r.target ∈ (s.nextRound seen round).map Reached.table := by
  induction round generalizing seen with
  | nil => simp at hy
  | cons x rest ih =>
    simp only [nextRound, List.map_append, List.mem_append]
    rcases List.mem_cons.1 hy with rfl | hy
    · exact (target_mem_discover hr seen).imp_right Or.inl
    · have hrest := ih hy ((discover seen x.path (s.relationsOf x.table)).map Reached.table ++ seen)
      simp only [List.mem_append] at hrest
      tauto

lemma subset_roundsFrom : round ⊆ s.roundsFrom rounds seen round := by
  cases rounds with
  | zero => exact List.Subset.refl round
  | succ rounds =>
    by_cases hnext : s.nextRound seen round = []
    · rw [roundsFrom_eq_self hnext]
      exact List.Subset.refl round
    · rw [roundsFrom_succ hnext]
      exact List.subset_append_left ..

/-- After enough rounds, relations lead from tables found to tables found or met before. -/
lemma target_mem_roundsFrom (h : (s.unseen seen).card < rounds) {x : Reached}
    (hx : x ∈ s.roundsFrom rounds seen round) {r : Relation} (hr : r ∈ s.relationsOf x.table) :
    r.target ∈ seen ∨ r.target ∈ (s.roundsFrom rounds seen round).map Reached.table := by
  refine rounds_induction (motive := fun rounds seen round => x ∈ s.roundsFrom rounds seen round →
    r.target ∈ seen ∨ r.target ∈ (s.roundsFrom rounds seen round).map Reached.table) ?_ ?_ h hx
  · -- the last round leads to nothing that has not been met
    intro rounds seen round hlast hx
    rw [roundsFrom_eq_self hlast] at hx ⊢
    have htarget := target_mem_nextRound hx hr seen
    rw [hlast] at htarget
    exact htarget.imp_right fun hnil => absurd hnil (by simp)
  · intro rounds seen round hnext ih hx
    rw [roundsFrom_succ hnext] at hx ⊢
    rw [List.map_append, List.mem_append]
    have hsubset : (s.nextRound seen round).map Reached.table ⊆ (s.roundsFrom rounds
        ((s.nextRound seen round).map Reached.table ++ seen) (s.nextRound seen round)).map
          Reached.table := List.map_subset _ subset_roundsFrom
    rcases List.mem_append.1 hx with hx | hx
    · exact (target_mem_nextRound hx hr seen).imp_right fun hfound => Or.inr (hsubset hfound)
    · have htarget := ih hx
      rw [List.mem_append] at htarget
      rcases htarget with (hfound | hseen) | hfound
      · exact Or.inr (Or.inr (hsubset hfound))
      · exact Or.inl hseen
      · exact Or.inr (Or.inr hfound)

/-- **The home table is found first.** -/
lemma exists_reachable_eq_cons (hhome : home < s.size) :
    ∃ rest, s.reachable home = ⟨home, []⟩ :: rest := by
  obtain ⟨rounds, hrounds⟩ := Nat.exists_eq_add_one_of_ne_zero (Nat.ne_zero_of_lt hhome)
  rw [reachable_eq_roundsFrom, if_pos hhome, hrounds]
  by_cases hnext : s.nextRound [home] [⟨home, []⟩] = []
  · exact ⟨[], roundsFrom_eq_self hnext⟩
  · exact ⟨_, roundsFrom_succ hnext⟩

/-- **What a relation leads to** from a table in reach is in reach. -/
lemma target_mem_reachable {x : Reached} (hx : x ∈ s.reachable home) {r : Relation}
    (hr : r ∈ s.relationsOf x.table) : r.target ∈ (s.reachable home).map Reached.table := by
  have hstart := home_mem_reachable hx
  simp only [reachable_eq_roundsFrom] at hx hstart ⊢
  split_ifs at hx hstart ⊢ with hhome
  · rcases target_mem_roundsFrom (card_unseen_home hhome) hx hr with htarget | hfound
    · rw [List.mem_singleton.1 htarget]
      exact List.mem_map_of_mem hstart
    · exact hfound
  · simp at hx

/-- A path leads from the home table to another table. -/
def Reaches (s : Schema) (home id : TableId) : Prop := ∃ path, s.Leads home path id

lemma mem_reachable_of_leads (hhome : home < s.size) {path : List Relation}
    (h : s.Leads home path id) : id ∈ (s.reachable home).map Reached.table := by
  induction h with
  | nil =>
    obtain ⟨rest, hrest⟩ := exists_reachable_eq_cons hhome
    simp [hrest]
  | snoc _ hr ih =>
    obtain ⟨x, hx, rfl⟩ := List.mem_map.1 ih
    exact target_mem_reachable hx hr

/-- **A table is found** exactly if a path leads to it. -/
theorem mem_reachable_iff (hhome : home < s.size) :
    id ∈ (s.reachable home).map Reached.table ↔ s.Reaches home id := by
  constructor
  · intro h
    obtain ⟨x, hx, rfl⟩ := List.mem_map.1 h
    exact ⟨x.path, leads_of_mem_reachable hx⟩
  · rintro ⟨path, hpath⟩
    exact mem_reachable_of_leads hhome hpath

/-! ## Locality -/

lemma nextRound_congr (h : ∀ x ∈ round, s'.relationsOf x.table = s.relationsOf x.table)
    (seen : List TableId) : s'.nextRound seen round = s.nextRound seen round := by
  induction round generalizing seen with
  | nil => rfl
  | cons x rest ih =>
    have hx := h x (List.mem_cons_self ..)
    have hrest := ih fun y hy => h y (List.mem_cons_of_mem x hy)
    simp only [nextRound, hx, hrest]

lemma roundsFrom_congr (h : ∀ x ∈ s.roundsFrom rounds seen round,
      s'.relationsOf x.table = s.relationsOf x.table) :
    s'.roundsFrom rounds seen round = s.roundsFrom rounds seen round := by
  induction rounds generalizing seen round with
  | zero => rfl
  | succ rounds ih =>
    have hnext : s'.nextRound seen round = s.nextRound seen round :=
      nextRound_congr (fun x hx => h x (subset_roundsFrom hx)) seen
    by_cases hnil : s.nextRound seen round = []
    · rw [roundsFrom_eq_self hnil, roundsFrom_eq_self (hnext.trans hnil)]
    · rw [roundsFrom_succ hnil] at h
      rw [roundsFrom_succ hnil, roundsFrom_succ (hnext ▸ hnil), hnext,
        ih fun x hx => h x (List.mem_append_right _ hx)]

/-- **Enough rounds are as good as more.** -/
theorem roundsFrom_eq_of_le {rounds' : ℕ} (h : (s.unseen seen).card < rounds)
    (hle : rounds ≤ rounds') :
    s.roundsFrom rounds' seen round = s.roundsFrom rounds seen round := by
  refine rounds_induction (motive := fun rounds seen round => ∀ {rounds'}, rounds ≤ rounds' →
    s.roundsFrom rounds' seen round = s.roundsFrom rounds seen round) ?_ ?_ h hle
  · intro rounds seen round hlast rounds' _
    rw [roundsFrom_eq_self hlast, roundsFrom_eq_self hlast]
  · intro rounds seen round hnext ih rounds' hle
    obtain ⟨more, rfl⟩ : ∃ more, rounds' = more + 1 := ⟨rounds' - 1, by omega⟩
    rw [roundsFrom_succ hnext, roundsFrom_succ hnext, ih (by omega)]

/-- **The search reads the relations of the tables that it finds**, and no others. -/
theorem reachable_congr (hhome : home < s.size) (hhome' : home < s'.size)
    (h : ∀ id, s.Reaches home id → s'.relationsOf id = s.relationsOf id) :
    s'.reachable home = s.reachable home := by
  -- both searches are compared where each of them has had rounds enough
  have hmore : s.roundsFrom (max s.size s'.size) [home] [⟨home, []⟩] = s.reachable home := by
    rw [reachable_eq_roundsFrom, if_pos hhome]
    exact roundsFrom_eq_of_le (card_unseen_home hhome) (le_max_left ..)
  have hmore' : s'.roundsFrom (max s.size s'.size) [home] [⟨home, []⟩] = s'.reachable home := by
    rw [reachable_eq_roundsFrom, if_pos hhome']
    exact roundsFrom_eq_of_le (card_unseen_home hhome') (le_max_right ..)
  rw [← hmore, ← hmore']
  refine roundsFrom_congr fun x hx => h x.table ?_
  rw [hmore] at hx
  exact ⟨x.path, leads_of_mem_reachable hx⟩

end Schema

end LinkedTables
